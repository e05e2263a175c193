import Lox.Proofs.Fields.Action

/-! Programs recall what they do and which calls they begin: expressions by induction on the expression,
statements by induction on the statement, and calls by induction on the bound. -/
namespace Lox

/-- Calls recall what is done inside them, whichever values are called. -/
def CallersRecall (call : Caller) (inside : CallLog) (begun : CallStarts) : Prop :=
  ∀ {made : List Class} {m : Machine} (callee : Value) {arguments : List Value} (line : Nat),
    m.Populated made → (∀ v ∈ arguments, v.Known made m) →
    Recalls made m (call callee arguments line) (inside callee arguments line m)
      (begun callee arguments line m) Value.Known

section

variable {call : Caller} {inside : CallLog} {begun : CallStarts}

mutual

theorem Expr.recalls (callers : CallersRecall call inside begun) {made : List Class} {m : Machine}
    (site : Site) : (e : Expr) → m.Populated made →
      Recalls made m (e.evaluate call) (e.log call inside site m) (e.starts call begun m) Value.Known
  | .constant value, populated => by
    rw [Expr.evaluate, Expr.log, Expr.starts]
    exact .pure populated (Value.ofConstant_known value)
  | .group part, populated => by
    rw [Expr.evaluate, Expr.log, Expr.starts]
    exact part.recalls callers site populated
  | .unary operator part, populated => by
    rw [Expr.evaluate, Expr.log, Expr.starts]
    refine (part.recalls callers site populated).last fun v made' k _ populated' _ => ?_
    exact .applyUnary populated' operator v
  | .binary left operator right, populated => by
    rw [Expr.evaluate, Expr.log, Expr.starts]
    refine (left.recalls callers site populated).bind fun v made' k _ populated' _ => ?_
    refine (right.recalls callers site populated').last fun v' made'' k' _ populated'' _ => ?_
    exact .applyBinary populated'' operator v v'
  | .logical left operator right, populated => by
    rw [Expr.evaluate, Expr.log, Expr.starts]
    refine (left.recalls callers site populated).bind fun v made' k _ populated' known => ?_
    split
    · exact .pure populated' known
    · exact right.recalls callers site populated'
  | .read i name, populated => by
    rw [Expr.evaluate, Expr.log, Expr.starts]
    exact .readVariable populated i
  | .assign i name value, populated => by
    rw [Expr.evaluate, Expr.log, Expr.starts]
    refine (value.recalls callers site populated).quietly fun v made' k _ populated' known => ?_
    refine .entry rfl populated' trivial (fun _ => rfl) ?_
    refine (Recalls.assignVariable populated' i known).last fun _ made'' k' later populated'' _ => ?_
    exact .pure populated'' (known.mono later)
  | .call callee closing arguments, populated => by
    rw [Expr.evaluate, Expr.log, Expr.starts]
    refine (callee.recalls callers site populated).bind fun v made' k _ populated' _ => ?_
    refine (Expr.allRecalls callers site arguments populated').bind ?_
    intro list made'' k' _ populated'' all
    exact callers v closing.line populated'' all
  | .get object name, populated => by
    rw [Expr.evaluate, Expr.log, Expr.starts]
    refine (object.recalls callers site populated).quietly fun v made' k _ populated' known => ?_
    exact .property populated' site known
  | .set object name value, populated => by
    rw [Expr.evaluate, Expr.log, Expr.starts]
    refine (object.recalls callers site populated).bind fun v made' k _ populated' known => ?_
    cases v with
    | object id c =>
      refine (value.recalls callers site populated').quietly fun v made'' k' later populated'' known' => ?_
      have there : made''[id]? = some c := known.mono later
      refine (Recalls.setField populated'' site there known').last fun _ made₃ k'' later' populated₃ _ => ?_
      exact .pure populated₃ (known'.mono later')
    | _ => exact .raise populated'
  | .this i keyword, populated => by
    rw [Expr.evaluate, Expr.log, Expr.starts]
    exact .entry rfl populated trivial (fun _ => rfl) (.readVariable populated i)

theorem Expr.allRecalls (callers : CallersRecall call inside begun) {made : List Class} {m : Machine}
    (site : Site) : (list : List Expr) → m.Populated made →
      Recalls made m (Expr.evaluateAll call list) (Expr.allLog call inside site list m)
        (Expr.allStarts call begun list m) fun made m all => ∀ v ∈ all, v.Known made m
  | [], populated => by
    rw [Expr.evaluateAll, Expr.allLog, Expr.allStarts]
    exact .pure populated (by simp)
  | e :: rest, populated => by
    rw [Expr.evaluateAll, Expr.allLog, Expr.allStarts]
    refine (e.recalls callers site populated).bind fun v made' k _ populated' known => ?_
    refine (Expr.allRecalls callers site rest populated').last ?_
    intro list made'' k' later populated'' all
    exact .pure populated'' (List.forall_mem_cons.2 ⟨known.mono later, all⟩)

end

theorem Expr.optionRecalls (callers : CallersRecall call inside begun) {made : List Class}
    {m : Machine} (site : Site) (value : Option Expr) (populated : m.Populated made) :
    Recalls made m (Run.valueOf call value) (Expr.optionLog call inside site value m)
      (Expr.optionStarts call begun value m) Value.Known := by
  cases value with
  | none => exact .pure populated trivial
  | some e => exact e.recalls callers site populated

mutual

theorem Stmt.recalls (callers : CallersRecall call inside begun) (bound : Nat) {made : List Class}
    {m : Machine} (active : Option Closure) : (s : Stmt) → m.Populated made →
      Recalls made m (s.execute call bound) (s.log call inside bound active m)
        (s.starts call begun bound m) fun _ _ _ => True
  | .expression value, populated => by
    rw [Stmt.execute, Stmt.log, Stmt.starts]
    refine .entry rfl populated trivial (fun _ => rfl) ?_
    refine (value.recalls callers _ populated).last fun _ made' k _ populated' _ => ?_
    exact .pure populated' trivial
  | .print value, populated => by
    rw [Stmt.execute, Stmt.log, Stmt.starts]
    refine .entry rfl populated trivial (fun _ => rfl) ?_
    refine (value.recalls callers _ populated).last fun v made' k _ populated' _ => ?_
    exact .printLine populated' v
  | .var name initializer, populated => by
    rw [Stmt.execute, Stmt.log, Stmt.starts]
    refine .entry rfl populated trivial (fun _ => rfl) ?_
    refine (Expr.optionRecalls callers _ initializer populated).last fun v made' k _ populated' known => ?_
    exact .asking (.define populated' _ _ known)
  | .block body, populated => by
    rw [Stmt.execute, Stmt.log, Stmt.starts]
    refine .entry rfl populated trivial (fun _ => rfl) (.asking ?_)
    refine (Recalls.newScope populated m.current).step fun scope made' k _ populated' _ => ?_
    exact .within (Stmt.allRecalls callers bound active (m := { k with current := scope }) body
      { populated' with })
  | .branch condition consequent none, populated => by
    rw [Stmt.execute, Stmt.log, Stmt.starts]
    refine .entry rfl populated trivial (fun _ => rfl) ?_
    refine (condition.recalls callers _ populated).bind fun v made' k _ populated' _ => ?_
    split
    · exact Stmt.recalls callers bound active consequent populated'
    · exact .pure populated' trivial
  | .branch condition consequent (some alternative), populated => by
    rw [Stmt.execute, Stmt.log, Stmt.starts]
    refine .entry rfl populated trivial (fun _ => rfl) ?_
    refine (condition.recalls callers _ populated).bind fun v made' k _ populated' _ => ?_
    split
    · exact Stmt.recalls callers bound active consequent populated'
    · exact Stmt.recalls callers bound active alternative populated'
  | .loop condition body, populated => by
    rw [Stmt.execute, Stmt.log, Stmt.starts]
    refine .entry rfl populated trivial (fun _ => rfl) ?_
    exact .repeating populated (fun made' k populated' => condition.recalls callers _ populated')
      (fun made' k populated' => Stmt.recalls callers bound active body populated') bound
  | .function declaration, populated => by
    rw [Stmt.execute, Stmt.log, Stmt.starts]
    refine .entry rfl populated trivial (fun _ => rfl) (.asking ?_)
    refine (Recalls.newCallable populated _).last fun v made' k _ populated' known => ?_
    exact .define populated' _ _ known
  | .ret keyword value, populated => by
    rw [Stmt.execute, Stmt.log, Stmt.starts]
    refine .entry rfl populated trivial (fun _ => rfl) ?_
    refine (Expr.optionRecalls callers _ value populated).last fun v made' k _ populated' known => ?_
    exact .throw populated' known
  | .classDecl name methods, populated => by
    rw [Stmt.execute, Stmt.log, Stmt.starts]
    refine .entry rfl populated trivial (fun _ => rfl) (.asking ?_)
    refine (Recalls.newCallable populated _).last fun v made' k _ populated' known => ?_
    exact .define populated' _ _ known

theorem Stmt.allRecalls (callers : CallersRecall call inside begun) (bound : Nat) {made : List Class}
    {m : Machine} (active : Option Closure) : (list : List Stmt) → m.Populated made →
      Recalls made m (Stmt.executeAll call bound list) (Stmt.allLog call inside bound active list m)
        (Stmt.allStarts call begun bound list m) fun _ _ _ => True
  | [], populated => by
    rw [Stmt.executeAll, Stmt.allLog, Stmt.allStarts]
    exact .pure populated trivial
  | s :: rest, populated => by
    rw [Stmt.executeAll, Stmt.allLog, Stmt.allStarts]
    refine (Stmt.recalls callers bound active s populated).bind fun _ made' k _ populated' _ => ?_
    exact Stmt.allRecalls callers bound active rest populated'

end

end

namespace Recalls

variable {made : List Class} {m : Machine}

theorem admitted (limit : Option Nat) (callee : Value) (arguments : List Value) (line : Nat)
    (populated : m.Populated made) :
    Recalls made m (Run.admitted limit callee arguments line) [] [] fun _ _ _ => True := by
  cases callee with
  | callable identity what =>
    rw [Run.admitted]
    by_cases complete : arguments.length = what.arity
    · rw [if_neg (not_not_intro complete)]
      refine .asking ?_
      by_cases deep : limit.any (· ≤ m.depth) = true
      · simp only [deep, if_true]
        exact .raise populated
      · simp only [deep]
        exact .pure populated trivial
    · rw [if_pos complete]
      exact .raise populated
  | _ => exact .raise populated

/-- The call that begins is told with what is done inside it. -/
theorem admitting {limit : Option Nat} {invoke : Callable → List Value → (line : Nat) → Run Value}
    {inside : Callable → List Value → (line : Nat) → Log}
    {begun : Callable → List Value → (line : Nat) → Starts}
    (recalls : ∀ {made : List Class} {m k : Machine} (what : Callable) {arguments : List Value}
      (line : Nat), m.Populated made → k.Populated made → (∀ v ∈ arguments, v.Known made m) →
      Recalls made m (invoke what arguments line) (inside what arguments line m)
        (⟨what, line, k⟩ :: begun what arguments line m) Value.Known) :
    CallersRecall (Run.admitting limit invoke) (Run.admittingLog limit inside)
      (Run.admittingStarts limit begun) := by
  intro made m callee arguments line populated all
  refine (admitted limit callee arguments line populated).step fun what made' k later populated' _ => ?_
  refine .counted (recalls what line { populated' with } populated' fun v member => ?_)
  exact ((all v member).mono later).mono ⟨List.prefix_rfl, Nat.le_refl _⟩

/-- A call that is no call of a class makes no instance by itself. -/
theorem begin {x : Run α} {log : List Entry} {starts : List Start} {s : Start}
    {Q : List Class → Machine → α → Prop} (other : s.class? = none) (same : s.machine.Populated made)
    (recalls : Recalls made m x log starts Q) : Recalls made m x log (s :: starts) Q := by
  have none : madeBehind made s = made := by simp [madeBehind, other]
  have all : (s :: starts).foldl madeBehind made = starts.foldl madeBehind made := by
    rw [List.foldl_cons, none]
  have more {m' : Machine} (told : Remembers made m log starts m') :
      Remembers made m log (s :: starts) m' :=
    { told with
      populated := all ▸ told.populated
      begins := ⟨same, none.symm ▸ told.begins⟩
      known := all ▸ told.known }
  unfold Recalls
  rcases recalls.cases with ⟨v, m', ran, told, holds⟩ | ⟨stop, m', ran, told, known⟩ <;>
    simp only [ran, all]
  · exact ⟨more told, holds⟩
  · exact ⟨more told, known⟩

theorem answer (populated : m.Populated made) (now : Float) (which : Native)
    (arguments : List Value) (line : Nat) :
    Recalls made m (match which.answer now arguments with
      | .ok value => (Pure.pure value : Run Value)
      | .error text => Run.raise line (.native text)) [] [] Value.Known := by
  cases answered : which.answer now arguments with
  | ok v =>
    obtain ⟨c, rfl⟩ := Native.exists_constant answered
    exact .pure populated (Value.ofConstant_known c)
  | error text => exact .raise populated

theorem native (host : Host) (bound : Nat) (which : Native) (arguments : List Value) (line : Nat)
    (populated : m.Populated made) :
    Recalls made m (Run.invoke host bound (.native which) arguments line) [] [] Value.Known := by
  cases bound <;>
    exact (clock populated host).last fun now _ _ _ populated' _ =>
      answer populated' now which arguments line

theorem enter {f : Closure} {arguments : List Value} {body : Run Unit} {inside : Log}
    {begun : Starts} (populated : m.Populated made) (all : ∀ v ∈ arguments, v.Known made m)
    (recalls : ∀ made' k, k.Populated made' →
      Recalls made' k body (inside k) (begun k) fun _ _ _ => True) :
    Recalls made m (Run.enter f arguments body)
      (Log.following (Run.prepare f arguments) (fun scope m => inside { m with current := scope }) m)
      (Starts.following (Run.prepare f arguments)
        (fun scope m => begun { m with current := scope }) m) Value.Known := by
  have prepared : Recalls made m (Run.prepare f arguments) [] [] fun _ _ _ => True := by
    refine (newScope populated f.scope).last fun scope made' k later populated' _ => ?_
    have bound : Recalls made' k (Run.defineEach scope f.declaration.parameters arguments) [] []
        fun _ _ _ => True :=
      defineEach populated' scope fun v member => (all v member).mono later
    exact bound.last fun _ _ _ _ populated'' _ => .pure populated'' trivial
  rw [Run.enter_eq]
  refine prepared.step fun scope made' k _ populated' _ => ?_
  exact .returning (.within (recalls made' { k with current := scope } { populated' with }))

theorem invoke (host : Host) (bound : Nat) {k : Machine} (what : Callable) {arguments : List Value}
    (line : Nat) (populated : m.Populated made) (same : k.Populated made)
    (all : ∀ v ∈ arguments, v.Known made m) :
    Recalls made m (Run.invoke host bound what arguments line)
      (Run.invokeLog host bound what arguments line m)
      (⟨what, line, k⟩ :: Run.invokeStarts host bound what arguments line m) Value.Known := by
  induction bound generalizing made m k what arguments line with
  | zero =>
    cases what with
    | native which => exact .begin rfl same (.native host 0 which arguments line populated)
    | closure f => exact .begin rfl same (.throw populated trivial)
    | ofClass c => exact .newObject populated c line same
  | succ bound ih =>
    cases what with
    | native which => exact .begin rfl same (.native host (bound + 1) which arguments line populated)
    | closure f =>
      refine .begin rfl same (.enter populated all fun made' k populated' => ?_)
      exact Stmt.allRecalls (.admitting ih) bound (some f) _ populated'
    | ofClass c => exact .newObject populated c line same

theorem call (host : Host) (bound : Nat) :
    CallersRecall (Run.call host bound) (Run.callLog host bound) (Run.callStarts host bound) :=
  .admitting (.invoke host bound)

end Recalls

end Lox
