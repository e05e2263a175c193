import Lox.Proofs.Exit.Evaluation
import Lox.Proofs.Scoping.Trace

/-! What a `return` ends. A program without errors has none outside of its functions. One that is
reached in the body of a function ends that body, through all the blocks, branches and loops around
it, and the call takes its value; the points of a run tell which call is the innermost there. -/
namespace Lox

open Run

section

variable {here : Surroundings}

theorem Surroundings.inFunction_after (s : Stmt) : (here.after s).inFunction = here.inFunction := by
  fun_induction Surroundings.after here s with
  | case1 | case2 | case3 => exact inFunction_hold _ _ _
  | case4 here condition consequent ih => exact ih
  | case5 here condition consequent alternative first second => exact second.trans first
  | case6 here condition body ih => exact ih
  | _ => rfl

theorem Surroundings.not_clean_returning {keyword : Token} (outside : here.inFunction = false) :
    (here.returning keyword).filterMap Finding.error? ≠ [] := by
  simp [returning, outside, Finding.refused, Finding.error?]

mutual

/-- Where no function is around, a statement without errors has no `return` of its own. -/
theorem Stmt.not_returns : (s : Stmt) → {here : Surroundings} → here.inFunction = false →
    (s.findings here).filterMap Finding.error? = [] → s.returns = false
  | .ret keyword none, _, outside, clean => by
    rw [Stmt.findings] at clean
    exact absurd clean (Surroundings.not_clean_returning outside)
  | .ret keyword (some value), _, outside, clean => by
    rw [Stmt.findings, List.filterMap_append, List.append_eq_nil_iff] at clean
    exact absurd clean.1 (Surroundings.not_clean_returning outside)
  | .block body, here, outside, clean => by
    rw [Stmt.findings] at clean
    rw [Stmt.returns]
    exact @Stmt.not_anyReturns body (here.enter []) outside clean
  | .branch condition consequent none, _, outside, clean => by
    rw [Stmt.findings, List.filterMap_append, List.append_eq_nil_iff] at clean
    rw [Stmt.returns]
    exact consequent.not_returns outside clean.2
  | .branch condition consequent (some alternative), here, outside, clean => by
    simp only [Stmt.findings, List.filterMap_append, List.append_eq_nil_iff] at clean
    obtain ⟨⟨-, first⟩, second⟩ := clean
    have left := consequent.not_returns outside first
    have right := alternative.not_returns ((here.inFunction_after consequent).trans outside) second
    rw [Stmt.returns, left, right, Bool.or_false]
  | .loop condition body, _, outside, clean => by
    rw [Stmt.findings, List.filterMap_append, List.append_eq_nil_iff] at clean
    rw [Stmt.returns]
    exact body.not_returns outside clean.2
  | .expression _, _, _, _ | .print _, _, _, _ | .var _ _, _, _, _ | .function _, _, _, _
  | .classDecl _ _, _, _, _ => by rw [Stmt.returns]

theorem Stmt.not_anyReturns : (list : List Stmt) → {here : Surroundings} →
    here.inFunction = false → (Stmt.allFindings here list).filterMap Finding.error? = [] →
    Stmt.anyReturns list = false
  | [], _, _, _ => by rw [Stmt.anyReturns]
  | s :: rest, here, outside, clean => by
    rw [Stmt.allFindings, List.filterMap_append, List.append_eq_nil_iff] at clean
    have first := s.not_returns outside clean.1
    have others := Stmt.not_anyReturns rest ((here.inFunction_after s).trans outside) clean.2
    rw [Stmt.anyReturns, first, others, Bool.or_false]

end

end

namespace Points

/-- What is said of each point, and of how many calls were active in the machine before them. -/
structure All (P : Nat → Point → Prop) (m : Machine) (points : List Point) : Prop where
  holds : ∀ p ∈ points, P m.depth p

/-- No call that was active has ended. -/
def Deep (depth : Nat) (p : Point) : Prop := depth ≤ p.machine.depth

/-- In a call that began meanwhile. -/
def Called (depth : Nat) (p : Point) : Prop := depth < p.machine.depth

/-- In a call that began meanwhile, or where an expression begins. -/
def Evaluated (depth : Nat) (p : Point) : Prop :=
  Called depth p ∨ p.machine.depth = depth ∧ ∃ e, p.doing = .evaluate e

variable {P Q : Nat → Point → Prop} {a : Bool} {m : Machine} {first second : List Point}

namespace All

theorem none : All P m [] := ⟨by simp⟩

theorem mono (all : All P m first) (weaker : ∀ depth p, P depth p → Q depth p) : All Q m first :=
  ⟨fun p member => weaker _ p (all.holds p member)⟩

theorem append (left : All P m first) (right : All P m second) : All P m (first ++ second) :=
  ⟨List.forall_mem_append.2 ⟨left.holds, right.holds⟩⟩

theorem visit {doing : Doing} (here : P m.depth ⟨doing, m⟩) (all : All P m first) :
    All P m (⟨doing, m⟩ :: first) := ⟨List.forall_mem_cons.2 ⟨here, all.holds⟩⟩

theorem following {action : Run α} {then' : α → Points} (balanced : Balanced a action)
    (all : ∀ v k, All P k (then' v k)) : All P m (following action then' m) := by
  constructor
  intro p member
  obtain ⟨v, k, ran, later⟩ := mem_following.1 member
  exact (balanced.level_of_ok ran).depth ▸ (all v k).holds p later

theorem rounds {condition : Run Value} {body : Run Unit} {testing doing : Points}
    (tested : Balanced a condition) (round : Balanced a body) (test : ∀ k, All P k (testing k))
    (inner : ∀ k, All P k (doing k)) (bound : Nat) :
    All P m (rounds condition body testing doing bound m) := by
  induction bound generalizing m with
  | zero => exact .none
  | succ bound ih =>
    rw [Points.rounds]
    apply (test m).append
    apply All.following tested
    intro v k
    by_cases again : v.truthy
    · simp only [again, if_true]
      exact (inner k).append (.following round fun _ _ => ih)
    · simp only [again]
      exact .none

end All

end Points

open Points

/-- All points inside calls are in calls that began meanwhile. -/
def CallPoints.AllCalled (inside : CallPoints) : Prop :=
  ∀ callee arguments line m, All Called m (inside callee arguments line m)

section

variable {call : Caller} {inside : CallPoints}

mutual

/-- What holds where an expression begins and inside every call holds of all points of an
expression. -/
theorem Expr.points_all {P : Nat → Point → Prop} (callers : CallersBalanced call)
    (here : ∀ e m, P m.depth ⟨.evaluate e, m⟩)
    (called : ∀ callee arguments line m, All P m (inside callee arguments line m)) :
    (e : Expr) → (m : Machine) → All P m (e.points call inside m)
  | .constant _, _ | .read _ _, _ | .this _ _, _ => by
    rw [Expr.points]
    exact .visit (here _ _) .none
  | .group part, m | .unary _ part, m | .assign _ _ part, m | .get part _, m => by
    rw [Expr.points]
    exact .visit (here _ _) (part.points_all callers here called m)
  | .binary left operator right, m => by
    rw [Expr.points]
    apply All.visit (here _ _)
    apply (left.points_all callers here called m).append
    apply All.following (left.evaluate_balanced callers)
    exact fun _ => right.points_all callers here called
  | .logical left operator right, m => by
    rw [Expr.points]
    apply All.visit (here _ _)
    apply (left.points_all callers here called m).append
    apply All.following (left.evaluate_balanced callers)
    intro v k
    by_cases decided : decides operator v
    · simp only [decided, if_true]
      exact .none
    · simp only [decided]
      exact right.points_all callers here called k
  | .call callee closing arguments, m => by
    rw [Expr.points]
    apply All.visit (here _ _)
    apply (callee.points_all callers here called m).append
    apply All.following (callee.evaluate_balanced callers)
    intro v k
    apply (Expr.allPoints_all callers here called arguments k).append
    apply All.following (Expr.evaluateAll_balanced callers arguments)
    exact fun list => called v list closing.line
  | .set object name value, m => by
    rw [Expr.points]
    apply All.visit (here _ _)
    apply (object.points_all callers here called m).append
    apply All.following (object.evaluate_balanced callers)
    intro v k
    cases v with
    | object id c => exact value.points_all callers here called k
    | _ => exact .none

theorem Expr.allPoints_all {P : Nat → Point → Prop} (callers : CallersBalanced call)
    (here : ∀ e m, P m.depth ⟨.evaluate e, m⟩)
    (called : ∀ callee arguments line m, All P m (inside callee arguments line m)) :
    (list : List Expr) → (m : Machine) → All P m (Expr.allPoints call inside list m)
  | [], _ => by
    rw [Expr.allPoints]
    exact .none
  | e :: rest, m => by
    rw [Expr.allPoints]
    apply (e.points_all callers here called m).append
    apply All.following (e.evaluate_balanced callers)
    exact fun _ => Expr.allPoints_all callers here called rest

end

theorem Expr.optionPoints_all {P : Nat → Point → Prop} (callers : CallersBalanced call)
    (here : ∀ e m, P m.depth ⟨.evaluate e, m⟩)
    (called : ∀ callee arguments line m, All P m (inside callee arguments line m))
    (value : Option Expr) (m : Machine) : All P m (Expr.optionPoints call inside value m) := by
  cases value with
  | none => exact .none
  | some e => exact e.points_all callers here called m

mutual

/-- What holds where a statement or an expression begins and inside every call holds of all points of
a statement. -/
theorem Stmt.points_all {P : Nat → Point → Prop} (callers : CallersBalanced call)
    (here : ∀ doing m, P m.depth ⟨doing, m⟩)
    (called : ∀ callee arguments line m, All P m (inside callee arguments line m)) (bound : Nat) :
    (s : Stmt) → (m : Machine) → All P m (s.points call inside bound m)
  | .expression value, m | .print value, m => by
    rw [Stmt.points]
    exact .visit (here _ _) (value.points_all callers (fun e => here _) called m)
  | .var _ value, m | .ret _ value, m => by
    rw [Stmt.points]
    exact .visit (here _ _) (Expr.optionPoints_all callers (fun e => here _) called value m)
  | .block body, m => by
    rw [Stmt.points]
    apply All.visit (here _ _)
    apply All.following (newScope_balanced (a := false) m.current)
    intro scope k
    exact ⟨(Stmt.allPoints_all callers here called bound body { k with current := scope }).holds⟩
  | .branch condition consequent none, m => by
    rw [Stmt.points]
    apply All.visit (here _ _)
    apply (condition.points_all callers (fun e => here _) called m).append
    apply All.following (condition.evaluate_balanced callers)
    intro v k
    by_cases holds : v.truthy
    · simp only [holds, if_true]
      exact consequent.points_all callers here called bound k
    · simp only [holds]
      exact .none
  | .branch condition consequent (some alternative), m => by
    rw [Stmt.points]
    apply All.visit (here _ _)
    apply (condition.points_all callers (fun e => here _) called m).append
    apply All.following (condition.evaluate_balanced callers)
    intro v k
    by_cases holds : v.truthy
    · simp only [holds, if_true]
      exact consequent.points_all callers here called bound k
    · simp only [holds]
      exact alternative.points_all callers here called bound k
  | .loop condition body, m => by
    rw [Stmt.points]
    apply All.visit (here _ _)
    apply All.rounds (condition.evaluate_balanced callers).plain (body.execute_balanced callers bound)
    · exact condition.points_all callers (fun e => here _) called
    · exact body.points_all callers here called bound
  | .function _, _ | .classDecl _ _, _ => by
    rw [Stmt.points]
    exact .visit (here _ _) .none

theorem Stmt.allPoints_all {P : Nat → Point → Prop} (callers : CallersBalanced call)
    (here : ∀ doing m, P m.depth ⟨doing, m⟩)
    (called : ∀ callee arguments line m, All P m (inside callee arguments line m)) (bound : Nat) :
    (list : List Stmt) → (m : Machine) → All P m (Stmt.allPoints call inside bound list m)
  | [], _ => by
    rw [Stmt.allPoints]
    exact .none
  | s :: rest, m => by
    rw [Stmt.allPoints]
    apply (s.points_all callers here called bound m).append
    apply All.following (s.execute_balanced callers bound)
    exact fun _ => Stmt.allPoints_all callers here called bound rest

end

theorem Expr.points_evaluated (callers : CallersBalanced call) (called : inside.AllCalled) (e : Expr)
    (m : Machine) : All Evaluated m (e.points call inside m) :=
  e.points_all callers (fun _ _ => .inr ⟨rfl, _, rfl⟩)
    (fun callee arguments line m => (called callee arguments line m).mono fun _ _ => .inl) m

theorem Expr.optionPoints_evaluated (callers : CallersBalanced call) (called : inside.AllCalled)
    (value : Option Expr) (m : Machine) :
    All Evaluated m (Expr.optionPoints call inside value m) :=
  Expr.optionPoints_all callers (fun _ _ => .inr ⟨rfl, _, rfl⟩)
    (fun callee arguments line m => (called callee arguments line m).mono fun _ _ => .inl) value m

theorem Stmt.allPoints_deep (callers : CallersBalanced call) (called : inside.AllCalled)
    (bound : Nat) (list : List Stmt) (m : Machine) :
    All Deep m (Stmt.allPoints call inside bound list m) :=
  Stmt.allPoints_all callers (fun _ _ => Nat.le_refl _)
    (fun callee arguments line m => (called callee arguments line m).mono fun _ _ => Nat.le_of_lt)
    bound list m

end

theorem Run.prepare_balanced {a : Bool} (f : Closure) (arguments : List Value) :
    Balanced a (prepare f arguments) := by
  apply (newScope_balanced f.scope).bind
  intro scope
  exact (defineEach_balanced scope _ arguments).bind fun _ => .pure scope

theorem Run.admittingPoints_called {limit : Option Nat}
    {inside : Callable → List Value → (line : Nat) → Points}
    (deep : ∀ what arguments line m, All Deep m (inside what arguments line m)) :
    (admittingPoints limit inside).AllCalled := by
  intro callee arguments line m
  apply All.following (admitted_balanced (a := false) limit callee arguments line)
  intro what k
  exact ⟨(deep what arguments line { k with depth := k.depth + 1 }).holds⟩

theorem Run.invokePoints_deep (host : Host) (bound : Nat) (what : Callable) (arguments : List Value)
    (line : Nat) (m : Machine) : All Deep m (invokePoints host bound what arguments line m) := by
  induction bound generalizing what arguments line m with
  | zero => cases what <;> exact .none
  | succ bound ih =>
    cases what with
    | native which => exact .none
    | ofClass c => exact .none
    | closure f =>
      apply All.following (prepare_balanced (a := false) f arguments)
      intro scope k
      exact ⟨(Stmt.allPoints_deep (call_balanced host bound) (admittingPoints_called ih) bound
        f.declaration.body { k with current := scope }).holds⟩

theorem Run.callPoints_called (host : Host) (bound : Nat) : (callPoints host bound).AllCalled :=
  admittingPoints_called (invokePoints_deep host bound)

/-- An action ends with each `return` among its points, unless that is in a call that began meanwhile.
The machine is the one behind the returned value, in the scope the action began in. -/
structure Run.Ends (call : Caller) (m : Machine) (x : Run α) (points : List Point) : Prop where
  ends : ∀ keyword value k v k', ⟨.execute (.ret keyword value), k⟩ ∈ points → k.depth = m.depth →
    valueOf call value k = .ok v k' →
    x m = .error (.returned v keyword.line) { k' with current := m.current }

namespace Run.Ends

variable {call : Caller} {a : Bool} {m : Machine} {x : Run α} {first second : List Point}

theorem none : Ends call m x [] := ⟨fun _ _ _ _ _ member => nomatch member⟩

theorem append (left : Ends call m x first) (right : Ends call m x second) :
    Ends call m x (first ++ second) := by
  constructor
  intro keyword value k v k' member
  rcases List.mem_append.1 member with early | late
  · exact left.ends keyword value k v k' early
  · exact right.ends keyword value k v k' late

theorem visit {doing : Doing} (other : ∀ keyword value, doing ≠ .execute (.ret keyword value))
    (ends : Ends call m x first) : Ends call m x (⟨doing, m⟩ :: first) := by
  constructor
  intro keyword value k v k' member
  rcases List.mem_cons.1 member with same | later
  · cases same
    exact absurd rfl (other keyword value)
  · exact ends.ends keyword value k v k' later

/-- In an expression a `return` is always in another call. -/
theorem evaluated (all : All Evaluated m first) : Ends call m x first := by
  constructor
  intro keyword value k v k' member level
  rcases all.holds _ member with called | ⟨-, e, same⟩
  · exact absurd called (Nat.not_lt_of_le (Nat.le_of_eq level))
  · cases same

theorem bind {f : α → Run β} (ends : Ends call m x first) : Ends call m (x >>= f) first := by
  constructor
  intro keyword value k v k' member level returned
  simp only [Bind.bind, EStateM.bind, ends.ends keyword value k v k' member level returned]

theorem following {f : α → Run β} {then' : α → Points} (balanced : Balanced a x)
    (ends : ∀ v k, Ends call k (f v) (then' v k)) :
    Ends call m (x >>= f) (Points.following x then' m) := by
  constructor
  intro keyword value k v k' member level returned
  obtain ⟨w, l, ran, later⟩ := mem_following.1 member
  have same := balanced.level_of_ok ran
  have ended := (ends w l).ends keyword value k v k' later (level.trans same.depth.symm) returned
  rw [same.current] at ended
  simp only [Bind.bind, EStateM.bind, ran]
  exact ended

theorem asking {f : Machine → Run α} (ends : Ends call m (f m) first) :
    Ends call m (get >>= f) first := ⟨ends.ends⟩

theorem within {scope : ScopeId} (ends : Ends call { m with current := scope } x first) :
    Ends call m (within scope x) first := by
  constructor
  intro keyword value k v k' member level returned
  rw [Run.within, ends.ends keyword value k v k' member level returned]

theorem repeating {condition : Run Value} {body : Run Unit} {testing doing : Points}
    (tested : Balanced a condition) (round : Balanced a body)
    (test : ∀ k, All Evaluated k (testing k)) (inner : ∀ k, Ends call k body (doing k))
    (bound : Nat) :
    Ends call m (repeating condition body bound) (rounds condition body testing doing bound m) := by
  induction bound generalizing m with
  | zero => exact .none
  | succ bound ih =>
    rw [Run.repeating, Points.rounds]
    apply (evaluated (test m)).append
    apply following tested
    intro v k
    by_cases again : v.truthy
    · simp only [again, if_true]
      exact (inner k).bind.append (.following round fun _ _ => ih)
    · simp only [again]
      exact .none

end Run.Ends

section

variable {call : Caller} {inside : CallPoints}

mutual

/-- A statement ends with each `return` it reaches, whatever blocks, branches and loops it stands
in. -/
theorem Stmt.execute_ends (callers : CallersBalanced call) (called : inside.AllCalled) (bound : Nat) :
    (s : Stmt) → (m : Machine) → Ends call m (s.execute call bound) (s.points call inside bound m)
  | .expression value, m | .print value, m => by
    rw [Stmt.points]
    apply Ends.visit (by simp)
    exact .evaluated (value.points_evaluated callers called m)
  | .var _ value, m => by
    rw [Stmt.points]
    apply Ends.visit (by simp)
    exact .evaluated (Expr.optionPoints_evaluated callers called value m)
  | .block body, m => by
    rw [Stmt.execute, Stmt.points]
    apply Ends.visit (by simp)
    apply Ends.asking
    apply Ends.following (newScope_balanced (a := false) m.current)
    intro scope k
    exact (Stmt.executeAll_ends callers called bound body { k with current := scope }).within
  | .branch condition consequent none, m => by
    rw [Stmt.execute, Stmt.points]
    apply Ends.visit (by simp)
    apply (Ends.evaluated (condition.points_evaluated callers called m)).append
    apply Ends.following (condition.evaluate_balanced callers)
    intro v k
    by_cases holds : v.truthy
    · simp only [holds, if_true]
      exact consequent.execute_ends callers called bound k
    · simp only [holds]
      exact .none
  | .branch condition consequent (some alternative), m => by
    rw [Stmt.execute, Stmt.points]
    apply Ends.visit (by simp)
    apply (Ends.evaluated (condition.points_evaluated callers called m)).append
    apply Ends.following (condition.evaluate_balanced callers)
    intro v k
    by_cases holds : v.truthy
    · simp only [holds, if_true]
      exact consequent.execute_ends callers called bound k
    · simp only [holds]
      exact alternative.execute_ends callers called bound k
  | .loop condition body, m => by
    rw [Stmt.execute, Stmt.points]
    apply Ends.visit (by simp)
    apply Ends.repeating (condition.evaluate_balanced callers).plain
      (body.execute_balanced callers bound)
    · exact condition.points_evaluated callers called
    · exact body.execute_ends callers called bound
  | .ret keyword value, m => by
    rw [Stmt.execute, Stmt.points]
    constructor
    intro keyword' value' k v k' member level returned
    -- Of its points just the first is a `return`, the others are those of its value.
    rcases List.mem_cons.1 member with same | later
    · cases same
      have same := (valueOf_balanced callers value).level_of_ok returned
      simp only [Bind.bind, EStateM.bind, returned, ← same.current]
      rfl
    · rcases (Expr.optionPoints_evaluated callers called value m).holds _ later with inner | ⟨-, e, same⟩
      · exact absurd inner (Nat.not_lt_of_le (Nat.le_of_eq level))
      · cases same
  | .function _, _ | .classDecl _ _, _ => by
    rw [Stmt.points]
    apply Ends.visit (by simp)
    exact .none

theorem Stmt.executeAll_ends (callers : CallersBalanced call) (called : inside.AllCalled)
    (bound : Nat) : (list : List Stmt) → (m : Machine) →
      Ends call m (Stmt.executeAll call bound list) (Stmt.allPoints call inside bound list m)
  | [], _ => by
    rw [Stmt.allPoints]
    exact .none
  | s :: rest, m => by
    rw [Stmt.executeAll, Stmt.allPoints]
    apply (s.execute_ends callers called bound m).bind.append
    apply Ends.following (s.execute_balanced callers bound)
    exact fun _ => Stmt.executeAll_ends callers called bound rest

end

end

/-- A call takes the value of a `return` that is reached in it as its result, and no call around it
ends. -/
theorem Run.call_returned (host : Host) (bound : Nat) {callee : Value} {arguments : List Value}
    {line : Nat} {m k k' : Machine} {keyword : Token} {value : Option Expr} {v : Value}
    (reached : ⟨.execute (.ret keyword value), k⟩ ∈
      callPoints host (bound + 1) callee arguments line m)
    (innermost : k.depth = m.depth + 1) (returned : valueOf (call host bound) value k = .ok v k') :
    call host (bound + 1) callee arguments line m =
      .ok v { k' with current := m.current, depth := m.depth } := by
  obtain ⟨what, l, admits, later⟩ := mem_following.1 reached
  have begun := (admitted_balanced (a := false) _ callee arguments line).level_of_ok admits
  cases what with
  | native which => cases later
  | ofClass c => cases later
  | closure f =>
    obtain ⟨scope, n, prepared, inner⟩ := mem_following.1 later
    have entered := (prepare_balanced (a := false) f arguments).level_of_ok prepared
    have depth : k.depth = n.depth := by
      rw [innermost, entered.depth, ← begun.depth]
    -- The body stops in its own scope and call; leaving both restores what the call began with.
    have ended := (Stmt.executeAll_ends (call_balanced host bound) (callPoints_called host bound)
      bound f.declaration.body { n with current := scope }).ends keyword value k v k' inner depth
        returned
    have level := ((valueOf_balanced (call_balanced host bound) value).level_of_ok returned).depth
    have result : invoke host (bound + 1) (.closure f) arguments line { l with depth := l.depth + 1 } =
        .ok v { k' with current := n.current } := by
      simp only [call] at ended
      simp only [invoke, enter_eq, Bind.bind, EStateM.bind, prepared, Run.returning, Run.within, ended]
    have emptied : k'.depth - 1 = m.depth := by
      rw [level, innermost]
      rfl
    have outside : n.current = m.current := entered.current.trans begun.current
    rw [call, admitting]
    simp only [Bind.bind, EStateM.bind, admits, counted, result]
    rw [outside, emptied]

namespace Session

/-- What a program without errors fails with is never a `return` at the top level. -/
theorem interpret_ne_topLevelReturn (host : Host) (bound : Nat) {program : List Stmt}
    (clean : (Lox.resolve program).filterMap Finding.error? = []) (s : Session) (line : Nat) :
    (interpret host bound program s).1 ≠ .failed (.runtime line .topLevelReturn) := by
  have balanced := Stmt.executeAll_balanced (call_balanced host bound) bound program
  rw [Stmt.not_anyReturns program rfl clean] at balanced
  rw [interpret, act]
  cases ran : Stmt.executeAll (Run.call host bound) bound program s.machine with
  | ok v m => simp
  | error stop m =>
    have admitted := balanced.admitted ran
    cases stop with
    | raised d =>
      simp only [Outcome.ofStop]
      intro same
      cases same
      exact admitted line rfl
    | returned v line => cases admitted
    | _ => simp [Outcome.ofStop]

theorem run_ne_topLevelReturn (host : Host) (bound : Nat) (source : String) (s : Session)
    (line : Nat) : (s.run host bound source).1 ≠ .failed (.runtime line .topLevelReturn) := by
  rw [run]
  simp only [bind, EStateM.bind, Session.compile]
  cases Lox.compile source s.fresh with
  | mk result fresh =>
    cases result with
    | error errors => simp
    | ok program =>
      simp only [Session.resolve]
      by_cases clean : ((Lox.resolve program).filterMap Finding.error?).isEmpty = true
      · rw [if_pos clean]
        exact interpret_ne_topLevelReturn host bound (List.isEmpty_iff.1 clean) _ line
      · rw [if_neg clean]
        simp

end Session

/-- Expressions and calls never stop with a `return`, and a statement only if it has one outside of
the functions it declares; no unit fails with one. A `return` reached in the innermost call ends that
call with its value, and nothing around it. -/
theorem returns_end_calls (host : Host) (bound : Nat) :
    (∀ (e : Expr) m v line m', e.evaluate (call host bound) m ≠ .error (.returned v line) m') ∧
    (∀ callee arguments at' m v line m',
      call host bound callee arguments at' m ≠ .error (.returned v line) m') ∧
    (∀ (s : Stmt) m v line m',
      s.execute (call host bound) bound m = .error (.returned v line) m' → s.returns = true) ∧
    (∀ program, (resolve program).filterMap Finding.error? = [] → ∀ s line,
      (Session.interpret host bound program s).1 ≠ .failed (.runtime line .topLevelReturn)) ∧
    (∀ source s line,
      (Session.run host bound source s).1 ≠ .failed (.runtime line .topLevelReturn)) ∧
    ∀ callee arguments line m keyword value k v k',
      ⟨.execute (.ret keyword value), k⟩ ∈ callPoints host (bound + 1) callee arguments line m →
      k.depth = m.depth + 1 → valueOf (call host bound) value k = .ok v k' →
      call host (bound + 1) callee arguments line m =
        .ok v { k' with current := m.current, depth := m.depth } := by
  have callers := call_balanced host bound
  constructor
  · intro e m v line m' returned
    cases (e.evaluate_balanced callers).admitted returned
  constructor
  · intro callee arguments at' m v line m' returned
    cases (callers callee arguments at').admitted returned
  constructor
  · intro s m v line m' returned
    exact (s.execute_balanced callers bound).admitted returned
  constructor
  · intro program clean
    exact Session.interpret_ne_topLevelReturn host bound clean
  constructor
  · exact Session.run_ne_topLevelReturn host bound
  · intro callee arguments line m keyword value k v k' reached innermost returned
    exact call_returned host bound reached innermost returned

/-- A `return` on the first line. -/
def leave : Stmt :=
  .ret ⟨.keyword .returnWord, Keyword.returnWord.spelling, none, 1⟩ (some (.constant (.string "out")))

/-- A function that returns from a branch in a block in a loop that does not end otherwise. -/
def leaving : FunctionDecl :=
  let yes := Expr.constant (.boolean true)
  ⟨⟨.identifier, "f", none, 1⟩, [], [.loop yes (.block [.branch yes leave none])]⟩

theorem returns_end_calls_leaving :
    leave.returns = true ∧
    (Session.interpret ⟨fun _ => 0, some maxCallDepth⟩ 1 [.function leaving] (.start none)).1 ≠
      .failed (.runtime 1 .topLevelReturn) ∧
    ∃ m, call ⟨fun _ => 0, some maxCallDepth⟩ 2 (.callable 1 (.closure ⟨leaving, globals⟩)) [] 1
      (.initial none) = .ok (.string "out") m ∧ m.current = globals ∧ m.depth = 0 := by
  obtain ⟨-, -, only, clean, -, ends⟩ := returns_end_calls ⟨fun _ => 0, some maxCallDepth⟩ 1
  constructor
  · exact only leave (.initial none) (.string "out") 1 (.initial none) rfl
  constructor
  · exact clean [.function leaving] rfl (.start none) 1
  · have fifth : ∃ k, (callPoints ⟨fun _ => 0, some maxCallDepth⟩ 2
        (.callable 1 (.closure ⟨leaving, globals⟩)) [] 1 (.initial none))[5]? =
          some ⟨.execute leave, k⟩ ∧ k.depth = 1 := ⟨_, rfl, rfl⟩
    obtain ⟨k, reached, depth⟩ := fifth
    have ended := ends _ _ _ _ _ _ k (.string "out") k (List.mem_of_getElem? reached) depth rfl
    exact ⟨_, ended, rfl, rfl⟩

end Lox
