import Lox.Proofs.Fields.Recalling
import Lox.Proofs.Grammar.Shape
import Lox.Proofs.Scoping.Chain

/-! The actions that evaluation is made of. One of them writes into a field, and one makes an instance; all
others leave instances and their fields alone. -/
namespace Lox

variable {made : List Class} {m : Machine} {i : ScopeId} {name : Token} {v : Value}

/-- A scope holds one value more. -/
theorem Machine.Populated.define {x : String} (populated : m.Populated made) (i : ScopeId)
    (known : v.Known made m) : ∀ j name w,
      (({ m with scopes := m.scopes.define i x v } : Machine).scopes.bindings j).get? name = some w →
        w.Known made { m with scopes := m.scopes.define i x v } := by
  intro j name w held
  have same {u : Value} (known : u.Known made m) :
      u.Known made { m with scopes := m.scopes.define i x v } :=
    known.mono ⟨List.prefix_rfl, Nat.le_refl _⟩
  simp only [Scopes.bindings_define] at held
  split at held
  next here =>
    obtain ⟨rfl, -⟩ := here
    by_cases equal : name = x
    · rw [equal, Bindings.get?_put_same] at held
      cases held
      exact same known
    · rw [Bindings.get?_put_other _ equal] at held
      exact same (populated.values j name w held)
  next => exact same (populated.values j name w held)

namespace Machine

/-- The contents of the fields behind a store. -/
theorem contents_setField (m : Machine) {id : ObjectId} (x : String) (there : id < m.objects.size) :
    ({ m with objects := m.objects.modify id (·.put x v) } : Machine).contents =
      m.contents.put id x v := by
  funext other y
  simp only [contents, Contents.put, Array.getElem?_modify]
  by_cases same : other = id
  · subst same
    simp only [if_true, Array.getElem?_eq_getElem there, Option.map_some, Option.getD_some, true_and]
    by_cases equal : y = x
    · rw [equal, Bindings.get?_put_same, if_pos rfl]
    · rw [Bindings.get?_put_other _ equal, if_neg equal]
  · rw [if_neg (Ne.symm same), if_neg (fun both => same both.1)]

/-- An instance begins without fields. -/
theorem contents_newObject (m : Machine) :
    ({ m with objects := m.objects.push [] } : Machine).contents = m.contents := by
  funext id x
  simp only [contents, Array.getElem?_push]
  split
  next new => simp [new]
  next => rfl

end Machine

namespace Recalls

variable {Q : List Class → Machine → α → Prop}

theorem applyUnary (populated : m.Populated made) (operator : Token) (operand : Value) :
    Recalls made m (Run.applyUnary operator operand) [] [] Value.Known := by
  unfold Run.applyUnary
  split
  · cases operand with
    | number x => exact .pure populated trivial
    | _ => exact .raise populated
  · exact .pure populated trivial
  · exact .throw populated trivial

theorem numeric (populated : m.Populated made) (operator : Token) (left right : Value)
    {result : Float → Float → Value} (plain : ∀ x y, (result x y).Known made m) :
    Recalls made m (Run.numeric operator left right result) [] [] Value.Known := by
  unfold Run.numeric
  split
  · exact .pure populated (plain _ _)
  · exact .raise populated

theorem applyBinary (populated : m.Populated made) (operator : Token) (left right : Value) :
    Recalls made m (Run.applyBinary operator left right) [] [] Value.Known := by
  unfold Run.applyBinary
  split
  any_goals exact numeric populated operator left right fun _ _ => trivial
  · exact .pure populated trivial
  · exact .pure populated trivial
  · unfold Run.add
    split
    · exact .pure populated trivial
    · exact .pure populated trivial
    · exact .raise populated
  · exact .throw populated trivial

theorem readVariable (populated : m.Populated made) (id : Occurrence) :
    Recalls made m (Run.readVariable id name) [] [] Value.Known := by
  unfold Recalls
  rw [Run.readVariable_apply]
  cases bound : (m.scopeOf id name).bind fun i => (m.scopes.bindings i).get? name.lexeme with
  | none => exact ⟨.refl populated, trivial⟩
  | some v =>
    obtain ⟨i, -, held⟩ := Option.bind_eq_some_iff.1 bound
    exact ⟨.refl populated, populated.values i _ v held⟩

theorem define (populated : m.Populated made) (i : ScopeId) (x : String) (known : v.Known made m) :
    Recalls made m (Run.define i x v) [] [] fun _ _ _ => True :=
  ⟨.of_scopes populated rfl (Nat.le_refl _) rfl (populated.define i known), trivial⟩

theorem assignVariable (populated : m.Populated made) (id : Occurrence) (known : v.Known made m) :
    Recalls made m (Run.assignVariable id name v) [] [] fun _ _ _ => True := by
  unfold Recalls
  rw [Run.assignVariable_apply]
  split
  next same =>
    split at same
    next i _ =>
      cases same
      exact ⟨.of_scopes populated rfl (Nat.le_refl _) rfl (populated.define i known), trivial⟩
    next => cases same
  next same =>
    split at same <;> cases same
    exact ⟨.refl populated, trivial⟩

theorem newScope (populated : m.Populated made) (i : ScopeId) :
    Recalls made m (Run.newScope i) [] [] fun _ _ _ => True := by
  refine ⟨.of_scopes populated rfl (Nat.le_refl _) rfl fun j x w held => ?_, trivial⟩
  have same : (m.scopes.add (some i)).1.bindings j = m.scopes.bindings j := Scopes.bindings_add j
  exact (populated.values j x w (same ▸ held)).mono ⟨List.prefix_rfl, Nat.le_refl _⟩

/-- The identity of what is new was not given away. -/
theorem newCallable (populated : m.Populated made) (what : Callable) :
    Recalls made m (Run.newCallable what) [] [] Value.Known := by
  refine ⟨.of_scopes populated rfl (Nat.le_succ _) rfl fun j x w held => ?_, Nat.lt_succ_self _⟩
  exact (populated.values j x w held).mono ⟨List.prefix_rfl, Nat.le_succ _⟩

theorem field? (populated : m.Populated made) (id : ObjectId) (x : String) :
    Recalls made m (Run.field? id x) [] [] fun made m r => ∀ v ∈ r, v.Known made m :=
  ⟨.refl populated, fun v held => populated.fields id x v held⟩

theorem write (populated : m.Populated made) (text : String) :
    Recalls made m (Run.write text) [] [] fun _ _ _ => True := by
  unfold Recalls Run.write
  by_cases closed : m.sink.isClosed
  · simp only [closed, if_true]
    exact ⟨.refl populated, trivial⟩
  · simp only [closed]
    exact ⟨.of_scopes populated rfl (Nat.le_refl _) rfl fun j x w held =>
      (populated.values j x w held).mono ⟨List.prefix_rfl, Nat.le_refl _⟩, trivial⟩

theorem printLine (populated : m.Populated made) (v : Value) :
    Recalls made m (Run.printLine v) [] [] fun _ _ _ => True :=
  (write populated v.text).last fun _ _ _ _ populated' _ => write populated' "\n"

theorem clock (populated : m.Populated made) (host : Host) :
    Recalls made m (Run.clock host) [] [] fun _ _ _ => True :=
  ⟨.of_scopes populated rfl (Nat.le_refl _) rfl fun j x w held =>
    (populated.values j x w held).mono ⟨List.prefix_rfl, Nat.le_refl _⟩, trivial⟩

theorem bindMethod (populated : m.Populated made) (c : Class) (method : FunctionDecl)
    (known : v.Known made m) :
    Recalls made m (Run.bindMethod v c method) [] [] Value.Known := by
  refine (newScope populated c.scope).last fun scope made' k later populated' _ => ?_
  refine (define populated' scope _ (known.mono later)).last fun _ made'' l _ populated'' _ => ?_
  exact newCallable populated'' _

/-- Reading a property is an entry of its own. -/
theorem property (populated : m.Populated made) (site : Site) (known : v.Known made m) :
    Recalls made m (Run.property v name) [⟨site, .property v name, m⟩] [] Value.Known := by
  refine .entry rfl populated known (fun _ => rfl) ?_
  cases v with
  | object id c =>
    refine (field? populated id name.lexeme).last fun r made' k later populated' held => ?_
    cases r with
    | some v => exact .pure populated' (held v rfl)
    | none =>
      simp only
      cases c.method? name.lexeme with
      | none => exact .raise populated'
      | some method => exact bindMethod populated' c method (known.mono later)
  | _ => exact .raise populated

theorem defineEach {arguments : List Value} {parameters : List Token} (populated : m.Populated made)
    (i : ScopeId) (all : ∀ v ∈ arguments, v.Known made m) :
    Recalls made m (Run.defineEach i parameters arguments) [] [] fun _ _ _ => True := by
  induction parameters generalizing made m arguments with
  | nil =>
    rw [Run.defineEach]
    · exact .pure populated trivial
    · intro _ _ _ _ same
      cases same
  | cons parameter rest ih =>
    cases arguments with
    | nil =>
      rw [Run.defineEach]
      · exact .pure populated trivial
      · intro _ _ _ _ _ same
        cases same
    | cons argument arguments =>
      rw [Run.defineEach]
      have first := define populated i parameter.lexeme (all argument (List.mem_cons_self ..))
      refine first.last fun _ made' k later populated' _ => ih populated' fun v member => ?_
      exact (all v (List.mem_cons_of_mem _ member)).mono later

/-- A store is an entry of its own, and it is the only action that changes what a field holds. -/
theorem setField {id : ObjectId} {c : Class} (populated : m.Populated made) (site : Site)
    (instance' : made[id]? = some c) (known : v.Known made m) :
    Recalls made m (Run.setField id name.lexeme v) [⟨site, .store id name v, m⟩] []
      fun _ _ _ => True := by
  have contents := m.contents_setField (v := v) name.lexeme (populated.lt_size instance')
  refine ⟨⟨⟨⟨?_, fun j x w held => ?_, fun other y w held => ?_⟩, Nat.le_refl _, contents,
    ⟨rfl, trivial⟩, trivial, fun e member => ?_⟩, rfl⟩, trivial⟩
  · exact (Array.size_modify ..).trans populated.size
  · exact (populated.values j x w held).mono ⟨List.prefix_rfl, Nat.le_refl _⟩
  · rw [contents, Contents.put] at held
    split at held
    · cases held
      exact known.mono ⟨List.prefix_rfl, Nat.le_refl _⟩
    · exact (populated.fields other y w held).mono ⟨List.prefix_rfl, Nat.le_refl _⟩
  · obtain rfl := List.mem_singleton.1 member
    exact ⟨made, List.prefix_rfl, populated, ⟨c, instance'⟩, known⟩

/-- A call of a class makes an instance of it. -/
theorem newObject (populated : m.Populated made) (c : Class) {begun : Machine} (line : Nat)
    (same : begun.Populated made) :
    Recalls made m (Run.newObject c) [] [⟨.ofClass c, line, begun⟩] Value.Known := by
  have later : Later made m (made ++ [c]) { m with objects := m.objects.push [] } :=
    ⟨List.prefix_append _ _, Nat.le_refl _⟩
  have contents := m.contents_newObject
  refine ⟨⟨⟨⟨?_, fun j x w held => (populated.values j x w held).mono later,
    fun id x w held => ?_⟩, Nat.le_refl _, contents, trivial, ⟨same, trivial⟩, by simp⟩, rfl⟩, ?_⟩
  · simp [madeBehind, Start.class?, populated.size]
  · rw [contents] at held
    exact (populated.fields id x w held).mono later
  · simp [Value.Known, madeBehind, Start.class?, populated.size]

end Recalls

end Lox
