import Lox.Proofs.Grammar.Placement
import Lox.Proofs.Static.Offence

/-! What resolution keeps in mind on its walk is what can be seen at the spot it has come to. -/
namespace Lox

/-- What stands around says whether a function, a class and an initializer are around. -/
structure Surroundings.Seen (here : Surroundings) (outer : Spot) : Prop where
  inFunction : here.inFunction = true ↔ ∃ step ∈ outer, step.node.isFunction = true
  inClass : here.inClass = true ↔ ∃ step ∈ outer, step.node.isClass = true
  pending : ∀ name : Token, here.isPending name = true ↔ Spot.Initializes outer name.lexeme

/-- Where declarations are listed, the innermost scope has the names declared before. The outermost list
is no scope. -/
structure Surroundings.Listed (here : Surroundings) (outer : Spot) (elder : List Node) : Prop where
  place : outer = [] ∧ here.scopes = [] ∨ Spot.isLocal outer = true ∧ here.scopes ≠ []
  holds : Spot.isLocal outer = true → ∀ name : Token,
    here.holds name = true ↔ Declared elder name.lexeme

namespace Spot

variable {outer : Spot} {elder : List Node} {node : Node} {name : String}

theorem initializes_cons_iff (other : ∀ x value, node ≠ .statement (.var x value)) :
    Initializes (⟨node, elder⟩ :: outer) name ↔ Initializes outer name := by
  constructor
  · rintro ⟨inner, x, value, before, scope, same, rest⟩
    cases inner with
    | nil =>
      cases same
      exact absurd rfl (other x value)
    | cons step inner =>
      obtain ⟨-, rfl⟩ := List.cons.inj same
      exact ⟨inner, x, value, before, scope, rfl, rest⟩
  · rintro ⟨inner, x, value, before, scope, rfl, rest⟩
    exact ⟨⟨node, elder⟩ :: inner, x, value, before, scope, rfl, rest⟩

/-- Where no initializer is around there is none around the parts of a node. -/
theorem settled_cons (settled : ∀ name, ¬Initializes outer name)
    (other : ∀ x value, node ≠ .statement (.var x value)) :
    ∀ name, ¬Initializes (⟨node, elder⟩ :: outer) name := fun name =>
  (not_congr (initializes_cons_iff other)).2 (settled name)

theorem initializes_var_iff {x : Token} {value : Option Expr} :
    Initializes (⟨.statement (.var x value), elder⟩ :: outer) name ↔
      (isLocal outer = true ∧ ¬Declared elder x.lexeme ∧ x.lexeme = name) ∨
        Initializes outer name := by
  constructor
  · rintro ⟨inner, y, other, before, scope, same, rest⟩
    cases inner with
    | nil =>
      cases same
      exact .inl rest
    | cons step inner =>
      obtain ⟨-, rfl⟩ := List.cons.inj same
      exact .inr ⟨inner, y, other, before, scope, rfl, rest⟩
  · rintro (rest | ⟨inner, y, other, before, scope, rfl, rest⟩)
    · exact ⟨[], x, value, elder, outer, rfl, rest⟩
    · exact ⟨⟨.statement (.var x value), elder⟩ :: inner, y, other, before, scope, rfl, rest⟩

end Spot

theorem Declared.append_iff {first second : List Node} {name : String} :
    Declared (first ++ second) name ↔ Declared first name ∨ Declared second name := by
  constructor
  · rintro ⟨node, member, declares⟩
    rcases List.mem_append.1 member with left | right
    · exact .inl ⟨node, left, declares⟩
    · exact .inr ⟨node, right, declares⟩
  · rintro (⟨node, left, declares⟩ | ⟨node, right, declares⟩)
    · exact ⟨node, List.mem_append_left _ left, declares⟩
    · exact ⟨node, List.mem_append_right _ right, declares⟩

theorem declared_single_iff {node : Node} {name : String} :
    Declared [node] name ↔ ∃ other, node.declares? = some other ∧ other.lexeme = name := by
  simp [Declared]

namespace Surroundings

variable {here : Surroundings} {outer : Spot} {elder : List Node} {name other : Token}
  {readiness : Readiness}

theorem holds_hold (inside : here.scopes ≠ []) :
    (here.hold name readiness).holds other = true ↔
      name.lexeme = other.lexeme ∨ here.holds other = true := by
  cases scopes : here.scopes with
  | nil => exact absurd scopes inside
  | cons innermost rest =>
    simp only [hold, holds, scopes, List.head?_cons, Option.any_some, Bindings.binds_put,
      Bool.or_eq_true, decide_eq_true_eq]
    rw [eq_comm]

theorem isPending_hold (inside : here.scopes ≠ []) :
    (here.hold name readiness).isPending other = true ↔
      if name.lexeme = other.lexeme then readiness = .pending else here.isPending other = true := by
  cases scopes : here.scopes with
  | nil => exact absurd scopes inside
  | cons innermost rest =>
    by_cases same : name.lexeme = other.lexeme
    · simp [hold, isPending, scopes, same]
    · simp [hold, isPending, scopes, same, Ne.symm same]

theorem hold_of_nil (outside : here.scopes = []) : here.hold name readiness = here := by
  rw [hold]
  split
  next => rfl
  next inside => rw [outside] at inside; cases inside

theorem scopes_hold_ne (inside : here.scopes ≠ []) : (here.hold name readiness).scopes ≠ [] := by
  cases scopes : here.scopes with
  | nil => exact absurd scopes inside
  | cons innermost rest => simp [hold, scopes]

/-- At the top level nothing is held. -/
theorem not_holds_of_nil (outside : here.scopes = []) : here.holds name = false := by
  rw [holds, outside]
  rfl

namespace Seen

/-- A node that is none of those that matter changes nothing for its parts. -/
theorem part {node : Node} (seen : here.Seen outer) (function : node.isFunction = false)
    (class' : node.isClass = false) (other : ∀ x value, node ≠ .statement (.var x value)) :
    here.Seen (⟨node, elder⟩ :: outer) := by
  constructor
  · simp [seen.inFunction, function]
  · simp [seen.inClass, class']
  · intro name
    rw [seen.pending, Spot.initializes_cons_iff other]

/-- In its initializer a variable is pending, if it is new in a local scope. -/
theorem declare {x : Token} {value : Option Expr} (seen : here.Seen outer)
    (settled : ∀ name, ¬Spot.Initializes outer name) (listed : here.Listed outer elder) :
    (here.declare x).Seen (⟨.statement (.var x value), elder⟩ :: outer) := by
  constructor
  · rw [Surroundings.declare]
    split <;> simp [inFunction_hold, seen.inFunction, Node.isFunction]
  · rw [Surroundings.declare]
    split <;> simp [inClass_hold, seen.inClass, Node.isClass]
  · intro name
    rw [Spot.initializes_var_iff, Surroundings.declare]
    have before : here.isPending name = false := by
      simpa using (not_congr (seen.pending name)).2 (settled name.lexeme)
    rcases listed.place with ⟨rfl, outside⟩ | ⟨localList, inside⟩
    · rw [not_holds_of_nil outside, hold_of_nil outside]
      simp [before, settled, Spot.isLocal]
    · by_cases held : here.holds x = true
      · have known := (listed.holds localList x).1 held
        simp [held, before, settled, known]
      · have new := (not_congr (listed.holds localList x)).1 held
        rw [if_neg held, isPending_hold inside]
        simp [before, settled, new, localList]

/-- What is declared is ready for what comes behind it. -/
theorem define {x : Token} (seen : here.Seen outer)
    (settled : ∀ name, ¬Spot.Initializes outer name) : (here.define x).Seen outer := by
  constructor
  · rw [Surroundings.define, inFunction_hold, seen.inFunction]
  · rw [Surroundings.define, inClass_hold, seen.inClass]
  · intro name
    rw [← seen.pending, Surroundings.define]
    have before : here.isPending name = false := by
      simpa using (not_congr (seen.pending name)).2 (settled name.lexeme)
    by_cases inside : here.scopes = []
    · rw [hold_of_nil inside]
    · rw [isPending_hold inside]
      simp [before]

/-- In a new scope nothing is pending. -/
theorem inside {inside : Surroundings} {node : Node} (seen : here.Seen outer)
    (settled : ∀ name, ¬Spot.Initializes outer name)
    (other : ∀ x value, node ≠ .statement (.var x value))
    (function : inside.inFunction = (here.inFunction || node.isFunction))
    (class' : inside.inClass = (here.inClass || node.isClass))
    (ready : ∀ name, inside.isPending name = false) : inside.Seen (⟨node, elder⟩ :: outer) := by
  constructor
  · simp [function, seen.inFunction, or_comm]
  · simp [class', seen.inClass, or_comm]
  · intro name
    rw [ready, Spot.initializes_cons_iff other]
    simp [settled]

theorem defineEach (names : List Token) (seen : here.Seen outer)
    (settled : ∀ name, ¬Spot.Initializes outer name) :
    (names.foldl Surroundings.define here).Seen outer := by
  induction names generalizing here with
  | nil => exact seen
  | cons name rest ih => exact ih (seen.define settled)

/-- A statement where declarations are listed leaves no more behind it than what it declares. -/
theorem after {s : Stmt} (seen : here.Seen outer) (settled : ∀ name, ¬Spot.Initializes outer name)
    (placed : s.Placed) : (here.after s).Seen outer := by
  by_cases declares : s.declares = true
  · cases s with
    | var name value => exact seen.define settled
    | function declaration => exact seen.define settled
    | classDecl name methods => exact seen.define settled
    | _ => cases declares
  · rwa [here.after_of_not_declares s (by simpa using declares) placed]

end Seen

/-- What is declared is held for what comes behind it. -/
theorem Listed.define {node : Node} (listed : here.Listed outer elder)
    (declares : node.declares? = some name) : (here.define name).Listed outer (elder ++ [node]) := by
  constructor
  · rcases listed.place with ⟨top, outside⟩ | ⟨localList, inside⟩
    · exact .inl ⟨top, by rw [Surroundings.define, hold_of_nil outside, outside]⟩
    · exact .inr ⟨localList, scopes_hold_ne inside⟩
  · intro localList other
    rcases listed.place with ⟨rfl, -⟩ | ⟨-, inside⟩
    · cases localList
    · rw [Surroundings.define, holds_hold inside, Declared.append_iff, declared_single_iff,
        listed.holds localList, declares, or_comm]
      simp

/-- What declares nothing is no more held than it was. -/
theorem Listed.skip {node : Node} (listed : here.Listed outer elder) (none : node.declares? = none) :
    here.Listed outer (elder ++ [node]) := by
  constructor
  · exact listed.place
  · intro localList other
    rw [listed.holds localList, Declared.append_iff, declared_single_iff]
    simp [none]

theorem Listed.defineEach (names : List Token) (listed : here.Listed outer elder) :
    (names.foldl Surroundings.define here).Listed outer (elder ++ names.map .parameter) := by
  induction names generalizing here elder with
  | nil => simpa using listed
  | cons name rest ih =>
    have first : (here.define name).Listed outer (elder ++ [.parameter name]) := listed.define rfl
    have later := ih first
    rwa [List.append_assoc] at later

theorem Listed.after {s : Stmt} (listed : here.Listed outer elder) (placed : s.Placed) :
    (here.after s).Listed outer (elder ++ [.statement s]) := by
  by_cases declares : s.declares = true
  · cases s with
    | var name value => exact listed.define rfl
    | function declaration => exact listed.define rfl
    | classDecl name methods => exact listed.define rfl
    | _ => cases declares
  · rw [here.after_of_not_declares s (by simpa using declares) placed]
    cases s with
    | var name value => exact absurd rfl declares
    | function declaration => exact absurd rfl declares
    | classDecl name methods => exact absurd rfl declares
    | _ => exact listed.skip rfl

/-- In a scope of its own nothing is declared yet. -/
theorem Listed.enter {node : Node} (scope : node.isScope = true) (function class' : Bool) :
    Surroundings.Listed ⟨[] :: here.scopes, function, class'⟩ (⟨node, elder⟩ :: outer) [] := by
  constructor
  · exact .inr ⟨scope, by simp⟩
  · intro _ name
    simp [Surroundings.holds, Bindings.binds, Declared]

end Surroundings

end Lox
