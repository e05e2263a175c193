import Lox.Proofs.Deeds.Units

/-! What assignments to local variables do. The variable is there, except in its own initializer: it is
found there statically, but comes into being only behind the initializer. -/
namespace Lox

/-- The occurrence and the name that an entry assigns to. -/
def Entry.assigning? (e : Entry) : Option (Occurrence × Token) :=
  match e.deed with
  | .assign id name _ => some (id, name)
  | _ => none

theorem Entry.assigning?_eq_some {e : Entry} {id : Occurrence} {name : Token}
    (assigning : e.assigning? = some (id, name)) : ∃ value, e.deed = .assign id name value := by
  rw [assigning?] at assigning
  split at assigning
  next deed =>
    cases assigning
    exact ⟨_, deed⟩
  next => cases assigning

namespace Session

/-- An assignment with a distance leads to a scope. Where the variable is just being declared in the
function that is executed, it is not bound there and nothing is changed; everywhere else it is bound
there, and just this binding is replaced. -/
theorem log_assigns {host : Host} {bound : Nat} {outputLimit : Option Nat} {units : List String}
    {e : Entry} {id : Occurrence} {name : Token} {value : Value} {distance : Nat}
    (member : e ∈ (start outputLimit).log host bound units) (deed : e.deed = .assign id name value)
    (far : e.machine.distances[id]? = some distance) :
    ∃ i, e.machine.scopes.ancestor? e.machine.current distance = some i ∧
      if e.site.declaring.map (·.lexeme) = some name.lexeme then
        (e.machine.scopes.bindings i).binds name.lexeme = false ∧
          Run.assignVariable id name value e.machine =
            .error (.raised (.runtime name.line (.undefinedVariable name.lexeme))) e.machine
      else
        (e.machine.scopes.bindings i).binds name.lexeme = true ∧
          Run.assignVariable id name value e.machine =
            .ok () { e.machine with scopes := e.machine.scopes.define i name.lexeme value } := by
  obtain ⟨t, spans⟩ := (start_sane outputLimit).log host bound units
  obtain ⟨i, out, bound_iff⟩ := (spans.sane e member).assign id name value distance deed far
  refine ⟨i, out, ?_⟩
  have leads : e.machine.scopeOf id name = some i := by
    rw [Machine.scopeOf, far]
    exact out
  rw [Run.assignVariable_apply, leads]
  split
  next declaring =>
    have free : (e.machine.scopes.bindings i).binds name.lexeme = false := by
      rw [← Bool.not_eq_true, bound_iff]
      exact not_not_intro declaring
    refine ⟨free, ?_⟩
    rw [Option.filter_some, if_neg (by simp [free])]
    rfl
  next other =>
    have there := bound_iff.2 other
    refine ⟨there, ?_⟩
    rw [Option.filter_some, if_pos (by simp [there])]

/-- A block assigns to a variable of its own, and then to one in the initializer of that one. -/
def assignedEarly : List Entry :=
  (start none).log ⟨fun _ => 0, some maxCallDepth⟩ 8 ["{ var b = 1; b = 2; var a = (a = 1); }"]

theorem assignedEarly_assigns :
    ∃ e ∈ assignedEarly, ∃ value, e.deed = .assign 1 ⟨.identifier, "b", none, 1⟩ value ∧
      e.machine.distances[1]? = some 0 ∧
      ∃ i, Run.assignVariable 1 ⟨.identifier, "b", none, 1⟩ value e.machine =
        .ok () { e.machine with scopes := e.machine.scopes.define i "b" value } := by
  have fourth : assignedEarly[4]?.map (fun e =>
      (e.assigning?, e.machine.distances[1]?, e.site.declaring.map (·.lexeme))) =
      some (some (1, ⟨.identifier, "b", none, 1⟩), some 0, none) := by
    decide +kernel
  obtain ⟨e, atFour, facts⟩ := Option.map_eq_some_iff.1 fourth
  obtain ⟨assigning, facts⟩ := Prod.mk.inj facts
  obtain ⟨far, quiet⟩ := Prod.mk.inj facts
  obtain ⟨value, deed⟩ := Entry.assigning?_eq_some assigning
  have member := List.mem_of_getElem? atFour
  obtain ⟨i, -, assigned⟩ := log_assigns member deed far
  rw [quiet, if_neg (by simp)] at assigned
  exact ⟨e, member, value, deed, far, i, assigned.2⟩

/-- The resolver finds the variable in the scope of the block, where it does not exist yet. -/
theorem assignedEarly_raises :
    ∃ e ∈ assignedEarly, ∃ value, e.deed = .assign 3 ⟨.identifier, "a", none, 1⟩ value ∧
      e.machine.distances[3]? = some 0 ∧
      Run.assignVariable 3 ⟨.identifier, "a", none, 1⟩ value e.machine =
        .error (.raised (.runtime 1 (.undefinedVariable "a"))) e.machine := by
  have sixth : assignedEarly[6]?.map (fun e => (e.assigning?, e.machine.distances[3]?,
      (e.machine.scopeOf 3 ⟨.identifier, "a", none, 1⟩).filter fun i =>
        (e.machine.scopes.bindings i).binds "a")) =
      some (some (3, ⟨.identifier, "a", none, 1⟩), some 0, none) := by
    decide +kernel
  obtain ⟨e, atSix, facts⟩ := Option.map_eq_some_iff.1 sixth
  obtain ⟨assigning, facts⟩ := Prod.mk.inj facts
  obtain ⟨far, nowhere⟩ := Prod.mk.inj facts
  obtain ⟨value, deed⟩ := Entry.assigning?_eq_some assigning
  refine ⟨e, List.mem_of_getElem? atSix, value, deed, far, ?_⟩
  rw [Run.assignVariable_apply, nowhere]
  rfl

end Session

end Lox
