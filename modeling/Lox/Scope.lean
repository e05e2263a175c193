import Lox.Bindings
import Lox.Token

/-! A store of scopes. Each scope binds names and may be enclosed by an older one, which it can
share with others, so the links form a forest. A name is looked up outward, either from scope to
scope until one binds it or in the scope a given number of steps out. -/
namespace Lox

abbrev ScopeId := Nat

structure Scope (α : Type) where
  bindings : Bindings α
  enclosing : Option ScopeId
  deriving Repr

structure Scopes (α : Type) where
  list : Array (Scope α)
  /-- A link goes to an older scope. -/
  older : ∀ (id : ScopeId) (known : id < list.size) (outer : ScopeId),
    list[id].enclosing = some outer → outer < id

namespace Scopes

variable {α : Type} {s : Scopes α}

def empty : Scopes α := ⟨#[], by simp⟩

/-- One more scope, without names, and its identity. A link to a scope that does not exist is left
out. -/
def add (s : Scopes α) (enclosing : Option ScopeId) : Scopes α × ScopeId :=
  let id : ScopeId := s.list.size
  ({ list := s.list.push ⟨[], enclosing.filter (· < id)⟩
     older := by
      intro inner known outer link
      rw [Array.size_push] at known
      rw [Array.getElem_push] at link
      split at link
      next old => exact s.older inner old outer link
      next new =>
        have linked := of_decide_eq_true (Option.filter_eq_some_iff.1 link).2
        exact Nat.lt_of_lt_of_le linked (Nat.le_of_not_lt new) },
    id)

def bindings (s : Scopes α) (id : ScopeId) : Bindings α := (s.list[id]?.map (·.bindings)).getD []

def enclosing? (s : Scopes α) (id : ScopeId) : Option ScopeId := s.list[id]?.bind (·.enclosing)

theorem enclosing?_lt {id outer : ScopeId} (link : s.enclosing? id = some outer) : outer < id := by
  obtain ⟨scope, found, link⟩ := Option.bind_eq_some_iff.1 link
  obtain ⟨known, rfl⟩ := Array.getElem?_eq_some_iff.1 found
  exact s.older id known outer link

/-- Binds a name in a scope, whether it was bound there or not. -/
def define (s : Scopes α) (id : ScopeId) (name : String) (value : α) : Scopes α where
  list := s.list.modify id fun scope => { scope with bindings := scope.bindings.put name value }
  older := by
    intro other known outer link
    rw [Array.getElem_modify] at link
    rw [Array.size_modify] at known
    split at link <;> exact s.older other known outer link

@[simp] theorem bindings_add {enclosing : Option ScopeId} (id : ScopeId) :
    (s.add enclosing).1.bindings id = s.bindings id := by
  simp only [bindings, add, Array.getElem?_push]
  split
  next new => simp [new]
  next => rfl

theorem enclosing?_add_of_ne {enclosing : Option ScopeId} {id : ScopeId}
    (old : id ≠ s.list.size) : (s.add enclosing).1.enclosing? id = s.enclosing? id := by
  simp [enclosing?, add, Array.getElem?_push, old]

theorem bindings_define_same {id : ScopeId} {name : String} {value : α}
    (known : id < s.list.size) :
    (s.define id name value).bindings id = (s.bindings id).put name value := by
  simp [bindings, define, known, Array.getElem_modify]

theorem bindings_define_of_ne {id other : ScopeId} {name : String} {value : α}
    (different : other ≠ id) : (s.define id name value).bindings other = s.bindings other := by
  simp [bindings, define, Array.getElem?_modify, Ne.symm different]

@[simp] theorem enclosing?_define {id : ScopeId} {name : String} {value : α} (other : ScopeId) :
    (s.define id name value).enclosing? other = s.enclosing? other := by
  simp only [enclosing?, define, Array.getElem?_modify]
  split <;> cases s.list[other]? <;> rfl

/-- The nearest scope, going outward, that binds the name. -/
def holder? (s : Scopes α) (id : ScopeId) (name : String) : Option ScopeId :=
  if (s.bindings id).binds name then some id
  else match _link : s.enclosing? id with
    | none => none
    | some outer => s.holder? outer name
termination_by id
decreasing_by exact enclosing?_lt _link

/-- The scope so many steps out. -/
def ancestor? (s : Scopes α) (id : ScopeId) : (distance : Nat) → Option ScopeId
  | 0 => some id
  | distance + 1 => (s.enclosing? id).bind (s.ancestor? · distance)

def undefined (name : Token) : Diagnostic := .runtime name.line (.undefinedVariable name.lexeme)

/-- What a name stands for in the scope a look-up led to. -/
def valueIn (s : Scopes α) (scope : Option ScopeId) (name : Token) : Except Diagnostic α :=
  match scope.bind fun id => (s.bindings id).get? name.lexeme with
  | some value => .ok value
  | none => .error (undefined name)

/-- Binds a name anew in the scope a look-up leads to, if it is bound there. -/
def replace (look : Scopes α → Option ScopeId) (name : Token) (value : α) :
    EStateM Diagnostic (Scopes α) Unit := fun s =>
  match (look s).filter fun id => (s.bindings id).binds name.lexeme with
  | some id => .ok () (s.define id name.lexeme value)
  | none => .error (undefined name) s

def get (s : Scopes α) (id : ScopeId) (name : Token) : Except Diagnostic α :=
  s.valueIn (s.holder? id name.lexeme) name

def assign (id : ScopeId) (name : Token) (value : α) : EStateM Diagnostic (Scopes α) Unit :=
  replace (·.holder? id name.lexeme) name value

def getAt (s : Scopes α) (id : ScopeId) (distance : Nat) (name : Token) : Except Diagnostic α :=
  s.valueIn (s.ancestor? id distance) name

def assignAt (id : ScopeId) (distance : Nat) (name : Token) (value : α) :
    EStateM Diagnostic (Scopes α) Unit :=
  replace (·.ancestor? id distance) name value

end Scopes

end Lox
