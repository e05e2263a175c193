import Lox.Run

/-! Reading and assigning both go to the scope an occurrence leads to, and to no other. -/
namespace Lox

/-- The globals are in no other scope. -/
theorem Scopes.holder?_globals (s : Scopes α) (name : String) :
    s.holder? globals name = if (s.bindings globals).binds name then some globals else none := by
  rw [Scopes.holder?]
  split
  next => rfl
  next =>
    split
    next => rfl
    next o linked => exact absurd (Scopes.enclosing?_lt linked) (Nat.not_lt_zero _)

/-- What asks for the state goes on with the state it finds. -/
theorem Run.get_bind {ε σ α : Type} (f : σ → EStateM ε σ α) (s : σ) : (get >>= f) s = f s s := rfl

/-- The scope an occurrence leads to. -/
def Machine.scopeOf (m : Machine) (i : Occurrence) (name : Token) : Option ScopeId :=
  match m.distances[i]? with
  | some distance => m.scopes.ancestor? m.current distance
  | none => m.scopes.holder? globals name.lexeme

theorem Run.readVariable_apply (m : Machine) (i : Occurrence) (name : Token) :
    Run.readVariable i name m =
      match (m.scopeOf i name).bind fun scope => (m.scopes.bindings scope).get? name.lexeme with
      | some value => .ok value m
      | none => .error (.raised (Scopes.undefined name)) m := by
  have found (scope : Option ScopeId) :
      (Run.attempt (m.scopes.valueIn scope name) : Run Value) m =
        match scope.bind fun scope => (m.scopes.bindings scope).get? name.lexeme with
        | some value => .ok value m
        | none => .error (.raised (Scopes.undefined name)) m := by
    rw [Scopes.valueIn]
    cases scope.bind fun scope => (m.scopes.bindings scope).get? name.lexeme <;> rfl
  rw [Machine.scopeOf]
  rw [Run.readVariable, Run.get_bind]
  cases m.distances[i]? <;> exact found _

theorem Run.assignVariable_apply (m : Machine) (i : Occurrence) (name : Token) (value : Value) :
    Run.assignVariable i name value m =
      match (m.scopeOf i name).filter fun scope => (m.scopes.bindings scope).binds name.lexeme with
      | some scope => .ok () { m with scopes := m.scopes.define scope name.lexeme value }
      | none => .error (.raised (Scopes.undefined name)) m := by
  have put (look : Scopes Value → Option ScopeId) :
      Run.onScopes (Scopes.replace look name value) m =
        match (look m.scopes).filter fun scope => (m.scopes.bindings scope).binds name.lexeme with
        | some scope => .ok () { m with scopes := m.scopes.define scope name.lexeme value }
        | none => .error (.raised (Scopes.undefined name)) m := by
    rw [Run.onScopes, Scopes.replace]
    cases (look m.scopes).filter fun scope => (m.scopes.bindings scope).binds name.lexeme <;> rfl
  rw [Machine.scopeOf]
  rw [Run.assignVariable, Run.get_bind, Run.get_bind]
  cases m.distances[i]? <;> exact put _

end Lox
