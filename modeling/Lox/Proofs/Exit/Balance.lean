import Lox.Proofs.Scoping.Lookup
import Lox.Proofs.Unit

/-! However an action ends, it leads back to the scope and to the number of active calls it began
with. What it may stop with is told along with that: an expression and a call never stop with a
`return`, a statement only if it has one outside of the functions it declares. -/
namespace Lox

/-- In the same scope, with as many calls active. -/
structure Machine.Level (m m' : Machine) : Prop where
  current : m'.current = m.current
  depth : m'.depth = m.depth

namespace Machine.Level

variable {m m' k : Machine}

theorem refl (m : Machine) : m.Level m := ⟨rfl, rfl⟩

theorem trans (first : m.Level k) (second : k.Level m') : m.Level m' :=
  ⟨second.current.trans first.current, second.depth.trans first.depth⟩

end Machine.Level

mutual

/-- Whether a `return` stands in the statement outside of the functions declared in it. -/
def Stmt.returns : Stmt → Bool
  | .ret _ _ => true
  | .block body => Stmt.anyReturns body
  | .branch _ consequent none => consequent.returns
  | .branch _ consequent (some alternative) => consequent.returns || alternative.returns
  | .loop _ body => body.returns
  | .expression _ | .print _ | .var _ _ | .function _ | .classDecl _ _ => false

def Stmt.anyReturns : List Stmt → Bool
  | [] => false
  | s :: rest => s.returns || Stmt.anyReturns rest

end

/-- What may be stopped with where a `return` may be reached or not. No error is that of a `return`
at the top level. -/
def Stop.Admitted (returns : Bool) : Stop → Prop
  | .raised d => ∀ line, d ≠ .runtime line .topLevelReturn
  | .returned _ _ => returns = true
  | .meaningless _ | .exhausted => True

theorem Stop.Admitted.mono {stop : Stop} {a b : Bool} (admitted : stop.Admitted a)
    (more : a = true → b = true) : stop.Admitted b := by
  cases stop with
  | returned value line => exact more admitted
  | _ => exact admitted

namespace Run

/-- The machine in which an action ended. -/
def reached {ε σ : Type} : EStateM.Result ε σ α → σ
  | .ok _ m | .error _ m => m

/-- From every machine the action leads back to its level, and it stops only with what is admitted. -/
def Balanced (returns : Bool) (x : Run α) : Prop :=
  ∀ m, match x m with
    | .ok _ m' => m.Level m'
    | .error stop m' => m.Level m' ∧ stop.Admitted returns

namespace Balanced

variable {a b : Bool} {x : Run α} {m : Machine}

theorem level (balanced : Balanced a x) (m : Machine) : m.Level (reached (x m)) := by
  have ended := balanced m
  cases ran : x m with
  | ok v m' =>
    rw [ran] at ended
    exact ended
  | error stop m' =>
    rw [ran] at ended
    exact ended.1

theorem level_of_ok {v : α} {m' : Machine} (balanced : Balanced a x) (ran : x m = .ok v m') :
    m.Level m' := by
  have ended := balanced m
  rw [ran] at ended
  exact ended

theorem admitted {stop : Stop} {m' : Machine} (balanced : Balanced a x)
    (ran : x m = .error stop m') : stop.Admitted a := by
  have ended := balanced m
  rw [ran] at ended
  exact ended.2

theorem mono (balanced : Balanced a x) (more : a = true → b = true) : Balanced b x := by
  intro m
  have ended := balanced m
  cases ran : x m with
  | ok v m' =>
    rw [ran] at ended
    exact ended
  | error stop m' =>
    rw [ran] at ended
    exact ⟨ended.1, ended.2.mono more⟩

/-- An action without a `return` may stand anywhere. -/
theorem plain (balanced : Balanced false x) : Balanced a x := balanced.mono (by simp)

theorem pure (v : α) : Balanced a (pure v) := fun m => .refl m

theorem throw {stop : Stop} (admitted : stop.Admitted a) :
    Balanced a (throw stop : Run α) := fun m => ⟨.refl m, admitted⟩

theorem raise {line : Nat} {e : RuntimeError} (other : e ≠ .topLevelReturn) :
    Balanced a (raise line e : Run α) := by
  apply throw
  intro line' same
  cases same
  exact other rfl

theorem bind {f : α → Run β} (first : Balanced a x) (second : ∀ v, Balanced a (f v)) :
    Balanced a (x >>= f) := by
  intro m
  have begun := first m
  simp only [Bind.bind, EStateM.bind]
  cases ran : x m with
  | error stop k =>
    rw [ran] at begun
    exact begun
  | ok v k =>
    rw [ran] at begun
    have ended := second v k
    cases later : f v k with
    | ok w m' =>
      rw [later] at ended
      simp only [later]
      exact begun.trans ended
    | error stop m' =>
      rw [later] at ended
      simp only [later]
      exact ⟨begun.trans ended.1, ended.2⟩

theorem asking {f : Machine → Run α} (balanced : ∀ m, Balanced a (f m)) :
    Balanced a (get >>= f) := fun m => balanced m m

/-- Whatever scope the action begins in, the one before is current again. -/
theorem within {scope : ScopeId} (balanced : Balanced a x) : Balanced a (within scope x) := by
  intro m
  have ended := balanced { m with current := scope }
  unfold Run.within
  cases ran : x { m with current := scope } with
  | ok v m' =>
    rw [ran] at ended
    exact ⟨rfl, ended.depth⟩
  | error stop m' =>
    rw [ran] at ended
    exact ⟨⟨rfl, ended.1.depth⟩, ended.2⟩

theorem counted (balanced : Balanced a x) : Balanced a (counted x) := by
  intro m
  have ended := balanced { m with depth := m.depth + 1 }
  unfold Run.counted
  cases ran : x { m with depth := m.depth + 1 } with
  | ok v m' =>
    rw [ran] at ended
    exact ⟨ended.current, by simp [ended.depth]⟩
  | error stop m' =>
    rw [ran] at ended
    exact ⟨⟨ended.1.current, by simp [ended.1.depth]⟩, ended.2⟩

/-- Behind a call no `return` is left. -/
theorem returning {x : Run Unit} (balanced : Balanced a x) : Balanced b (returning x) := by
  intro m
  have ended := balanced m
  unfold Run.returning
  cases ran : x m with
  | ok v m' =>
    rw [ran] at ended
    exact ended
  | error stop m' =>
    rw [ran] at ended
    cases stop with
    | returned value line => exact ended.1
    | _ => exact ended

theorem repeating {condition : Run Value} {body : Run Unit} (tested : Balanced a condition)
    (round : Balanced a body) (bound : Nat) : Balanced a (repeating condition body bound) := by
  induction bound with
  | zero => exact throw trivial
  | succ bound ih =>
    rw [Run.repeating]
    apply tested.bind
    intro v
    split
    · exact round.bind fun _ => ih
    · exact pure ()

end Balanced

variable {a : Bool}

theorem readVariable_balanced (i : Occurrence) (name : Token) :
    Balanced a (readVariable i name) := by
  intro m
  rw [readVariable_apply]
  cases (m.scopeOf i name).bind fun scope => (m.scopes.bindings scope).get? name.lexeme with
  | some value => exact .refl m
  | none => exact ⟨.refl m, by simp [Stop.Admitted, Scopes.undefined]⟩

theorem assignVariable_balanced (i : Occurrence) (name : Token) (value : Value) :
    Balanced a (assignVariable i name value) := by
  intro m
  rw [assignVariable_apply]
  cases (m.scopeOf i name).filter fun scope => (m.scopes.bindings scope).binds name.lexeme with
  | some scope => exact ⟨rfl, rfl⟩
  | none => exact ⟨.refl m, by simp [Stop.Admitted, Scopes.undefined]⟩

theorem newScope_balanced (outer : ScopeId) : Balanced a (newScope outer) := fun _ => ⟨rfl, rfl⟩

theorem define_balanced (scope : ScopeId) (name : String) (value : Value) :
    Balanced a (define scope name value) := fun _ => ⟨rfl, rfl⟩

theorem newCallable_balanced (what : Callable) : Balanced a (newCallable what) :=
  fun _ => ⟨rfl, rfl⟩

theorem newObject_balanced (c : Class) : Balanced a (newObject c) := fun _ => ⟨rfl, rfl⟩

theorem field?_balanced (id : ObjectId) (name : String) : Balanced a (field? id name) :=
  fun m => .refl m

theorem setField_balanced (id : ObjectId) (name : String) (value : Value) :
    Balanced a (setField id name value) := fun _ => ⟨rfl, rfl⟩

theorem write_balanced (text : String) : Balanced a (write text) := by
  intro m
  unfold write
  by_cases closed : m.sink.isClosed
  · simp only [closed]
    exact ⟨.refl m, by simp [Stop.Admitted]⟩
  · simp only [closed]
    exact ⟨rfl, rfl⟩

theorem printLine_balanced (value : Value) : Balanced a (printLine value) :=
  (write_balanced _).bind fun _ => write_balanced _

theorem clock_balanced (host : Host) : Balanced a (clock host) := fun _ => ⟨rfl, rfl⟩

theorem bindMethod_balanced (object : Value) (c : Class) (method : FunctionDecl) :
    Balanced a (bindMethod object c method) := by
  apply (newScope_balanced _).bind
  intro scope
  exact (define_balanced _ _ _).bind fun _ => newCallable_balanced _

theorem property_balanced (object : Value) (name : Token) : Balanced a (property object name) := by
  cases object with
  | object id c =>
    apply (field?_balanced id name.lexeme).bind
    intro found
    cases found with
    | some value => exact .pure value
    | none =>
      cases c.method? name.lexeme with
      | some method => exact bindMethod_balanced _ _ method
      | none => exact .raise (by simp)
  | _ => exact .raise (by simp)

theorem applyUnary_balanced (operator : Token) (operand : Value) :
    Balanced a (applyUnary operator operand) := by
  unfold applyUnary
  split
  · cases operand with
    | number x => exact .pure _
    | _ => exact .raise (by simp)
  · exact .pure _
  · exact .throw trivial

theorem numeric_balanced (operator : Token) (left right : Value) (result : Float → Float → Value) :
    Balanced a (numeric operator left right result) := by
  unfold numeric
  split
  · exact .pure _
  · exact .raise (by simp)

theorem add_balanced (operator : Token) (left right : Value) :
    Balanced a (add operator left right) := by
  unfold add
  split
  · exact .pure _
  · exact .pure _
  · exact .raise (by simp)

theorem applyBinary_balanced (operator : Token) (left right : Value) :
    Balanced a (applyBinary operator left right) := by
  unfold applyBinary
  split
  any_goals exact numeric_balanced operator left right _
  · exact .pure _
  · exact .pure _
  · exact add_balanced operator left right
  · exact .throw trivial

theorem defineEach_balanced (scope : ScopeId) (parameters : List Token) (arguments : List Value) :
    Balanced a (defineEach scope parameters arguments) := by
  induction parameters generalizing arguments with
  | nil => exact .pure ()
  | cons parameter rest ih =>
    cases arguments with
    | nil => exact .pure ()
    | cons argument arguments =>
      exact (define_balanced _ _ _).bind fun _ => ih arguments

theorem enter_balanced (f : Closure) (arguments : List Value) {body : Run Unit}
    (balanced : Balanced a body) : Balanced false (enter f arguments body) := by
  apply (newScope_balanced _).bind
  intro scope
  apply (defineEach_balanced scope _ arguments).bind
  intro _
  exact .returning (.within balanced)

theorem admitted_balanced (limit : Option Nat) (callee : Value) (arguments : List Value)
    (line : Nat) : Balanced a (admitted limit callee arguments line) := by
  cases callee with
  | callable identity what =>
    have room : Balanced a (do
        let depth := (← get).depth
        if limit.any (· ≤ depth) then raise line .stackOverflow
        return what) := by
      apply Balanced.asking
      intro m
      by_cases deep : limit.any (· ≤ m.depth) = true
      · simp only [deep, if_true]
        exact (Balanced.raise (by simp)).bind fun _ => .pure what
      · simp only [deep]
        exact .pure what
    rw [admitted]
    by_cases complete : arguments.length = what.arity
    · rw [if_neg (not_not_intro complete)]
      exact room
    · rw [if_pos complete]
      exact (Balanced.raise (by simp)).bind fun _ => room
  | _ => exact .raise (by simp)

end Run

end Lox
