import Lox.Proofs.Scoping.Lookup
import Lox.Proofs.Scoping.Trace

/-! What the actions that evaluation is made of stop with. None of them gives up for want of a bound,
none returns, and none overflows: that is left to loops, to `return` statements and to calls. -/
namespace Lox

/-- A stop that no `return`, no limit on calls and no bound is the cause of. -/
def Stop.Plain : Stop → Prop
  | .raised d => ∀ line, d ≠ .runtime line .stackOverflow
  | .meaningless _ => True
  | .returned _ _ | .exhausted => False

namespace Run

/-- From every machine the action comes to its end or has a plain stop. -/
def Plain (x : Run α) : Prop := ∀ ⦃m stop m'⦄, x m = .error stop m' → stop.Plain

namespace Plain

variable {x : Run α}

theorem pure (v : α) : Plain (pure v) := by
  intro m stop m' stopped
  cases stopped

theorem throw {stop : Stop} (plain : stop.Plain) : Plain (throw stop : Run α) := by
  intro m stop' m' stopped
  cases stopped
  exact plain

theorem raise {line : Nat} {e : RuntimeError} (other : e ≠ .stackOverflow) :
    Plain (raise line e : Run α) := by
  apply throw
  intro line' same
  cases same
  exact other rfl

theorem bind {f : α → Run β} (first : Plain x) (second : ∀ v, Plain (f v)) : Plain (x >>= f) := by
  intro m stop m' stopped
  simp only [Bind.bind, EStateM.bind] at stopped
  cases ran : x m with
  | ok v k =>
    rw [ran] at stopped
    exact second v stopped
  | error stop k =>
    rw [ran] at stopped
    cases stopped
    exact first ran

/-- What always comes to its end has no stop at all. -/
theorem of_ok (v : Machine → α) (after : Machine → Machine) (ends : ∀ m, x m = .ok (v m) (after m)) :
    Plain x := by
  intro m stop m' stopped
  rw [ends] at stopped
  cases stopped

end Plain

theorem readVariable_plain (i : Occurrence) (name : Token) : Plain (readVariable i name) := by
  intro m stop m' stopped
  rw [readVariable_apply] at stopped
  cases found : (m.scopeOf i name).bind fun scope => (m.scopes.bindings scope).get? name.lexeme with
  | some value =>
    rw [found] at stopped
    cases stopped
  | none =>
    rw [found] at stopped
    cases stopped
    simp [Stop.Plain, Scopes.undefined]

theorem assignVariable_plain (i : Occurrence) (name : Token) (value : Value) :
    Plain (assignVariable i name value) := by
  intro m stop m' stopped
  rw [assignVariable_apply] at stopped
  cases found : (m.scopeOf i name).filter fun scope => (m.scopes.bindings scope).binds name.lexeme with
  | some scope =>
    rw [found] at stopped
    cases stopped
  | none =>
    rw [found] at stopped
    cases stopped
    simp [Stop.Plain, Scopes.undefined]

theorem newScope_plain (outer : ScopeId) : Plain (newScope outer) := .of_ok _ _ fun _ => rfl

theorem define_plain (scope : ScopeId) (name : String) (value : Value) :
    Plain (define scope name value) := .of_ok _ _ fun _ => rfl

theorem newCallable_plain (what : Callable) : Plain (newCallable what) := .of_ok _ _ fun _ => rfl

theorem newObject_plain (c : Class) : Plain (newObject c) := .of_ok _ _ fun _ => rfl

theorem field?_plain (id : ObjectId) (name : String) : Plain (field? id name) :=
  .of_ok _ _ fun _ => rfl

theorem setField_plain (id : ObjectId) (name : String) (value : Value) :
    Plain (setField id name value) := .of_ok _ _ fun _ => rfl

theorem clock_plain (host : Host) : Plain (clock host) := .of_ok _ _ fun _ => rfl

theorem write_plain (text : String) : Plain (write text) := by
  intro m stop m' stopped
  unfold write at stopped
  split at stopped
  · cases stopped
    simp [Stop.Plain]
  · cases stopped

theorem printLine_plain (value : Value) : Plain (printLine value) :=
  (write_plain _).bind fun _ => write_plain _

theorem bindMethod_plain (object : Value) (c : Class) (method : FunctionDecl) :
    Plain (bindMethod object c method) := by
  apply (newScope_plain _).bind
  intro scope
  exact (define_plain _ _ _).bind fun _ => newCallable_plain _

theorem property_plain (object : Value) (name : Token) : Plain (property object name) := by
  cases object with
  | object id c =>
    apply (field?_plain id name.lexeme).bind
    intro found
    cases found with
    | some value => exact .pure value
    | none =>
      cases c.method? name.lexeme with
      | some method => exact bindMethod_plain _ _ method
      | none => exact .raise (by simp)
  | _ => exact .raise (by simp)

theorem applyUnary_plain (operator : Token) (operand : Value) :
    Plain (applyUnary operator operand) := by
  unfold applyUnary
  split
  · cases operand with
    | number x => exact .pure _
    | _ => exact .raise (by simp)
  · exact .pure _
  · exact .throw trivial

theorem numeric_plain (operator : Token) (left right : Value) (result : Float → Float → Value) :
    Plain (numeric operator left right result) := by
  unfold numeric
  split
  · exact .pure _
  · exact .raise (by simp)

theorem add_plain (operator : Token) (left right : Value) : Plain (add operator left right) := by
  unfold add
  split
  · exact .pure _
  · exact .pure _
  · exact .raise (by simp)

theorem applyBinary_plain (operator : Token) (left right : Value) :
    Plain (applyBinary operator left right) := by
  unfold applyBinary
  split
  any_goals exact numeric_plain operator left right _
  · exact .pure _
  · exact .pure _
  · exact add_plain operator left right
  · exact .throw trivial

theorem defineEach_plain (scope : ScopeId) (parameters : List Token) (arguments : List Value) :
    Plain (defineEach scope parameters arguments) := by
  induction parameters generalizing arguments with
  | nil => exact .pure ()
  | cons parameter rest ih =>
    cases arguments with
    | nil => exact .pure ()
    | cons argument arguments => exact (define_plain _ _ _).bind fun _ => ih arguments

theorem prepare_plain (f : Closure) (arguments : List Value) : Plain (prepare f arguments) := by
  apply (newScope_plain f.scope).bind
  intro scope
  exact (defineEach_plain scope _ arguments).bind fun _ => .pure scope

theorem native_plain (host : Host) (bound : Nat) (which : Native) (arguments : List Value)
    (line : Nat) : Plain (invoke host bound (.native which) arguments line) := by
  rw [invoke]
  apply (clock_plain host).bind
  intro now
  cases which.answer now arguments with
  | ok value => exact .pure value
  | error text => exact .raise (by simp)

end Run

end Lox
