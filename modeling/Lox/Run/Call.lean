import Lox.Run.Statement

/-! Calls, which close the circle: a call executes the body of a function, in which calls nest one
level deeper. -/
namespace Lox.Run

def defineEach (scope : ScopeId) : List Token → List Value → Run Unit
  | parameter :: parameters, argument :: arguments => do
    define scope parameter.lexeme argument
    defineEach scope parameters arguments
  | _, _ => pure ()

/-- Gives a function a scope for its parameters and body, inside the scope it was declared in. -/
def enter (f : Closure) (arguments : List Value) (body : Run Unit) : Run Value := do
  let scope ← newScope f.scope
  defineEach scope f.declaration.parameters arguments
  returning (within scope body)

/-- A call is refused for what is called, then for the number of its arguments, then for the number
of calls that are active. -/
def admitted (limit : Option Nat) (callee : Value) (arguments : List Value) (line : Nat) :
    Run Callable := do
  match callee with
  | .callable _ what =>
    if arguments.length ≠ what.arity then
      raise line (.arityMismatch what.arity arguments.length)
    let depth := (← get).depth
    if limit.any (· ≤ depth) then raise line .stackOverflow
    return what
  | _ => raise line .notCallable

/-- A call as programs make it, when `invoke` is what callables do. -/
def admitting (limit : Option Nat) (invoke : Callable → List Value → (line : Nat) → Run Value) :
    Caller := fun callee arguments line => do
  let what ← admitted limit callee arguments line
  counted (invoke what arguments line)

/-- What a callable does with arguments whose number is not in question any more. Inside it calls
nest at most `bound` deep. -/
def invoke (host : Host) : (bound : Nat) → Callable → List Value → (line : Nat) → Run Value
  | _, .native which, arguments, line => do
    let now ← clock host
    match which.answer now arguments with
    | .ok value => return value
    | .error text => raise line (.native text)
  | _, .ofClass c, _, _ => newObject c
  | 0, .closure _, _, _ => throw .exhausted
  | bound + 1, .closure f, arguments, _ =>
    enter f arguments
      (Stmt.executeAll (admitting host.callLimit (invoke host bound)) bound f.declaration.body)

def call (host : Host) (bound : Nat) : Caller := admitting host.callLimit (invoke host bound)

end Lox.Run
