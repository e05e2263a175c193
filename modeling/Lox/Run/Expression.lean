import Lox.Run.Operator

/-! The values of expressions. What a call does is left open here: every function takes the action
that calls a value, so that it recurses on the expression alone. -/
namespace Lox

/-- Calls a value with arguments, the call being reported on a line. -/
abbrev Caller := (callee : Value) → (arguments : List Value) → (line : Nat) → Run Value

namespace Run

/-- A method read from an instance: a function with one scope more, in which `this` is the
instance. -/
def bindMethod (object : Value) (c : Class) (method : FunctionDecl) : Run Value := do
  let scope ← newScope c.scope
  define scope Keyword.thisWord.spelling object
  newCallable (.closure ⟨method, scope⟩)

/-- Fields come before methods. -/
def property (object : Value) (name : Token) : Run Value :=
  match object with
  | .object id c => do
    match ← field? id name.lexeme with
    | some value => return value
    | none =>
      match c.method? name.lexeme with
      | some method => bindMethod object c method
      | none => raise name.line (.undefinedProperty name.lexeme)
  | _ => raise name.line .notInstance

/-- Whether the left operand alone is the value. -/
def decides (operator : Token) (left : Value ε) : Bool :=
  if operator.kind = .keyword .orWord then left.truthy else !left.truthy

end Run

open Run

mutual

def Expr.evaluate (call : Caller) : Expr → Run Value
  | .constant value => pure (.ofConstant value)
  | .group inner => inner.evaluate call
  | .unary operator operand => do applyUnary operator (← operand.evaluate call)
  | .binary left operator right => do
    let first ← left.evaluate call
    let second ← right.evaluate call
    applyBinary operator first second
  | .logical left operator right => do
    let first ← left.evaluate call
    if decides operator first then return first else right.evaluate call
  | .read id name => readVariable id name
  | .assign id name value => do
    let value ← value.evaluate call
    assignVariable id name value
    return value
  | .call callee closing arguments => do
    let callee ← callee.evaluate call
    let arguments ← Expr.evaluateAll call arguments
    call callee arguments closing.line
  | .get object name => do property (← object.evaluate call) name
  | .set object name value => do
    match ← object.evaluate call with
    | .object id _ =>
      let value ← value.evaluate call
      setField id name.lexeme value
      return value
    | _ => raise name.line .notInstanceField
  | .this id keyword => readVariable id keyword

def Expr.evaluateAll (call : Caller) : List Expr → Run (List Value)
  | [] => pure []
  | e :: rest => do
    let first ← e.evaluate call
    return first :: (← Expr.evaluateAll call rest)

end

end Lox
