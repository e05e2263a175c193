import Lox.Run

/-! The operators that take the values of all their operands. -/
namespace Lox

namespace Run

variable {ε σ : Type}

def negate (operator : Token) : Value ε → EStateM (Stop ε) σ (Value ε)
  | .number x => pure (.number (-x))
  | _ => raise operator.line .operandNotNumber

def applyUnary (operator : Token) (operand : Value ε) : EStateM (Stop ε) σ (Value ε) :=
  match operator.kind with
  | .minus => negate operator operand
  | .bang => pure (.boolean !operand.truthy)
  | _ => throw (.meaningless operator)

/-- Numbers are added and strings joined, but never one with the other. -/
def add (operator : Token) : Value ε → Value ε → EStateM (Stop ε) σ (Value ε)
  | .number x, .number y => pure (.number (x + y))
  | .string s, .string t => pure (.string (s ++ t))
  | _, _ => raise operator.line .operandsNotAddable

def numeric (operator : Token) (left right : Value ε) (result : Float → Float → Value ε) :
    EStateM (Stop ε) σ (Value ε) :=
  match left, right with
  | .number x, .number y => pure (result x y)
  | _, _ => raise operator.line .operandsNotNumbers

def applyBinary (operator : Token) (left right : Value ε) : EStateM (Stop ε) σ (Value ε) :=
  match operator.kind with
  | .equalEqual => pure (.boolean (left.same right))
  | .bangEqual => pure (.boolean !left.same right)
  | .plus => add operator left right
  | .minus => numeric operator left right fun x y => .number (x - y)
  | .star => numeric operator left right fun x y => .number (x * y)
  | .slash => numeric operator left right fun x y => .number (x / y)
  | .greater => numeric operator left right fun x y => .boolean (x > y)
  | .greaterEqual => numeric operator left right fun x y => .boolean (x ≥ y)
  | .less => numeric operator left right fun x y => .boolean (x < y)
  | .lessEqual => numeric operator left right fun x y => .boolean (x ≤ y)
  | _ => throw (.meaningless operator)

end Run

end Lox
