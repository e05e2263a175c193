import Lox.Grammar.Cursor

/-! Expressions. Each rule is a function of the rule for the expressions inside it, and the knot is
tied last, by a bound on how deep expressions stand in each other. A rule within another starts
behind a token that the outer one consumed, so the number of tokens left is bound enough; the
repetitions inside one rule use the same bound. -/
namespace Lox.Grammar

/-- A level of binary operators that group to the left. -/
structure Level where
  operators : List TokenKind
  node : Expr → Token → Expr → Expr
  /-- Operators of this level that are reported for want of a left operand where they come first.
  A leading minus is a sign and none of them. -/
  leading : List TokenKind

/-- From the operators that bind least. -/
def levels : List Level :=
  let equality := [.bangEqual, .equalEqual]
  let comparison := [.greater, .greaterEqual, .less, .lessEqual]
  let factor := [.slash, .star]
  [⟨[.keyword .orWord], .logical, []⟩,
    ⟨[.keyword .andWord], .logical, []⟩,
    ⟨equality, .binary, equality⟩,
    ⟨comparison, .binary, comparison⟩,
    ⟨[.minus, .plus], .binary, [.plus]⟩,
    ⟨factor, .binary, factor⟩]

namespace Level

/-- The operators and right operands that follow `left`. -/
def chain (level : Level) (operand : Rule Expr) (bound : Nat) (left : Expr) : Rule Expr := do
  match ← accept? level.operators with
  | none => return left
  | some operator =>
    match bound with
    | 0 => throw .exhausted
    | bound + 1 => level.chain operand bound (level.node left operator (← operand))

/-- An operator without a left operand is reported once its right operand is read. -/
def refuseLeading (level : Level) (operand : Rule Expr) : Rule Unit := do
  match ← accept? level.leading with
  | none => return
  | some operator =>
    let _ ← operand
    fail operator (.missingLeftOperand operator.lexeme)

def rule (bound : Nat) (level : Level) (operand : Rule Expr) : Rule Expr := do
  level.refuseLeading operand
  level.chain operand bound (← operand)

end Level

/-- The value of a literal token; one without a value is `nil`. -/
def literalValue (t : Token) : Constant :=
  match t.literal with
  | some (.number x) => .number x
  | some (.string s) => .string s
  | none => .nil

/-- The kinds an expression without operators begins with. -/
def primaryKinds : List TokenKind :=
  [.keyword .falseWord, .keyword .trueWord, .keyword .nilWord, .number, .string, .keyword .thisWord,
    .identifier, .leftParen]

def primary (expression : Rule Expr) : Rule Expr := do
  match ← accept? primaryKinds with
  | none => fail (← get).peek (.expected .expression)
  | some t =>
    match t.kind with
    | .keyword .falseWord => return .constant (.boolean false)
    | .keyword .trueWord => return .constant (.boolean true)
    | .keyword .nilWord => return .constant .nil
    | .keyword .thisWord => return .this (← freshOccurrence) t
    | .identifier => return .read (← freshOccurrence) t
    | .leftParen =>
      let inner ← expression
      let _ ← consume .rightParen .groupClosing
      return .group inner
    | _ => return .constant (literalValue t)

/-- At least one argument, the first of them the `index`-th of its call. -/
def arguments (expression : Rule Expr) (bound index : Nat) : Rule (List Expr) := do
  if maxArity ≤ index then report (← get).peek .tooManyArguments
  let argument ← expression
  match ← accept? [.comma] with
  | none => return [argument]
  | some _ =>
    match bound with
    | 0 => throw .exhausted
    | bound + 1 => return argument :: (← arguments expression bound (index + 1))

/-- What stands between the parentheses of a call, with the closing one. -/
def argumentList (expression : Rule Expr) (bound : Nat) : Rule (List Expr × Token) := do
  let list ← if ← sees .rightParen then pure [] else arguments expression bound 0
  return (list, ← consume .rightParen .argumentClosing)

/-- The calls and properties that follow `callee`. -/
def suffixes (expression : Rule Expr) (bound : Nat) (callee : Expr) : Rule Expr := do
  match ← accept? [.leftParen, .dot] with
  | none => return callee
  | some t =>
    match bound with
    | 0 => throw .exhausted
    | bound + 1 =>
      if t.kind = .leftParen then
        let (list, closing) ← argumentList expression bound
        suffixes expression bound (.call callee closing list)
      else
        let name ← consume .identifier .propertyName
        suffixes expression bound (.get callee name)

def call (expression : Rule Expr) (bound : Nat) : Rule Expr := do
  suffixes expression bound (← primary expression)

def unary (expression : Rule Expr) (bound : Nat) : Rule Expr := do
  match ← accept? [.bang, .minus] with
  | none => call expression bound
  | some operator =>
    match bound with
    | 0 => throw .exhausted
    | bound + 1 => return .unary operator (← unary expression bound)

/-- All operators but assignment. -/
def operation (expression : Rule Expr) (bound : Nat) : Rule Expr :=
  levels.foldr (Level.rule bound) (unary expression bound)

/-- Assignment groups to the right. Only the parsed target tells whether it can be assigned to; one
that cannot is reported and kept, and reading goes on behind the value. -/
def assignment (expression : Rule Expr) (bound : Nat) : Rule Expr := do
  let target ← operation expression bound
  match ← accept? [.equal] with
  | none => return target
  | some equals =>
    let value ← expression
    match target with
    | .read _ name => return .assign (← freshOccurrence) name value
    | .get object name => return .set object name value
    | target =>
      report equals .invalidTarget
      return target

/-- An expression, when at most `bound` tokens are left. -/
def expression : (bound : Nat) → Rule Expr
  | 0 => assignment (throw .exhausted) 0
  | bound + 1 => assignment (expression bound) (bound + 1)

end Lox.Grammar
