import Lox.Grammar.Statement

/-! The reader once more, over a buffer of tokens and a position in it. Every token is looked up by its
index, which stops the reader for good where there is no such token, and nothing is known of the end of the
file but its kind. The rules are those of the grammar, step for step; what is looked up, how the position
moves and which declarations are read is kept in mind. -/
namespace Lox.Buffer

open Grammar (Level levels maxArity opensStatement primaryKinds literalValue lowered statementKinds)

inductive Event where
  | looked (index : Nat)
  | moved (position : Nat)
  /-- A declaration was read or given up between two positions. -/
  | declared (before behind : Nat)
  deriving DecidableEq, Repr

structure State where
  tokens : List Token
  position : Nat
  errors : List Diagnostic
  /-- The next unused identity. -/
  fresh : Occurrence
  events : List Event

/-- Why a rule gives up. -/
inductive Halt where
  | reported
  | exhausted
  /-- A token was looked up where there is none. -/
  | outside
  deriving DecidableEq, Repr

abbrev Reading := EStateM Halt State

def look (index : Nat) : Reading Token := fun r =>
  match r.tokens[index]? with
  | some t => .ok t { r with events := r.events ++ [.looked index] }
  | none => .error .outside r

def peek : Reading Token := do look (← get).position

/-- The token before the position. -/
def previous : Reading Token := do
  match (← get).position with
  | 0 => throw .outside
  | before + 1 => look before

def atEnd : Reading Bool := return (← peek).kind = .eof

def sees (kind : TokenKind) : Reading Bool := do
  if ← atEnd then return false
  return (← peek).kind = kind

def move : Reading Unit :=
  modify fun r => { r with
    position := r.position + 1
    events := r.events ++ [.moved (r.position + 1)] }

/-- Goes one token further, but never behind an end of the file. -/
def advance : Reading Token := do
  if !(← atEnd) then move
  previous

def accepts (kind : TokenKind) : Reading Bool := do
  if ← sees kind then
    let _ ← advance
    return true
  return false

def acceptsOne : List TokenKind → Reading Bool
  | [] => return false
  | kind :: rest => do if ← accepts kind then return true else acceptsOne rest

/-- The token that is consumed if it is of one of the kinds. -/
def accept? (kinds : List TokenKind) : Reading (Option Token) := do
  if ← acceptsOne kinds then some <$> previous else return none

def report (t : Token) (e : SyntaxError) : Reading Unit :=
  modify fun r => { r with errors := r.errors ++ [.syntactic t.line t.place e] }

def fail (t : Token) (e : SyntaxError) : Reading α := do
  report t e
  throw .reported

def consume (kind : TokenKind) (expected : Expected) : Reading Token := do
  if ← sees kind then advance else fail (← peek) (.expected expected)

def freshOccurrence : Reading Occurrence :=
  modifyGet fun r => (r.fresh, { r with fresh := r.fresh + 1 })

def chain (level : Level) (operand : Reading Expr) (bound : Nat) (left : Expr) : Reading Expr := do
  match ← accept? level.operators with
  | none => return left
  | some operator =>
    match bound with
    | 0 => throw .exhausted
    | bound + 1 => chain level operand bound (level.node left operator (← operand))

def refuseLeading (level : Level) (operand : Reading Expr) : Reading Unit := do
  match ← accept? level.leading with
  | none => return
  | some operator =>
    let _ ← operand
    fail operator (.missingLeftOperand operator.lexeme)

def binary (bound : Nat) (level : Level) (operand : Reading Expr) : Reading Expr := do
  refuseLeading level operand
  chain level operand bound (← operand)

def primary (expression : Reading Expr) : Reading Expr := do
  match ← accept? primaryKinds with
  | none => fail (← peek) (.expected .expression)
  | some t =>
    match t.kind with
    | .keyword .falseWord => return .constant (.boolean false)
    | .keyword .trueWord => return .constant (.boolean true)
    | .keyword .nilWord => return .constant .nil
    | .keyword .thisWord => return .this (← freshOccurrence) t
    | .identifier => return .read (← freshOccurrence) t
    | .leftParen =>
      let inner ← expression
      let _ ← consume .rightParen .groupClosing
      return .group inner
    | _ => return .constant (literalValue t)

def arguments (expression : Reading Expr) (bound index : Nat) : Reading (List Expr) := do
  if maxArity ≤ index then report (← peek) .tooManyArguments
  let argument ← expression
  match ← accept? [.comma] with
  | none => return [argument]
  | some _ =>
    match bound with
    | 0 => throw .exhausted
    | bound + 1 => return argument :: (← arguments expression bound (index + 1))

def argumentList (expression : Reading Expr) (bound : Nat) : Reading (List Expr × Token) := do
  let list ← if ← sees .rightParen then pure [] else arguments expression bound 0
  return (list, ← consume .rightParen .argumentClosing)

def suffixes (expression : Reading Expr) (bound : Nat) (callee : Expr) : Reading Expr := do
  match ← accept? [.leftParen, .dot] with
  | none => return callee
  | some t =>
    match bound with
    | 0 => throw .exhausted
    | bound + 1 =>
      if t.kind = .leftParen then
        let (list, closing) ← argumentList expression bound
        suffixes expression bound (.call callee closing list)
      else
        let name ← consume .identifier .propertyName
        suffixes expression bound (.get callee name)

def call (expression : Reading Expr) (bound : Nat) : Reading Expr := do
  suffixes expression bound (← primary expression)

def unary (expression : Reading Expr) (bound : Nat) : Reading Expr := do
  match ← accept? [.bang, .minus] with
  | none => call expression bound
  | some operator =>
    match bound with
    | 0 => throw .exhausted
    | bound + 1 => return .unary operator (← unary expression bound)

def operation (expression : Reading Expr) (bound : Nat) : Reading Expr :=
  levels.foldr (binary bound) (unary expression bound)

def assignment (expression : Reading Expr) (bound : Nat) : Reading Expr := do
  let target ← operation expression bound
  match ← accept? [.equal] with
  | none => return target
  | some equals =>
    let value ← expression
    match target with
    | .read _ name => return .assign (← freshOccurrence) name value
    | .get object name => return .set object name value
    | target =>
      report equals .invalidTarget
      return target

def expression : (bound : Nat) → Reading Expr
  | 0 => assignment (throw .exhausted) 0
  | bound + 1 => assignment (expression bound) (bound + 1)

/-- Goes on to the next boundary: behind a semicolon, or before a token that opens a statement. -/
def skip (bound : Nat) : Reading Unit := do
  if ← atEnd then return
  if (← previous).kind = .semicolon then return
  if opensStatement (← peek).kind then return
  let _ ← advance
  match bound with
  | 0 => throw .exhausted
  | bound + 1 => skip bound

/-- Skips one token whatever it is, then all up to the next boundary. -/
def synchronize (bound : Nat) : Reading Unit := do
  let _ ← advance
  skip bound

def recovering (bound : Nat) (rule : Reading α) : Reading (Option α) := fun r =>
  match rule r with
  | .ok a r => .ok (some a) r
  | .error .reported r => (synchronize bound *> pure none) r
  | .error halt r => .error halt r

/-- A declaration, with an event for its whole call. The log names the token it begins at. -/
def declaring (bound : Nat) (rule : Reading Stmt) : Reading (Option Stmt) := do
  let before := (← get).position
  let _ ← peek
  let read ← recovering bound rule
  modify fun r => { r with events := r.events ++ [.declared before r.position] }
  return read

def declarations (declaration : Reading (Option Stmt)) (closing : Option TokenKind) (bound : Nat) :
    Reading (List Stmt) := do
  if (← atEnd) || (← closing.elim (pure false) sees) then return []
  match bound with
  | 0 => throw .exhausted
  | bound + 1 =>
    let first ← declaration
    return first.toList ++ (← declarations declaration closing bound)

def block (declaration : Reading (Option Stmt)) (bound : Nat) : Reading (List Stmt) := do
  let body ← declarations declaration (some .rightBrace) bound
  let _ ← consume .rightBrace .blockClosing
  return body

def parameters (bound index : Nat) : Reading (List Token) := do
  if maxArity ≤ index then report (← peek) .tooManyParameters
  let parameter ← consume .identifier .parameterName
  match ← accept? [.comma] with
  | none => return [parameter]
  | some _ =>
    match bound with
    | 0 => throw .exhausted
    | bound + 1 => return parameter :: (← parameters bound (index + 1))

def function (declaration : Reading (Option Stmt)) (bound : Nat) (kind : FunctionKind) :
    Reading FunctionDecl := do
  let name ← consume .identifier (.functionName kind)
  let _ ← consume .leftParen (.parameterOpening kind)
  let list ← if ← sees .rightParen then pure [] else parameters bound 0
  let _ ← consume .rightParen .parameterClosing
  let _ ← consume .leftBrace (.bodyOpening kind)
  return ⟨name, list, ← block declaration bound⟩

def methods (declaration : Reading (Option Stmt)) (bound : Nat) : Reading (List FunctionDecl) := do
  if (← atEnd) || (← sees .rightBrace) then return []
  match bound with
  | 0 => throw .exhausted
  | bound + 1 =>
    let first ← function declaration bound .method
    return first :: (← methods declaration bound)

def classDeclaration (declaration : Reading (Option Stmt)) (bound : Nat) : Reading Stmt := do
  let name ← consume .identifier .className
  let _ ← consume .leftBrace .classOpening
  let list ← methods declaration bound
  let _ ← consume .rightBrace .classClosing
  return .classDecl name list

def varDeclaration (bound : Nat) : Reading Stmt := do
  let name ← consume .identifier .variableName
  let initializer ← match ← accept? [.equal] with
    | none => pure none
    | some _ => some <$> expression bound
  let _ ← consume .semicolon .variableEnd
  return .var name initializer

def optionalExpression (closing : TokenKind) (bound : Nat) : Reading (Option Expr) := do
  if ← sees closing then return none else some <$> expression bound

def expressionStatement (bound : Nat) : Reading Stmt := do
  let value ← expression bound
  let _ ← consume .semicolon .expressionEnd
  return .expression value

def forInitializer (bound : Nat) : Reading (Option Stmt) := do
  match ← accept? [.semicolon, .keyword .varWord] with
  | none => some <$> expressionStatement bound
  | some t => if t.kind = .semicolon then return none else some <$> varDeclaration bound

def forStatement (statement : Reading Stmt) (bound : Nat) : Reading Stmt := do
  let _ ← consume .leftParen .forOpening
  let initializer ← forInitializer bound
  let condition ← optionalExpression .semicolon bound
  let _ ← consume .semicolon .forConditionEnd
  let increment ← optionalExpression .rightParen bound
  let _ ← consume .rightParen .forClosing
  return lowered initializer condition increment (← statement)

def ifStatement (statement : Reading Stmt) (bound : Nat) : Reading Stmt := do
  let _ ← consume .leftParen .ifOpening
  let condition ← expression bound
  let _ ← consume .rightParen .ifClosing
  let consequent ← statement
  match ← accept? [.keyword .elseWord] with
  | none => return .branch condition consequent none
  | some _ => return .branch condition consequent (some (← statement))

def printStatement (bound : Nat) : Reading Stmt := do
  let value ← expression bound
  let _ ← consume .semicolon .printEnd
  return .print value

def returnStatement (keyword : Token) (bound : Nat) : Reading Stmt := do
  let value ← optionalExpression .semicolon bound
  let _ ← consume .semicolon .returnEnd
  return .ret keyword value

def whileStatement (statement : Reading Stmt) (bound : Nat) : Reading Stmt := do
  let _ ← consume .leftParen .whileOpening
  let condition ← expression bound
  let _ ← consume .rightParen .whileClosing
  return .loop condition (← statement)

structure Inner where
  statement : Reading Stmt
  declaration : Reading (Option Stmt)

def statementRule (inner : Inner) (bound : Nat) : Reading Stmt := do
  match ← accept? statementKinds with
  | none => expressionStatement bound
  | some t =>
    match t.kind with
    | .keyword .forWord => forStatement inner.statement bound
    | .keyword .ifWord => ifStatement inner.statement bound
    | .keyword .printWord => printStatement bound
    | .keyword .returnWord => returnStatement t bound
    | .keyword .whileWord => whileStatement inner.statement bound
    | _ => .block <$> block inner.declaration bound

def declarationRule (inner : Inner) (bound : Nat) : Reading Stmt := do
  match ← accept? [.keyword .classWord, .keyword .funWord, .keyword .varWord] with
  | none => statementRule inner bound
  | some t =>
    match t.kind with
    | .keyword .classWord => classDeclaration inner.declaration bound
    | .keyword .funWord => .function <$> function inner.declaration bound .function
    | _ => varDeclaration bound

def Inner.around (inner : Inner) (bound : Nat) : Inner :=
  ⟨statementRule inner bound, declaring bound (declarationRule inner bound)⟩

def rules : (bound : Nat) → Inner
  | 0 => Inner.around ⟨throw .exhausted, throw .exhausted⟩ 0
  | bound + 1 => (rules bound).around (bound + 1)

def program (bound : Nat) : Reading (List Stmt) := declarations (rules bound).declaration none bound

/-- The tokens with an end of the file behind them, if they do not have one there. -/
def closed (tokens : List Token) : List Token :=
  match tokens.getLast? with
  | some last => if last.kind = .eof then tokens else tokens ++ [.endOfFile last.line]
  | none => [.endOfFile 1]

def start (tokens : List Token) (fresh : Occurrence) : State := ⟨closed tokens, 0, [], fresh, []⟩

end Lox.Buffer
