import Lox.Grammar.Expression

/-! Statements and declarations. As for expressions, each rule is a function of the rules for what
stands inside it. A declaration that cannot be read is dropped with the tokens up to the next place
where a statement may begin. -/
namespace Lox.Grammar

/-- The kinds a statement can be told by. -/
def opensStatement : TokenKind → Bool
  | .keyword .classWord | .keyword .funWord | .keyword .varWord | .keyword .forWord
  | .keyword .ifWord | .keyword .whileWord | .keyword .printWord | .keyword .returnWord => true
  | _ => false

/-- The tokens from the next boundary on: behind a semicolon, or before a token that opens a
statement. -/
def boundary (skipped : Token) : List Token → List Token
  | [] => []
  | t :: rest =>
    if skipped.kind = .semicolon || opensStatement t.kind then t :: rest else boundary t rest

/-- Skips one token whatever it is, then all up to the next boundary. -/
def resume : Rule Unit :=
  modify fun c => { c with
    upcoming := match c.upcoming with
      | [] => []
      | t :: rest => boundary t rest }

/-- Nothing instead of a declaration that was reported. -/
def recovering (rule : Rule α) : Rule (Option α) := fun c =>
  match rule c with
  | .ok a c => .ok (some a) c
  | .error .reported c => (resume *> pure none) c
  | .error .exhausted c => .error .exhausted c

/-- Declarations as long as `more` holds and tokens are left. -/
def declarations (declaration : Rule (Option Stmt)) (more : Cursor → Bool) (bound : Nat) :
    Rule (List Stmt) := do
  if (← atEnd) || !more (← get) then return []
  match bound with
  | 0 => throw .exhausted
  | bound + 1 =>
    let first ← declaration
    return first.toList ++ (← declarations declaration more bound)

/-- What follows the opening brace of a block. -/
def block (declaration : Rule (Option Stmt)) (bound : Nat) : Rule (List Stmt) := do
  let body ← declarations declaration (fun c => !c.sees .rightBrace) bound
  let _ ← consume .rightBrace .blockClosing
  return body

/-- At least one parameter, the first of them the `index`-th of its function. -/
def parameters (bound index : Nat) : Rule (List Token) := do
  if maxArity ≤ index then report (← get).peek .tooManyParameters
  let parameter ← consume .identifier .parameterName
  match ← accept? [.comma] with
  | none => return [parameter]
  | some _ =>
    match bound with
    | 0 => throw .exhausted
    | bound + 1 => return parameter :: (← parameters bound (index + 1))

/-- A function from its name on. -/
def function (declaration : Rule (Option Stmt)) (bound : Nat) (kind : FunctionKind) :
    Rule FunctionDecl := do
  let name ← consume .identifier (.functionName kind)
  let _ ← consume .leftParen (.parameterOpening kind)
  let list ← if ← sees .rightParen then pure [] else parameters bound 0
  let _ ← consume .rightParen .parameterClosing
  let _ ← consume .leftBrace (.bodyOpening kind)
  return ⟨name, list, ← block declaration bound⟩

def methods (declaration : Rule (Option Stmt)) (bound : Nat) : Rule (List FunctionDecl) := do
  if (← atEnd) || (← sees .rightBrace) then return []
  match bound with
  | 0 => throw .exhausted
  | bound + 1 =>
    let first ← function declaration bound .method
    return first :: (← methods declaration bound)

def classDeclaration (declaration : Rule (Option Stmt)) (bound : Nat) : Rule Stmt := do
  let name ← consume .identifier .className
  let _ ← consume .leftBrace .classOpening
  let list ← methods declaration bound
  let _ ← consume .rightBrace .classClosing
  return .classDecl name list

def varDeclaration (bound : Nat) : Rule Stmt := do
  let name ← consume .identifier .variableName
  let initializer ← match ← accept? [.equal] with
    | none => pure none
    | some _ => some <$> expression bound
  let _ ← consume .semicolon .variableEnd
  return .var name initializer

/-- An expression, unless the token that closes its place comes first. -/
def optionalExpression (closing : TokenKind) (bound : Nat) : Rule (Option Expr) := do
  if ← sees closing then return none else some <$> expression bound

def expressionStatement (bound : Nat) : Rule Stmt := do
  let value ← expression bound
  let _ ← consume .semicolon .expressionEnd
  return .expression value

/-- A `for` in other words: its initializer once, in a block of its own, then a loop whose body is
the body and the increment, in a block of their own. -/
def lowered (initializer : Option Stmt) (condition increment : Option Expr) (body : Stmt) : Stmt :=
  let body := match increment with
    | none => body
    | some increment => .block [body, .expression increment]
  let loop := Stmt.loop (condition.getD (.constant (.boolean true))) body
  match initializer with
  | none => loop
  | some initializer => .block [initializer, loop]

def forInitializer (bound : Nat) : Rule (Option Stmt) := do
  match ← accept? [.semicolon, .keyword .varWord] with
  | none => some <$> expressionStatement bound
  | some t => if t.kind = .semicolon then return none else some <$> varDeclaration bound

def forStatement (statement : Rule Stmt) (bound : Nat) : Rule Stmt := do
  let _ ← consume .leftParen .forOpening
  let initializer ← forInitializer bound
  let condition ← optionalExpression .semicolon bound
  let _ ← consume .semicolon .forConditionEnd
  let increment ← optionalExpression .rightParen bound
  let _ ← consume .rightParen .forClosing
  return lowered initializer condition increment (← statement)

def ifStatement (statement : Rule Stmt) (bound : Nat) : Rule Stmt := do
  let _ ← consume .leftParen .ifOpening
  let condition ← expression bound
  let _ ← consume .rightParen .ifClosing
  let consequent ← statement
  match ← accept? [.keyword .elseWord] with
  | none => return .branch condition consequent none
  | some _ => return .branch condition consequent (some (← statement))

def printStatement (bound : Nat) : Rule Stmt := do
  let value ← expression bound
  let _ ← consume .semicolon .printEnd
  return .print value

def returnStatement (keyword : Token) (bound : Nat) : Rule Stmt := do
  let value ← optionalExpression .semicolon bound
  let _ ← consume .semicolon .returnEnd
  return .ret keyword value

def whileStatement (statement : Rule Stmt) (bound : Nat) : Rule Stmt := do
  let _ ← consume .leftParen .whileOpening
  let condition ← expression bound
  let _ ← consume .rightParen .whileClosing
  return .loop condition (← statement)

/-- The rules for what stands inside a statement. -/
structure Inner where
  statement : Rule Stmt
  declaration : Rule (Option Stmt)

def statementKinds : List TokenKind :=
  [.keyword .forWord, .keyword .ifWord, .keyword .printWord, .keyword .returnWord,
    .keyword .whileWord, .leftBrace]

def statementRule (inner : Inner) (bound : Nat) : Rule Stmt := do
  match ← accept? statementKinds with
  | none => expressionStatement bound
  | some t =>
    match t.kind with
    | .keyword .forWord => forStatement inner.statement bound
    | .keyword .ifWord => ifStatement inner.statement bound
    | .keyword .printWord => printStatement bound
    | .keyword .returnWord => returnStatement t bound
    | .keyword .whileWord => whileStatement inner.statement bound
    | _ => .block <$> block inner.declaration bound

def declarationRule (inner : Inner) (bound : Nat) : Rule Stmt := do
  match ← accept? [.keyword .classWord, .keyword .funWord, .keyword .varWord] with
  | none => statementRule inner bound
  | some t =>
    match t.kind with
    | .keyword .classWord => classDeclaration inner.declaration bound
    | .keyword .funWord => .function <$> function inner.declaration bound .function
    | _ => varDeclaration bound

/-- The rules one level further out. -/
def Inner.around (inner : Inner) (bound : Nat) : Inner :=
  ⟨statementRule inner bound, recovering (declarationRule inner bound)⟩

/-- The rules for statements and declarations when at most `bound` tokens are left. -/
def rules : (bound : Nat) → Inner
  | 0 => Inner.around ⟨throw .exhausted, throw .exhausted⟩ 0
  | bound + 1 => (rules bound).around (bound + 1)

/-- All declarations up to the end of the file. A closing brace that closes nothing is read as a
statement, and refused as one. -/
def program (bound : Nat) : Rule (List Stmt) :=
  declarations (rules bound).declaration (fun _ => true) bound

end Lox.Grammar

namespace Lox

/-- The statements of a list of tokens, or all its errors, and the next unused identity. Identities
used in a program with errors are not used again. -/
def parse (tokens : List Token) (fresh : Occurrence) :
    Except (List Diagnostic) (List Stmt) × Occurrence :=
  match Grammar.program tokens.length (.start tokens fresh) with
  | .ok statements c => (if c.errors.isEmpty then .ok statements else .error c.errors, c.fresh)
  | .error _ c => (.error c.errors, c.fresh)

end Lox
