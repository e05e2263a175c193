/-! What can be wrong with a program, and how it is reported. Each phase has a type of causes, and
the wording of a cause is given once, beside it. -/
namespace Lox

inductive LexicalError where
  | unexpected (c : Char)
  | unterminated
  deriving DecidableEq, Repr

def LexicalError.message : LexicalError → String
  | .unexpected c => "Unexpected character: " ++ String.singleton c
  | .unterminated => "Unterminated string."

/-- The two kinds of function declaration. -/
inductive FunctionKind where
  | function
  | method
  deriving DecidableEq, Repr

def FunctionKind.noun : FunctionKind → String
  | .function => "function"
  | .method => "method"

/-- What the grammar asks for at a token where something else stands. -/
inductive Expected where
  | className
  | classOpening
  | classClosing
  | functionName (kind : FunctionKind)
  | parameterOpening (kind : FunctionKind)
  | parameterName
  | parameterClosing
  | bodyOpening (kind : FunctionKind)
  | variableName
  | variableEnd
  | forOpening
  | forConditionEnd
  | forClosing
  | ifOpening
  | ifClosing
  | whileOpening
  | whileClosing
  | printEnd
  | returnEnd
  | expressionEnd
  | blockClosing
  | propertyName
  | argumentClosing
  | groupClosing
  | expression
  deriving DecidableEq, Repr

def Expected.message : Expected → String
  | .className => "Expect class name."
  | .classOpening => "Expect '\x7b' before class body."
  | .classClosing => "Expect '\x7d' after class body."
  | .functionName kind => "Expect " ++ kind.noun ++ " name."
  | .parameterOpening kind => "Expect '(' after " ++ kind.noun ++ " name."
  | .parameterName => "Expect parameter name."
  | .parameterClosing => "Expect ')' after parameters."
  | .bodyOpening kind => "Expect '\x7b' before " ++ kind.noun ++ " body."
  | .variableName => "Expect variable name."
  | .variableEnd => "Expect ';' after variable declaration."
  | .forOpening => "Expect '(' after 'for'."
  | .forConditionEnd => "Expect ';' after loop condition."
  | .forClosing => "Expect ')' after for clauses."
  | .ifOpening => "Expect '(' after 'if'."
  | .ifClosing => "Expect ')' after if condition."
  | .whileOpening => "Expect '(' after 'while'."
  | .whileClosing => "Expect ')' after condition."
  | .printEnd => "Expect ';' after value."
  | .returnEnd => "Expect ';' after return value."
  | .expressionEnd => "Expect ';' after expression."
  | .blockClosing => "Expect '\x7d' after block."
  | .propertyName => "Expect property name after '.'."
  | .argumentClosing => "Expect ')' after arguments."
  | .groupClosing => "Expect ')' after expression."
  | .expression => "Expect expression."

inductive SyntaxError where
  | expected (what : Expected)
  /-- A binary operator that stands where its left operand should. -/
  | missingLeftOperand (operator : String)
  | invalidTarget
  | tooManyParameters
  | tooManyArguments
  deriving DecidableEq, Repr

def SyntaxError.message : SyntaxError → String
  | .expected what => what.message
  | .missingLeftOperand operator => "Expecting a left operand for '" ++ operator ++ "'."
  | .invalidTarget => "Invalid assignment target."
  | .tooManyParameters => "Can't have more than 255 parameters."
  | .tooManyArguments => "Can't have more than 255 arguments."

inductive StaticError where
  | redeclared
  | ownInitializer
  | returnOutsideFunction
  | thisOutsideClass
  deriving DecidableEq, Repr

def StaticError.message : StaticError → String
  | .redeclared => "Already a variable with this name in this scope."
  | .ownInitializer => "Can't read local variable in its own initializer."
  | .returnOutsideFunction => "Can't return from top-level code."
  | .thisOutsideClass => "Can't use 'this' outside of a class."

inductive RuntimeError where
  | undefinedVariable (name : String)
  | undefinedProperty (name : String)
  | operandNotNumber
  | operandsNotNumbers
  | operandsNotAddable
  | notCallable
  | arityMismatch (expected got : Nat)
  | notInstance
  | notInstanceField
  | topLevelReturn
  | stackOverflow
  /-- A failure that a native function reports in its own words. -/
  | native (text : String)
  deriving DecidableEq, Repr

def RuntimeError.message : RuntimeError → String
  | .undefinedVariable name => "Undefined variable '" ++ name ++ "'."
  | .undefinedProperty name => "Undefined property '" ++ name ++ "'."
  | .operandNotNumber => "Operand must be a number."
  | .operandsNotNumbers => "Operands must be numbers."
  | .operandsNotAddable => "Operands must be two numbers or two strings."
  | .notCallable => "Can only call functions and classes."
  | .arityMismatch expected got =>
    "Expected " ++ toString expected ++ " arguments but got " ++ toString got ++ "."
  | .notInstance => "Only instances have properties."
  | .notInstanceField => "Only instances have fields."
  | .topLevelReturn => "Can't return from top-level code."
  | .stackOverflow => "Stack overflow."
  | .native text => text

/-- Where in the tokens a syntactic or static error points. -/
inductive Place where
  | atEnd
  | atLexeme (lexeme : String)
  deriving DecidableEq, Repr

def Place.text : Place → String
  | .atEnd => " at end"
  | .atLexeme lexeme => " at '" ++ lexeme ++ "'"

/-- A report to the user: the cause, its line, and where the phase knows it the place. -/
inductive Diagnostic where
  | lexical (line : Nat) (error : LexicalError)
  | syntactic (line : Nat) (place : Place) (error : SyntaxError)
  | static (line : Nat) (place : Place) (error : StaticError)
  | runtime (line : Nat) (error : RuntimeError)
  /-- The sink of the program's output takes no more. -/
  | sinkClosed
  deriving DecidableEq, Repr

namespace Diagnostic

def message : Diagnostic → String
  | .lexical _ error => error.message
  | .syntactic _ _ error => error.message
  | .static _ _ error => error.message
  | .runtime _ error => error.message
  | .sinkClosed => "sink closed"

def line? : Diagnostic → Option Nat
  | .lexical line _ => some line
  | .syntactic line _ _ => some line
  | .static line _ _ => some line
  | .runtime line _ => some line
  | .sinkClosed => none

def compileTime (line : Nat) (place message : String) : String :=
  "[line " ++ toString line ++ "] Error" ++ place ++ ": " ++ message

/-- What the user reads. A runtime error has its line below, on a line of its own. -/
def text (d : Diagnostic) : String :=
  match d with
  | .lexical line _ => compileTime line "" d.message
  | .syntactic line place _ => compileTime line place.text d.message
  | .static line place _ => compileTime line place.text d.message
  | .runtime line _ => d.message ++ "\n[line " ++ toString line ++ "]"
  | .sinkClosed => d.message

end Diagnostic

end Lox
