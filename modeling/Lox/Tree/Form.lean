import Lox.Tree

/-! Trees as nested forms: a head and its parts between parentheses, apart by one blank. Strings
stand as they are, between quotes. -/
namespace Lox

/-- One form. -/
def form (parts : List String) : String := "(" ++ " ".intercalate parts ++ ")"

def Constant.form : Constant → String
  | .nil => "nil"
  | .boolean b => toString b
  | .number x => Number.pointed x
  | .string s => "\"" ++ s ++ "\""

mutual

def Expr.form : Expr → String
  | .constant c => c.form
  | .group inner => Lox.form ["group", inner.form]
  | .unary operator operand => Lox.form [operator.lexeme, operand.form]
  | .binary left operator right => Lox.form [operator.lexeme, left.form, right.form]
  | .logical left operator right => Lox.form [operator.lexeme, left.form, right.form]
  | .read _ name => name.lexeme
  | .assign _ name value => Lox.form ["=", name.lexeme, value.form]
  | .call callee _ arguments => Lox.form ("call" :: callee.form :: Expr.forms arguments)
  | .get object name => Lox.form [".", object.form, name.lexeme]
  | .set object name value => Lox.form [".=", object.form, name.lexeme, value.form]
  | .this _ _ => "this"

def Expr.forms : List Expr → List String
  | [] => []
  | e :: rest => e.form :: Expr.forms rest

end

mutual

def Stmt.form : Stmt → String
  | .expression value => Lox.form [";", value.form]
  | .print value => Lox.form ["print", value.form]
  | .var name none => Lox.form ["var", name.lexeme]
  | .var name (some initializer) => Lox.form ["var", name.lexeme, initializer.form]
  | .block body => Lox.form ("block" :: Stmt.forms body)
  | .branch condition consequent none => Lox.form ["if", condition.form, consequent.form]
  | .branch condition consequent (some alternative) =>
    Lox.form ["if", condition.form, consequent.form, alternative.form]
  | .loop condition body => Lox.form ["while", condition.form, body.form]
  | .function declaration => declaration.form "fun"
  | .ret _ none => Lox.form ["return"]
  | .ret _ (some value) => Lox.form ["return", value.form]
  | .classDecl name methods => Lox.form ("class" :: name.lexeme :: FunctionDecl.forms methods)

def Stmt.forms : List Stmt → List String
  | [] => []
  | s :: rest => s.form :: Stmt.forms rest

def FunctionDecl.form (head : String) : FunctionDecl → String
  | ⟨name, parameters, body⟩ =>
    Lox.form (head :: name.lexeme :: Lox.form (parameters.map (·.lexeme)) :: Stmt.forms body)

def FunctionDecl.forms : List FunctionDecl → List String
  | [] => []
  | m :: rest => m.form "method" :: FunctionDecl.forms rest

end

end Lox
