import Lox.Token

/-! Syntax trees. A node keeps the tokens that later phases report against, and every node that
names a variable has an identity of its own, so that facts about it can be kept beside the tree.
There is no `for`: it is written with a block and a `while`. -/
namespace Lox

/-- The identity of a node that names a variable. Identities are counted up from tree to tree, and are
taken not to wrap. -/
abbrev Occurrence := Nat

inductive Constant where
  | nil
  | boolean (value : Bool)
  | number (value : Float)
  | string (value : String)
  deriving DecidableEq, Repr

inductive Expr where
  | constant (value : Constant)
  | group (inner : Expr)
  | unary (operator : Token) (operand : Expr)
  | binary (left : Expr) (operator : Token) (right : Expr)
  /-- `and` and `or`, which may leave the right operand alone. -/
  | logical (left : Expr) (operator : Token) (right : Expr)
  | read (id : Occurrence) (name : Token)
  | assign (id : Occurrence) (name : Token) (value : Expr)
  /-- Calls are reported against their closing parenthesis. -/
  | call (callee : Expr) (closing : Token) (arguments : List Expr)
  | get (object : Expr) (name : Token)
  | set (object : Expr) (name : Token) (value : Expr)
  | this (id : Occurrence) (keyword : Token)
  deriving Repr, BEq

mutual

inductive Stmt where
  | expression (value : Expr)
  | print (value : Expr)
  | var (name : Token) (initializer : Option Expr)
  | block (body : List Stmt)
  | branch (condition : Expr) (consequent : Stmt) (alternative : Option Stmt)
  | loop (condition : Expr) (body : Stmt)
  | function (declaration : FunctionDecl)
  | ret (keyword : Token) (value : Option Expr)
  | classDecl (name : Token) (methods : List FunctionDecl)

structure FunctionDecl where
  name : Token
  parameters : List Token
  body : List Stmt

end

deriving instance Repr, BEq for Stmt, FunctionDecl

instance : Inhabited FunctionDecl := ⟨⟨.endOfFile 1, [], []⟩⟩

end Lox
