import Lox.Bindings
import Lox.Tree

/-! Static resolution: how many scopes lie between an occurrence of a name and its declaration, and
which programs are refused before they run. The top level is no scope: what is declared there is
found by name while the program runs, and may be declared again. -/
namespace Lox

/-- Whether a declared name may be read. -/
inductive Readiness where
  /-- Its initializer is not read to the end. -/
  | pending
  | ready
  deriving DecidableEq, Repr

/-- What a statement or expression takes from its place in the program. -/
structure Surroundings where
  /-- The local scopes, innermost first. -/
  scopes : List (Bindings Readiness)
  inFunction : Bool
  inClass : Bool
  deriving Repr

namespace Surroundings

def topLevel : Surroundings := ⟨[], false, false⟩

def enter (here : Surroundings) (scope : Bindings Readiness) : Surroundings :=
  { here with scopes := scope :: here.scopes }

/-- Whether the innermost scope has the name already. -/
def holds (here : Surroundings) (name : Token) : Bool :=
  here.scopes.head?.any (·.binds name.lexeme)

def hold (here : Surroundings) (name : Token) (readiness : Readiness) : Surroundings :=
  match here.scopes with
  | [] => here
  | innermost :: outer => { here with scopes := innermost.put name.lexeme readiness :: outer }

/-- The name is there, but may not be read if it is new. -/
def declare (here : Surroundings) (name : Token) : Surroundings :=
  if here.holds name then here else here.hold name .pending

def define (here : Surroundings) (name : Token) : Surroundings := here.hold name .ready

def isPending (here : Surroundings) (name : Token) : Bool :=
  here.scopes.head?.any (·.get? name.lexeme = some .pending)

/-- How many scopes out the name is bound. -/
def depth? (here : Surroundings) (name : Token) : Option Nat :=
  here.scopes.findIdx? (·.binds name.lexeme)

/-- The surroundings of what follows a statement. -/
def after (here : Surroundings) : Stmt → Surroundings
  | .var name _ => here.define name
  | .function declaration => here.define declaration.name
  | .classDecl name _ => here.define name
  | .branch _ consequent none => here.after consequent
  | .branch _ consequent (some alternative) => (here.after consequent).after alternative
  | .loop _ body => here.after body
  | .expression _ | .print _ | .block _ | .ret _ _ => here

/-- The one scope of a function's parameters and body, within a function. -/
def inBody (here : Surroundings) (parameters : List Token) : Surroundings :=
  parameters.foldl define { here.enter [] with inFunction := true }

/-- The scope of a class's methods, in which `this` is bound. -/
def inMethods (here : Surroundings) : Surroundings :=
  { here.enter [(Keyword.thisWord.spelling, .ready)] with inClass := true }

end Surroundings

/-- What resolution finds. -/
inductive Finding where
  /-- An occurrence refers to the scope so many steps out, or to no local scope. -/
  | reference (id : Occurrence) (name : String) (depth : Option Nat)
  | error (d : Diagnostic)
  deriving Repr

namespace Finding

def refused (t : Token) (e : StaticError) : Finding := .error (.static t.line t.place e)

def reference? : Finding → Option (Occurrence × String × Option Nat)
  | .reference id name depth => some (id, name, depth)
  | .error _ => none

def error? : Finding → Option Diagnostic
  | .reference .. => none
  | .error d => some d

end Finding

namespace Surroundings

def referring (here : Surroundings) (id : Occurrence) (name : Token) : Finding :=
  .reference id name.lexeme (here.depth? name)

/-- A second declaration in one scope. -/
def redeclaring (here : Surroundings) (name : Token) : List Finding :=
  if here.holds name then [.refused name .redeclared] else []

def returning (here : Surroundings) (keyword : Token) : List Finding :=
  if here.inFunction then [] else [.refused keyword .returnOutsideFunction]

/-- Parameters are declared one after the other. -/
def redeclaringEach (here : Surroundings) : List Token → List Finding
  | [] => []
  | name :: rest => here.redeclaring name ++ (here.define name).redeclaringEach rest

end Surroundings

mutual

/-- The findings in an expression. The value of a field assignment comes before its object. -/
def Expr.findings (here : Surroundings) : Expr → List Finding
  | .constant _ => []
  | .group inner => inner.findings here
  | .unary _ operand => operand.findings here
  | .binary left _ right => left.findings here ++ right.findings here
  | .logical left _ right => left.findings here ++ right.findings here
  | .read id name =>
    (if here.isPending name then [.refused name .ownInitializer] else []) ++
      [here.referring id name]
  | .assign id name value => value.findings here ++ [here.referring id name]
  | .call callee _ arguments => callee.findings here ++ Expr.allFindings here arguments
  | .get object _ => object.findings here
  | .set object _ value => value.findings here ++ object.findings here
  | .this id keyword =>
    if here.inClass then [here.referring id keyword] else [.refused keyword .thisOutsideClass]

def Expr.allFindings (here : Surroundings) : List Expr → List Finding
  | [] => []
  | e :: rest => e.findings here ++ Expr.allFindings here rest

end

mutual

/-- The findings in a statement. -/
def Stmt.findings (here : Surroundings) : Stmt → List Finding
  | .expression value => value.findings here
  | .print value => value.findings here
  | .var name none => here.redeclaring name
  | .var name (some initializer) =>
    here.redeclaring name ++ initializer.findings (here.declare name)
  | .block body => Stmt.allFindings (here.enter []) body
  | .branch condition consequent none => condition.findings here ++ consequent.findings here
  | .branch condition consequent (some alternative) =>
    condition.findings here ++ consequent.findings here ++
      alternative.findings (here.after consequent)
  | .loop condition body => condition.findings here ++ body.findings here
  | .function declaration =>
    here.redeclaring declaration.name ++ declaration.findings (here.define declaration.name)
  | .ret keyword none => here.returning keyword
  | .ret keyword (some value) => here.returning keyword ++ value.findings here
  | .classDecl name methods =>
    here.redeclaring name ++ FunctionDecl.allFindings (here.define name).inMethods methods

/-- The findings in a list of statements, each of which is seen by those behind it. -/
def Stmt.allFindings (here : Surroundings) : List Stmt → List Finding
  | [] => []
  | s :: rest => s.findings here ++ Stmt.allFindings (here.after s) rest

/-- The findings in a function's parameters and body. -/
def FunctionDecl.findings (here : Surroundings) : FunctionDecl → List Finding
  | ⟨_, parameters, body⟩ =>
    (here.inBody []).redeclaringEach parameters ++ Stmt.allFindings (here.inBody parameters) body

def FunctionDecl.allFindings (here : Surroundings) : List FunctionDecl → List Finding
  | [] => []
  | m :: rest => m.findings here ++ FunctionDecl.allFindings here rest

end

/-- The findings in a program. -/
def resolve (program : List Stmt) : List Finding := Stmt.allFindings .topLevel program

end Lox
