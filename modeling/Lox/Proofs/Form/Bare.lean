import Lox.Tree.Form

/-! What the form of a tree is made of: not the identities of its occurrences, nor the lines of its tokens,
nor whether `inf` is a name or a number that is too large. -/
namespace Lox

/-- The token without its line. -/
def Token.bare (t : Token) : Token := { t with line := 0 }

/-- The number that is too large as the name it is written like. -/
def Constant.bare : Constant → Expr
  | .nil => .constant .nil
  | .boolean b => .constant (.boolean b)
  | .number x => if x = 1 / 0 then .read 0 ⟨.identifier, "inf", none, 0⟩ else .constant (.number x)
  | .string s => .constant (.string s)

mutual

def Expr.bare : Expr → Expr
  | .constant c => c.bare
  | .group inner => .group inner.bare
  | .unary operator operand => .unary operator.bare operand.bare
  | .binary left operator right => .binary left.bare operator.bare right.bare
  | .logical left operator right => .logical left.bare operator.bare right.bare
  | .read _ name => .read 0 name.bare
  | .assign _ name value => .assign 0 name.bare value.bare
  | .call callee closing arguments => .call callee.bare closing.bare (Expr.allBare arguments)
  | .get object name => .get object.bare name.bare
  | .set object name value => .set object.bare name.bare value.bare
  | .this _ keyword => .this 0 keyword.bare

def Expr.allBare : List Expr → List Expr
  | [] => []
  | e :: rest => e.bare :: Expr.allBare rest

end

mutual

def Stmt.bare : Stmt → Stmt
  | .expression value => .expression value.bare
  | .print value => .print value.bare
  | .var name initializer => .var name.bare (initializer.map Expr.bare)
  | .block body => .block (Stmt.allBare body)
  | .branch condition consequent none => .branch condition.bare consequent.bare none
  | .branch condition consequent (some alternative) =>
    .branch condition.bare consequent.bare (some alternative.bare)
  | .loop condition body => .loop condition.bare body.bare
  | .function declaration => .function declaration.bare
  | .ret keyword value => .ret keyword.bare (value.map Expr.bare)
  | .classDecl name methods => .classDecl name.bare (FunctionDecl.allBare methods)

def Stmt.allBare : List Stmt → List Stmt
  | [] => []
  | s :: rest => s.bare :: Stmt.allBare rest

def FunctionDecl.bare : FunctionDecl → FunctionDecl
  | ⟨name, parameters, body⟩ => ⟨name.bare, parameters.map Token.bare, Stmt.allBare body⟩

def FunctionDecl.allBare : List FunctionDecl → List FunctionDecl
  | [] => []
  | f :: rest => f.bare :: FunctionDecl.allBare rest

end

theorem Constant.form_inf : (Constant.number (1 / 0)).form = "inf" := by
  decide +kernel

theorem Constant.form_bare (c : Constant) : c.bare.form = c.form := by
  cases c with
  | number x =>
    rw [bare]
    split
    next infinite => rw [infinite, Constant.form_inf, Expr.form]
    next => rw [Expr.form]
  | nil | boolean | string => rw [bare, Expr.form]

mutual

theorem Expr.form_bare : (e : Expr) → e.bare.form = e.form
  | .constant c => by rw [Expr.bare, Expr.form, c.form_bare]
  | .read _ _ | .this _ _ => by simp only [Expr.bare, Expr.form, Token.bare]
  | .group part | .unary _ part | .assign _ _ part | .get part _ => by
    simp only [Expr.bare, Expr.form, Token.bare, part.form_bare]
  | .binary left _ right | .logical left _ right | .set left _ right => by
    simp only [Expr.bare, Expr.form, Token.bare, left.form_bare, right.form_bare]
  | .call callee _ arguments => by
    simp only [Expr.bare, Expr.form, callee.form_bare, Expr.forms_bare arguments]

theorem Expr.forms_bare : (list : List Expr) → Expr.forms (Expr.allBare list) = Expr.forms list
  | [] => by rw [Expr.allBare]
  | e :: rest => by rw [Expr.allBare, Expr.forms, Expr.forms, e.form_bare, Expr.forms_bare rest]

end

mutual

theorem Stmt.form_bare : (s : Stmt) → s.bare.form = s.form
  | .expression value | .print value => by simp only [Stmt.bare, Stmt.form, value.form_bare]
  | .var _ none | .ret _ none => by
    simp only [Stmt.bare, Stmt.form, Token.bare, Option.map_none]
  | .var _ (some value) | .ret _ (some value) => by
    simp only [Stmt.bare, Stmt.form, Token.bare, Option.map_some, value.form_bare]
  | .block body => by simp only [Stmt.bare, Stmt.form, Stmt.forms_bare body]
  | .branch condition body none | .loop condition body => by
    simp only [Stmt.bare, Stmt.form, condition.form_bare, body.form_bare]
  | .branch condition consequent (some alternative) => by
    simp only [Stmt.bare, Stmt.form, condition.form_bare, consequent.form_bare,
      alternative.form_bare]
  | .function declaration => by simp only [Stmt.bare, Stmt.form, declaration.form_bare]
  | .classDecl _ methods => by
    simp only [Stmt.bare, Stmt.form, Token.bare, FunctionDecl.forms_bare methods]

theorem Stmt.forms_bare : (list : List Stmt) → Stmt.forms (Stmt.allBare list) = Stmt.forms list
  | [] => by rw [Stmt.allBare]
  | s :: rest => by rw [Stmt.allBare, Stmt.forms, Stmt.forms, s.form_bare, Stmt.forms_bare rest]

theorem FunctionDecl.form_bare (head : String) : (f : FunctionDecl) → f.bare.form head = f.form head
  | ⟨_, parameters, body⟩ => by
    simp only [FunctionDecl.bare, FunctionDecl.form, Token.bare, List.map_map, Function.comp_def,
      Stmt.forms_bare body]

theorem FunctionDecl.forms_bare : (list : List FunctionDecl) →
    FunctionDecl.forms (FunctionDecl.allBare list) = FunctionDecl.forms list
  | [] => by rw [FunctionDecl.allBare]
  | f :: rest => by
    rw [FunctionDecl.allBare, FunctionDecl.forms, FunctionDecl.forms, f.form_bare,
      FunctionDecl.forms_bare rest]

end

end Lox
