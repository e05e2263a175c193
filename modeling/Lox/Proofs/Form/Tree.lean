import Lox.Proofs.Form.Bare
import Lox.Proofs.Form.Text

/-! Trees as nested forms. -/
namespace Lox

/-- A list of forms behind a word. -/
def Form.node (head : String) (parts : List Form) : Form := .list (.word head :: parts)

def Constant.nested : Constant → Form
  | .nil => .word "nil"
  | .boolean b => .word (toString b)
  | .number x => if x = 1 / 0 then .word "inf" else .number x
  | .string s => .quoted s

mutual

def Expr.nested : Expr → Form
  | .constant c => c.nested
  | .group inner => .node "group" [inner.nested]
  | .unary operator operand => .node operator.lexeme [operand.nested]
  | .binary left operator right => .node operator.lexeme [left.nested, right.nested]
  | .logical left operator right => .node operator.lexeme [left.nested, right.nested]
  | .read _ name => .word name.lexeme
  | .assign _ name value => .node "=" [.word name.lexeme, value.nested]
  | .call callee _ arguments => .node "call" (callee.nested :: Expr.allNested arguments)
  | .get object name => .node "." [object.nested, .word name.lexeme]
  | .set object name value => .node ".=" [object.nested, .word name.lexeme, value.nested]
  | .this _ _ => .word "this"

def Expr.allNested : List Expr → List Form
  | [] => []
  | e :: rest => e.nested :: Expr.allNested rest

end

mutual

def Stmt.nested : Stmt → Form
  | .expression value => .node ";" [value.nested]
  | .print value => .node "print" [value.nested]
  | .var name none => .node "var" [.word name.lexeme]
  | .var name (some initializer) => .node "var" [.word name.lexeme, initializer.nested]
  | .block body => .node "block" (Stmt.allNested body)
  | .branch condition consequent none => .node "if" [condition.nested, consequent.nested]
  | .branch condition consequent (some alternative) =>
    .node "if" [condition.nested, consequent.nested, alternative.nested]
  | .loop condition body => .node "while" [condition.nested, body.nested]
  | .function declaration => declaration.nested "fun"
  | .ret _ none => .node "return" []
  | .ret _ (some value) => .node "return" [value.nested]
  | .classDecl name methods => .node "class" (.word name.lexeme :: FunctionDecl.allNested methods)

def Stmt.allNested : List Stmt → List Form
  | [] => []
  | s :: rest => s.nested :: Stmt.allNested rest

def FunctionDecl.nested (head : String) : FunctionDecl → Form
  | ⟨name, parameters, body⟩ =>
    .node head (.word name.lexeme :: .list (parameters.map fun t => .word t.lexeme) ::
      Stmt.allNested body)

def FunctionDecl.allNested : List FunctionDecl → List Form
  | [] => []
  | f :: rest => f.nested "method" :: FunctionDecl.allNested rest

end

/-- The text of a list of forms is made of theirs. -/
theorem form_toList {parts : List String} {forms : List Form}
    (same : parts.map String.toList = forms.map Form.text) :
    (form parts).toList = (Form.list forms).text := by
  have behind (f : Form) (rest : List Form) : [' '].intercalate ((f :: rest).map Form.text) ++ [')'] =
      f.text ++ Form.closing rest := by
    induction rest generalizing f with
    | nil => simp [Form.closing]
    | cons g rest ih =>
      rw [List.map_cons, List.map_cons, List.intercalate_cons_cons, List.append_assoc, ← List.map_cons,
        ih, Form.closing]
      simp
  simp only [form, String.toList_append, String.toList_intercalate, same]
  cases forms with
  | nil => rfl
  | cons f rest => 
    rw [Form.text, ← behind]
    simp

theorem node_toList {head : String} {parts : List String} {forms : List Form}
    (same : parts.map String.toList = forms.map Form.text) :
    (form (head :: parts)).toList = (Form.node head forms).text :=
  form_toList (by rw [List.map_cons, List.map_cons, same, Form.text])

theorem Constant.form_toList (c : Constant) : c.form.toList = c.nested.text := by
  cases c with
  | number x =>
    rw [Constant.nested]
    split
    next infinite => rw [infinite, Constant.form_inf, Form.text]
    next => rw [Constant.form, Form.text]
  | string s => simp [Constant.form, Constant.nested, Form.text]
  | nil | boolean => simp [Constant.form, Constant.nested, Form.text]

mutual

theorem Expr.form_toList : (e : Expr) → e.form.toList = e.nested.text
  | .constant c => by rw [Expr.form, Expr.nested, c.form_toList]
  | .read _ _ | .this _ _ => by rw [Expr.form, Expr.nested, Form.text]
  | .group part | .unary _ part => by
    rw [Expr.form, Expr.nested]
    exact node_toList (by simp [part.form_toList])
  | .assign _ _ part | .get part _ => by
    rw [Expr.form, Expr.nested]
    exact node_toList (by simp [part.form_toList, Form.text])
  | .binary left _ right | .logical left _ right => by
    rw [Expr.form, Expr.nested]
    exact node_toList (by simp [left.form_toList, right.form_toList])
  | .set left _ right => by
    rw [Expr.form, Expr.nested]
    exact node_toList (by simp [left.form_toList, right.form_toList, Form.text])
  | .call callee _ arguments => by
    rw [Expr.form, Expr.nested]
    exact node_toList (by simp [callee.form_toList, Expr.forms_toList arguments])

theorem Expr.forms_toList : (list : List Expr) →
    (Expr.forms list).map String.toList = (Expr.allNested list).map Form.text
  | [] => by
    rw [Expr.forms, Expr.allNested]
    rfl
  | e :: rest => by
    rw [Expr.forms, Expr.allNested, List.map_cons, List.map_cons, e.form_toList,
      Expr.forms_toList rest]

end

mutual

theorem Stmt.form_toList : (s : Stmt) → s.form.toList = s.nested.text
  | .expression value | .print value | .ret _ (some value) => by
    rw [Stmt.form, Stmt.nested]
    exact node_toList (by simp [value.form_toList])
  | .ret _ none => by
    rw [Stmt.form, Stmt.nested]
    exact node_toList rfl
  | .var name none => by
    rw [Stmt.form, Stmt.nested]
    exact node_toList (by simp [Form.text])
  | .var name (some value) => by
    rw [Stmt.form, Stmt.nested]
    exact node_toList (by simp [value.form_toList, Form.text])
  | .block body => by
    rw [Stmt.form, Stmt.nested]
    exact node_toList (Stmt.forms_toList body)
  | .branch condition consequent none | .loop condition consequent => by
    rw [Stmt.form, Stmt.nested]
    exact node_toList (by simp [condition.form_toList, consequent.form_toList])
  | .branch condition consequent (some alternative) => by
    rw [Stmt.form, Stmt.nested]
    exact node_toList (by
      simp [condition.form_toList, consequent.form_toList, alternative.form_toList])
  | .function declaration => by
    rw [Stmt.form, Stmt.nested]
    exact declaration.form_toList "fun"
  | .classDecl name methods => by
    rw [Stmt.form, Stmt.nested]
    exact node_toList (by simp [FunctionDecl.forms_toList methods, Form.text])

theorem Stmt.forms_toList : (list : List Stmt) →
    (Stmt.forms list).map String.toList = (Stmt.allNested list).map Form.text
  | [] => by
    rw [Stmt.forms, Stmt.allNested]
    rfl
  | s :: rest => by
    rw [Stmt.forms, Stmt.allNested, List.map_cons, List.map_cons, s.form_toList,
      Stmt.forms_toList rest]

theorem FunctionDecl.form_toList (head : String) : (f : FunctionDecl) →
    (f.form head).toList = (f.nested head).text
  | ⟨name, parameters, body⟩ => by
    have list : (Lox.form (parameters.map (·.lexeme))).toList =
        (Form.list (parameters.map fun t => .word t.lexeme)).text :=
      Lox.form_toList (by simp [Function.comp_def, Form.text])
    rw [FunctionDecl.form, FunctionDecl.nested]
    exact node_toList (by simp [list, Stmt.forms_toList body, Form.text])

theorem FunctionDecl.forms_toList : (list : List FunctionDecl) →
    (FunctionDecl.forms list).map String.toList = (FunctionDecl.allNested list).map Form.text
  | [] => by
    rw [FunctionDecl.forms, FunctionDecl.allNested]
    rfl
  | f :: rest => by
    rw [FunctionDecl.forms, FunctionDecl.allNested, List.map_cons, List.map_cons,
      f.form_toList "method", FunctionDecl.forms_toList rest]

end

end Lox
