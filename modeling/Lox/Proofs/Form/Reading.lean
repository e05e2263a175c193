import Lox.Proofs.Form.Legible
import Lox.Proofs.Token.Layout

/-! Forms read back. A lexeme tells its token, a head and the number of its parts tell the node, and so
the nested form of a program is read as the bare program again. -/
namespace Lox

/-- The first token of a text. -/
def Token.read (text : String) : Token := ((scan text).1.head?.getD (.endOfFile 0)).bare

theorem Token.Genuine.read {t : Token} (genuine : t.Genuine) : Token.read t.lexeme = t.bare := by
  obtain ⟨reached, told⟩ := Item.scanFrom_token genuine 1 [] (by simp)
  rw [List.append_nil, ← Item.scan_eq] at told
  simp [Token.read, scan, told, Item.token?, Token.bare]

namespace Form

mutual

/-- The expression that has the form. -/
def expr : Form → Expr
  | .word "nil" => .constant .nil
  | .word "true" => .constant (.boolean true)
  | .word "false" => .constant (.boolean false)
  | .word "this" => .this 0 (Token.read "this")
  | .word name => .read 0 (Token.read name)
  | .quoted content => .constant (.string content)
  | .number value => .constant (.number value)
  | .list [.word "group", inner] => .group inner.expr
  | .list (.word "call" :: callee :: arguments) =>
    .call callee.expr (Token.read ")") (Form.exprs arguments)
  | .list [.word "=", .word name, value] => .assign 0 (Token.read name) value.expr
  | .list [.word ".", object, .word name] => .get object.expr (Token.read name)
  | .list [.word ".=", object, .word name, value] =>
    .set object.expr (Token.read name) value.expr
  | .list [.word operator, operand] => .unary (Token.read operator) operand.expr
  | .list [.word "and", left, right] => .logical left.expr (Token.read "and") right.expr
  | .list [.word "or", left, right] => .logical left.expr (Token.read "or") right.expr
  | .list [.word operator, left, right] => .binary left.expr (Token.read operator) right.expr
  | .list _ => .constant .nil

def exprs : List Form → List Expr
  | [] => []
  | f :: rest => f.expr :: Form.exprs rest

end

def parameter : Form → Token
  | .word name => Token.read name
  | _ => .endOfFile 0

mutual

/-- The statement that has the form. -/
def stmt : Form → Stmt
  | .list [.word ";", value] => .expression value.expr
  | .list [.word "print", value] => .print value.expr
  | .list [.word "var", .word name] => .var (Token.read name) none
  | .list [.word "var", .word name, value] => .var (Token.read name) (some value.expr)
  | .list (.word "block" :: body) => .block (Form.stmts body)
  | .list [.word "if", condition, consequent] => .branch condition.expr consequent.stmt none
  | .list [.word "if", condition, consequent, alternative] =>
    .branch condition.expr consequent.stmt (some alternative.stmt)
  | .list [.word "while", condition, body] => .loop condition.expr body.stmt
  | .list (.word "fun" :: parts) => .function (Form.function parts)
  | .list [.word "return"] => .ret (Token.read "return") none
  | .list [.word "return", value] => .ret (Token.read "return") (some value.expr)
  | .list (.word "class" :: .word name :: rest) => .classDecl (Token.read name) (Form.methods rest)
  | _ => .block []

def stmts : List Form → List Stmt
  | [] => []
  | f :: rest => f.stmt :: Form.stmts rest

/-- What stands behind `fun` or `method`. -/
def function : List Form → FunctionDecl
  | .word name :: .list parameters :: body =>
    ⟨Token.read name, parameters.map parameter, Form.stmts body⟩
  | _ => default

def methods : List Form → List FunctionDecl
  | .list (_ :: parts) :: rest => Form.function parts :: Form.methods rest
  | _ => []

end

end Form

/-- Names are not keywords. -/
theorem Form.expr_name {name : String} (other : Keyword.ofSpelling? name = none) :
    (Form.word name).expr = .read 0 (Token.read name) := by
  have apart (k : Keyword) : name ≠ k.spelling := fun same => by
    rw [Keyword.ofSpelling?_eq_some_iff.2 same] at other
    cases other
  rw [Form.expr]
  · exact apart .nilWord
  · exact apart .trueWord
  · exact apart .falseWord
  · exact apart .thisWord

theorem Form.expr_unary {operator : String} (among : operator ∈ ["!", "-"]) (operand : Form) :
    (Form.node operator [operand]).expr = .unary (Token.read operator) operand.expr := by
  simp only [List.mem_cons, List.not_mem_nil, or_false] at among
  rcases among with rfl | rfl <;> rfl

theorem Form.expr_binary {operator : String}
    (among : operator ∈ ["!=", "==", ">", ">=", "<", "<=", "-", "+", "/", "*"]) (left right : Form) :
    (Form.node operator [left, right]).expr =
      .binary left.expr (Token.read operator) right.expr := by
  simp only [List.mem_cons, List.not_mem_nil, or_false] at among
  rcases among with rfl | rfl | rfl | rfl | rfl | rfl | rfl | rfl | rfl | rfl <;> rfl

theorem Form.expr_logical {operator : String} (among : operator ∈ ["and", "or"])
    (left right : Form) : (Form.node operator [left, right]).expr =
      .logical left.expr (Token.read operator) right.expr := by
  simp only [List.mem_cons, List.not_mem_nil, or_false] at among
  rcases among with rfl | rfl <;> rfl

/-- Punctuation is written in one way. -/
theorem Piece.Written.mem_symbols {kind : TokenKind} {text : List Char}
    (written : Written (.token kind) text) (among : kind ∈ symbols.map Prod.fst) :
    (kind, text) ∈ symbols := by
  cases written with
  | symbol listed => exact listed
  | string | integer | decimal | keyword | identifier => simp [symbols] at among

namespace Token.Is

variable {t : Token}

theorem read {kinds : List TokenKind} (is : t.Is Genuine kinds) : Token.read t.lexeme = t.bare :=
  is.property.read

theorem expr_name (is : t.Is Genuine [.identifier]) :
    (Form.word t.lexeme).expr = .read 0 t.bare := by
  rw [Form.expr_name (is.property.written.spelled.identifier is.kind_eq), is.read]

theorem spelling {k : Keyword} (is : t.Is Genuine [.keyword k]) : t.lexeme = k.spelling :=
  is.property.written.spelled.keyword k is.kind_eq

theorem lexeme_logical (is : t.Is Genuine [.keyword .andWord, .keyword .orWord]) :
    t.lexeme ∈ ["and", "or"] := by
  have among := is.kind
  simp only [List.mem_cons, List.not_mem_nil, or_false] at among
  rcases among with kind | kind <;> rw [is.property.written.spelled.keyword _ kind] <;> decide

/-- The spelling of an operator is in the table. -/
theorem lexeme_mem {kinds : List TokenKind} (is : t.Is Genuine kinds) {lexemes : List String}
    (symbols : ∀ kind ∈ kinds, kind ∈ Piece.symbols.map Prod.fst)
    (table : ∀ entry ∈ Piece.symbols, entry.1 ∈ kinds → String.ofList entry.2 ∈ lexemes) :
    t.lexeme ∈ lexemes := by
  have written := is.property.written.mem_symbols (symbols t.kind is.kind)
  have listed := table _ written is.kind
  rwa [String.ofList_toList] at listed

theorem lexeme_unary (is : t.Is Genuine [.bang, .minus]) : t.lexeme ∈ ["!", "-"] :=
  is.lexeme_mem (by decide) (by decide)

theorem lexeme_binary (is : t.Is Genuine binaryKinds) :
    t.lexeme ∈ ["!=", "==", ">", ">=", "<", "<=", "-", "+", "/", "*"] :=
  is.lexeme_mem (by decide) (by decide)

theorem lexeme_closing (is : t.Is Genuine [.rightParen]) : t.lexeme = ")" :=
  List.mem_singleton.1 (is.lexeme_mem (by decide) (by decide))

end Token.Is

theorem Token.read_inf : Token.read "inf" = ⟨.identifier, "inf", none, 0⟩ := by
  decide +kernel

theorem Constant.expr_nested (c : Constant) : c.nested.expr = c.bare := by
  cases c with
  | number x =>
    rw [nested, bare]
    split
    next => rw [Form.expr_name (by decide), Token.read_inf]
    next => rw [Form.expr]
  | boolean b => cases b <;> rfl
  | nil | string => rfl

-- Once the parts are read, the head and their number decide, which is a matter of evaluation unless the
-- head is a token of the tree.
mutual

/-- The form of an expression is read as the bare expression. -/
theorem Expr.expr_nested : (e : Expr) → e.Shaped Token.Genuine → e.nested.expr = e.bare
  | .constant c, _ => by rw [Expr.nested, Expr.bare, c.expr_nested]
  | .read _ name, shaped => by
    rw [Expr.nested, Expr.bare, shaped.expr_name]
  | .this _ keyword, shaped => by
    rw [Expr.nested, Expr.bare, ← shaped.read, shaped.spelling]
    rfl
  | .group inner, shaped => by
    rw [Expr.nested, Expr.bare, ← inner.expr_nested shaped]
    rfl
  | .unary operator operand, shaped => by
    rw [Expr.nested, Expr.bare, Form.expr_unary shaped.1.lexeme_unary, shaped.1.read,
      operand.expr_nested shaped.2]
  | .binary left operator right, shaped => by
    rw [Expr.nested, Expr.bare, Form.expr_binary shaped.1.lexeme_binary, shaped.1.read,
      left.expr_nested shaped.2.1, right.expr_nested shaped.2.2]
  | .logical left operator right, shaped => by
    rw [Expr.nested, Expr.bare, Form.expr_logical shaped.1.lexeme_logical, shaped.1.read,
      left.expr_nested shaped.2.1, right.expr_nested shaped.2.2]
  | .assign _ name value, shaped => by
    rw [Expr.nested, Expr.bare, ← shaped.1.read, ← value.expr_nested shaped.2]
    rfl
  | .call callee closing arguments, shaped => by
    rw [Expr.nested, Expr.bare, ← shaped.1.read, shaped.1.lexeme_closing,
      ← callee.expr_nested shaped.2.2.1, ← Expr.exprs_nested arguments shaped.2.2.2]
    rfl
  | .get object name, shaped => by
    rw [Expr.nested, Expr.bare, ← shaped.1.read, ← object.expr_nested shaped.2]
    rfl
  | .set object name value, shaped => by
    rw [Expr.nested, Expr.bare, ← shaped.1.read, ← object.expr_nested shaped.2.1,
      ← value.expr_nested shaped.2.2]
    rfl

theorem Expr.exprs_nested : (list : List Expr) → Expr.AllShaped Token.Genuine list →
    Form.exprs (Expr.allNested list) = Expr.allBare list
  | [], _ => rfl
  | e :: rest, shaped => by
    rw [Expr.allNested, Expr.allBare, Form.exprs, e.expr_nested shaped.1,
      Expr.exprs_nested rest shaped.2]

end

mutual

/-- The form of a statement is read as the bare statement. -/
theorem Stmt.stmt_nested : (s : Stmt) → s.Shaped Token.Genuine → s.nested.stmt = s.bare
  | .expression value, shaped | .print value, shaped => by
    rw [Stmt.nested, Stmt.bare, ← value.expr_nested shaped]
    rfl
  | .var name none, shaped => by
    rw [Stmt.nested, Stmt.bare, ← shaped.1.read]
    rfl
  | .var name (some value), shaped => by
    rw [Stmt.nested, Stmt.bare, ← shaped.1.read, Option.map_some,
      ← value.expr_nested (shaped.2 value rfl)]
    rfl
  | .block body, shaped => by
    rw [Stmt.nested, Stmt.bare, ← Stmt.stmts_nested body shaped]
    rfl
  | .branch condition consequent none, shaped | .loop condition consequent, shaped => by
    rw [Stmt.nested, Stmt.bare, ← condition.expr_nested shaped.1, ← consequent.stmt_nested shaped.2]
    rfl
  | .branch condition consequent (some alternative), shaped => by
    rw [Stmt.nested, Stmt.bare, ← condition.expr_nested shaped.1,
      ← consequent.stmt_nested shaped.2.1, ← alternative.stmt_nested shaped.2.2]
    rfl
  | .function declaration, shaped => by
    obtain ⟨parts, written, read⟩ := declaration.function_nested "fun" shaped
    rw [Stmt.nested, Stmt.bare, written, ← read]
    rfl
  | .ret keyword none, shaped => by
    rw [Stmt.nested, Stmt.bare, ← shaped.1.read, shaped.1.spelling]
    rfl
  | .ret keyword (some value), shaped => by
    rw [Stmt.nested, Stmt.bare, ← shaped.1.read, shaped.1.spelling, Option.map_some,
      ← value.expr_nested (shaped.2 value rfl)]
    rfl
  | .classDecl name methods, shaped => by
    rw [Stmt.nested, Stmt.bare, ← shaped.1.read, ← FunctionDecl.methods_nested methods shaped.2]
    rfl

theorem Stmt.stmts_nested : (list : List Stmt) → Stmt.AllShaped Token.Genuine list →
    Form.stmts (Stmt.allNested list) = Stmt.allBare list
  | [], _ => rfl
  | s :: rest, shaped => by
    rw [Stmt.allNested, Stmt.allBare, Form.stmts, s.stmt_nested shaped.1,
      Stmt.stmts_nested rest shaped.2]

theorem FunctionDecl.function_nested (head : String) : (f : FunctionDecl) →
    f.Shaped Token.Genuine → ∃ parts, f.nested head = .node head parts ∧
      Form.function parts = f.bare
  | ⟨name, parameters, body⟩, shaped => by
    have names : (parameters.map fun t => Form.word t.lexeme).map Form.parameter =
        parameters.map Token.bare := by
      rw [List.map_map]
      exact List.map_congr_left fun t member => (shaped.2.1 t member).read
    refine ⟨_, by rw [FunctionDecl.nested], ?_⟩
    rw [Form.function, names, shaped.1.read, Stmt.stmts_nested body shaped.2.2.2, FunctionDecl.bare]

theorem FunctionDecl.methods_nested : (list : List FunctionDecl) →
    FunctionDecl.AllShaped Token.Genuine list →
      Form.methods (FunctionDecl.allNested list) = FunctionDecl.allBare list
  | [], _ => rfl
  | f :: rest, shaped => by
    obtain ⟨parts, written, read⟩ := f.function_nested "method" shaped.1
    rw [FunctionDecl.allNested, FunctionDecl.allBare, written, Form.node, Form.methods, read,
      FunctionDecl.methods_nested rest shaped.2]

end

end Lox
