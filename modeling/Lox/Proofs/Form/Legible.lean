import Lox.Proofs.Form.Tree
import Lox.Proofs.Grammar.Shape
import Lox.Proofs.Grammar.Writable

/-! The forms of a program from a source text are plain: its names and operators are words, and no
constant of it is written like something else. -/
namespace Lox

namespace Form

theorem solid_of_isWordPart {c : Char} (part : Piece.isWordPart c = true) : c ∉ separators := by
  intro member
  simp only [separators, List.mem_cons, List.not_mem_nil, or_false] at member
  rcases member with rfl | rfl | rfl | rfl <;> revert part <;> decide

/-- What begins like a word and goes on like one. -/
theorem isWord_cons {c : Char} {rest : List Char} (start : Piece.isWordStart c = true)
    (parts : ∀ d ∈ rest, Piece.isWordPart d = true) : IsWord (c :: rest) := by
  refine ⟨congrArg some (Piece.plain_of_wordStart start).2.2.2, fun d member => ?_⟩
  · rcases List.mem_cons.1 member with rfl | member
    · exact solid_of_isWordPart (by rw [Piece.isWordPart, start, Bool.true_or])
    · exact solid_of_isWordPart (parts d member)

theorem isWord_symbols : ∀ entry ∈ Piece.symbols, entry.1 ∉ [.leftParen, .rightParen] →
    IsWord entry.2 := by
  decide +kernel

/-- The texts of all tokens but strings, numbers and parentheses are words. -/
theorem isWord_of_written {kind : TokenKind} {text : List Char}
    (written : Piece.Written (.token kind) text)
    (other : kind ∉ [.leftParen, .rightParen, .string, .number]) : IsWord text := by
  cases written with
  | symbol among =>
    refine isWord_symbols _ among fun parenthesis => other ?_
    exact List.mem_append_left [.string, .number] parenthesis
  | string | integer | decimal => simp at other
  | @keyword k text spelled =>
    obtain ⟨c, rest, letters, start, parts⟩ := k.spelling_word
    rw [← spelled, String.toList_ofList] at letters
    rw [letters]
    exact isWord_cons start parts
  | identifier start parts => exact isWord_cons start parts

theorem plain_node {head : String} {parts : List Form} (word : IsWord head.toList)
    (plain : AllPlain parts) : (node head parts).Plain := by
  rw [node, Plain, AllPlain, Plain]
  exact ⟨word, plain⟩

theorem plain_words {names : List Token} (words : ∀ t ∈ names, IsWord t.lexeme.toList) :
    AllPlain (names.map fun t => .word t.lexeme) := by
  induction names with
  | nil => simp [AllPlain]
  | cons t rest ih =>
    rw [List.map_cons, AllPlain, Plain]
    exact ⟨words t (by simp), ih fun u member => words u (by simp [member])⟩

end Form

open Form (IsWord plain_node plain_words)

theorem Token.Is.isWord {t : Token} {kinds : List TokenKind} (is : t.Is Token.Genuine kinds)
    (others : ∀ kind ∈ kinds, kind ∉ [.leftParen, .rightParen, .string, .number] := by decide) :
    IsWord t.lexeme.toList :=
  Form.isWord_of_written is.property.written (others t.kind is.kind)

theorem Constant.plain {c : Constant} (writable : c.Writable) : c.nested.Plain := by
  cases c with
  | nil =>
    rw [nested, Form.Plain]
    decide +kernel
  | boolean b =>
    rw [nested, Form.Plain]
    cases b <;> decide +kernel
  | number x =>
    rw [nested]
    split
    next =>
      rw [Form.Plain]
      decide +kernel
    next finite =>
      rw [Form.Plain]
      exact ⟨writable, (Decimal.Unsigned.eq_or_isFinite writable).resolve_left finite⟩
  | string s =>
    rw [nested, Form.Plain]
    exact writable

mutual

theorem Expr.plain : (e : Expr) → e.Shaped Token.Genuine → e.Writable → e.nested.Plain
  | .constant c, _, writable => by
    rw [Expr.nested]
    exact Constant.plain writable
  | .read _ name, shaped, _ => by
    rw [Expr.nested, Form.Plain]
    exact shaped.isWord
  | .this _ _, _, _ => by
    rw [Expr.nested, Form.Plain]
    decide +kernel
  | .group inner, shaped, writable => by
    rw [Expr.nested]
    exact plain_node (by decide +kernel) ⟨inner.plain shaped writable, trivial⟩
  | .unary operator operand, shaped, writable => by
    rw [Expr.nested]
    exact plain_node shaped.1.isWord ⟨operand.plain shaped.2 writable, trivial⟩
  | .binary left operator right, shaped, writable
  | .logical left operator right, shaped, writable => by
    rw [Expr.nested]
    exact plain_node shaped.1.isWord ⟨left.plain shaped.2.1 writable.1,
      right.plain shaped.2.2 writable.2, trivial⟩
  | .assign _ name value, shaped, writable => by
    rw [Expr.nested]
    exact plain_node (by decide +kernel) ⟨shaped.1.isWord, value.plain shaped.2 writable, trivial⟩
  | .call callee _ arguments, shaped, writable => by
    rw [Expr.nested]
    exact plain_node (by decide +kernel) ⟨callee.plain shaped.2.2.1 writable.1,
      Expr.allPlain arguments shaped.2.2.2 writable.2⟩
  | .get object name, shaped, writable => by
    rw [Expr.nested]
    exact plain_node (by decide +kernel) ⟨object.plain shaped.2 writable, shaped.1.isWord, trivial⟩
  | .set object name value, shaped, writable => by
    rw [Expr.nested]
    exact plain_node (by decide +kernel) ⟨object.plain shaped.2.1 writable.1, shaped.1.isWord,
      value.plain shaped.2.2 writable.2, trivial⟩

theorem Expr.allPlain : (list : List Expr) → Expr.AllShaped Token.Genuine list →
    Expr.AllWritable list → Form.AllPlain (Expr.allNested list)
  | [], _, _ => by
    rw [Expr.allNested, Form.AllPlain]
    trivial
  | e :: rest, shaped, writable => by
    rw [Expr.allNested, Form.AllPlain]
    exact ⟨e.plain shaped.1 writable.1, Expr.allPlain rest shaped.2 writable.2⟩

end

mutual

theorem Stmt.plain : (s : Stmt) → s.Shaped Token.Genuine → s.Writable → s.nested.Plain
  | .expression value, shaped, writable | .print value, shaped, writable => by
    rw [Stmt.nested]
    exact plain_node (by decide +kernel) ⟨value.plain shaped writable, trivial⟩
  | .var name none, shaped, _ => by
    rw [Stmt.nested]
    exact plain_node (by decide +kernel) ⟨shaped.1.isWord, trivial⟩
  | .var name (some value), shaped, writable => by
    rw [Stmt.nested]
    exact plain_node (by decide +kernel) ⟨shaped.1.isWord,
      value.plain (shaped.2 value rfl) (writable value rfl), trivial⟩
  | .block body, shaped, writable => by
    rw [Stmt.nested]
    exact plain_node (by decide +kernel) (Stmt.allPlain body shaped writable)
  | .branch condition consequent none, shaped, writable
  | .loop condition consequent, shaped, writable => by
    rw [Stmt.nested]
    exact plain_node (by decide +kernel) ⟨condition.plain shaped.1 writable.1,
      consequent.plain shaped.2 writable.2, trivial⟩
  | .branch condition consequent (some alternative), shaped, writable => by
    rw [Stmt.nested]
    exact plain_node (by decide +kernel) ⟨condition.plain shaped.1 writable.1,
      consequent.plain shaped.2.1 writable.2.1, alternative.plain shaped.2.2 writable.2.2, trivial⟩
  | .function declaration, shaped, writable => by
    rw [Stmt.nested]
    exact declaration.plain "fun" (by decide +kernel) shaped writable
  | .ret _ none, _, _ => by
    rw [Stmt.nested]
    exact plain_node (by decide +kernel) trivial
  | .ret _ (some value), shaped, writable => by
    rw [Stmt.nested]
    exact plain_node (by decide +kernel)
      ⟨value.plain (shaped.2 value rfl) (writable value rfl), trivial⟩
  | .classDecl name methods, shaped, writable => by
    rw [Stmt.nested]
    exact plain_node (by decide +kernel)
      ⟨shaped.1.isWord, FunctionDecl.allPlain methods shaped.2 writable⟩

theorem Stmt.allPlain : (list : List Stmt) → Stmt.AllShaped Token.Genuine list →
    Stmt.AllWritable list → Form.AllPlain (Stmt.allNested list)
  | [], _, _ => by
    rw [Stmt.allNested, Form.AllPlain]
    trivial
  | s :: rest, shaped, writable => by
    rw [Stmt.allNested, Form.AllPlain]
    exact ⟨s.plain shaped.1 writable.1, Stmt.allPlain rest shaped.2 writable.2⟩

theorem FunctionDecl.plain (head : String) (word : IsWord head.toList) : (f : FunctionDecl) →
    f.Shaped Token.Genuine → f.Writable → (f.nested head).Plain
  | ⟨name, parameters, body⟩, shaped, writable => by
    rw [FunctionDecl.nested]
    exact plain_node word ⟨shaped.1.isWord,
      plain_words fun t member => (shaped.2.1 t member).isWord,
      Stmt.allPlain body shaped.2.2.2 writable⟩

theorem FunctionDecl.allPlain : (list : List FunctionDecl) →
    FunctionDecl.AllShaped Token.Genuine list → FunctionDecl.AllWritable list →
      Form.AllPlain (FunctionDecl.allNested list)
  | [], _, _ => by
    rw [FunctionDecl.allNested, Form.AllPlain]
    trivial
  | f :: rest, shaped, writable => by
    rw [FunctionDecl.allNested, Form.AllPlain]
    exact ⟨f.plain "method" (by decide +kernel) shaped.1 writable.1,
      FunctionDecl.allPlain rest shaped.2 writable.2⟩

end

end Lox
