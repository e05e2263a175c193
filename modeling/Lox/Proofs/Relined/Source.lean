import Lox.Proofs.Grammar.Source
import Lox.Proofs.Relined.Parsing
import Lox.Proofs.Token.Scanner

/-! Source texts whose tokens are read on other lines, or with other numbers free. -/
namespace Lox

variable {R : Nat → Nat → Prop}

/-- The same token or error on another line. -/
inductive Item.Relined (R : Nat → Nat → Prop) : Item → Item → Prop where
  | token : t.Relined R t' → Relined R (.token t) (.token t')
  | error : R line line' → Relined R (.error line e) (.error line' e)

namespace Item

theorem Relined.tokens {items items' : List Item} (all : List.Forall₂ (Relined R) items items') :
    List.Forall₂ (Token.Relined R) (items.filterMap token?) (items'.filterMap token?) := by
  induction all with
  | nil => exact .nil
  | cons first _ ih =>
    cases first with
    | token same => exact .cons same ih
    | error => exact ih

theorem Relined.diagnostics {items items' : List Item} (all : List.Forall₂ (Relined R) items items') :
    List.Forall₂ (Diagnostic.Relined R) (items.filterMap diagnostic?) (items'.filterMap diagnostic?) := by
  induction all with
  | nil => exact .nil
  | cons first _ ih =>
    cases first with
    | token => exact ih
    | error same => exact .cons (.lexical same) ih

/-- A text that begins on another line has all its items on lines as far away. -/
theorem scanFrom_relined (line line' : Nat) (text : List Char)
    (moved : ∀ k, R (line + k) (line' + k)) :
    List.Forall₂ (Relined R) (scanFrom line text) (scanFrom line' text) := by
  induction line, text using scanFrom.induct generalizing line' with
  | case1 line =>
    rw [scanFrom, scanFrom]
    exact .cons (.token ⟨rfl, rfl, rfl, moved 0⟩) .nil
  | case2 line c rest piece reached ih =>
    rw [scanFrom, scanFrom]
    have behind (k : Nat) : R (reached + k) (line' + piece.newlines + k) := by
      have further := moved (piece.newlines + k)
      rwa [← Nat.add_assoc, ← Nat.add_assoc] at further
    refine List.rel_append ?_ (ih _ behind)
    have here := behind 0
    rw [Piece.item?, Piece.item?]
    cases (Piece.cut c rest).1.shape with
    | blank | comment => exact .nil
    | token kind => exact .cons (.token ⟨rfl, rfl, rfl, here⟩) .nil
    | unterminated => exact .cons (.error here) .nil
    | unexpected =>
      cases (Piece.cut c rest).1.text with
      | nil => exact .nil
      | cons c _ => exact .cons (.error here) .nil

/-- The end of the file is among the tokens. -/
theorem tokens_ne_nil (line : Nat) (text : List Char) :
    (scanFrom line text).filterMap token? ≠ [] := by
  induction line, text using scanFrom.induct with
  | case1 line => simp [scanFrom, token?]
  | case2 line c rest piece reached ih =>
    rw [scanFrom, List.filterMap_append]
    exact List.append_ne_nil_of_right_ne_nil _ ih

end Item

/-- Texts with the same items on other lines are the same program, whatever numbers are free. -/
theorem compile_relined {source source' : String}
    (items : List.Forall₂ (Item.Relined R) (Item.scan source) (Item.scan source'))
    (fresh fresh' : Occurrence) :
    ProgramRelined R (compile source fresh).1 (compile source' fresh').1 := by
  have tokens : List.Forall₂ (Token.Relined R) (scan source).1 (scan source').1 :=
    Item.Relined.tokens items
  have lexical : List.Forall₂ (Diagnostic.Relined R) (scan source).2 (scan source').2 :=
    Item.Relined.diagnostics items
  have inhabited : (scan source).1 ≠ [] := by
    rw [scan, Item.scan_eq]
    exact Item.tokens_ne_nil 1 source.toList
  have parsed := parse_relined tokens inhabited fresh fresh'
  rw [compile_eq, compile_eq]
  generalize parse (scan source).1 fresh = r, parse (scan source').1 fresh' = r' at parsed ⊢
  generalize (scan source).2 = errors, (scan source').2 = errors' at lexical ⊢
  obtain ⟨result, next⟩ := r
  obtain ⟨result', next'⟩ := r'
  cases parsed with
  | error syntactic => exact .error (List.rel_append lexical syntactic)
  | ok same =>
    cases lexical with
    | nil => exact .ok same
    | cons first rest => exact .error (.cons first rest)

/-- If each line stands for itself, a text is the same program whatever numbers are free. -/
theorem compile_renumbered (stays : ∀ line, R line line) (source : String)
    (fresh fresh' : Occurrence) :
    ProgramRelined R (compile source fresh).1 (compile source fresh').1 := by
  apply compile_relined
  rw [Item.scan_eq]
  exact Item.scanFrom_relined 1 1 source.toList fun k => stays (1 + k)

end Lox
