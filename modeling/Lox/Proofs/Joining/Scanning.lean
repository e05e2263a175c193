import Lox.Proofs.Token.Stopping
import Lox.Proofs.Token.Tiling

/-! A text, a newline, and another text. Only a string goes on over a newline, so if the strings of the
first text are closed it is cut as if nothing stood behind it, and then the second text is cut as if
nothing stood before it. -/
namespace Lox.Item

/-- Of a string that is not closed an item tells. -/
theorem not_unterminated {line : Nat} {c : Char} {rest : List Char}
    (closed : ∀ last, .error last .unterminated ∉ scanFrom line (c :: rest)) :
    (Piece.cut c rest).1.shape ≠ .unterminated := by
  intro unterminated
  apply closed (line + (Piece.cut c rest).1.newlines)
  rw [scanFrom]
  apply List.mem_append_left
  simp [Piece.item?, unterminated]

/-- Behind a text without a string that is not closed, and a newline, another text begins on the next
line. -/
theorem scanFrom_newline (line : Nat) (text after : List Char)
    (closed : ∀ last, .error last .unterminated ∉ scanFrom line text) : ∃ items,
      scanFrom line text = items ++ [.token (.endOfFile (line + text.count '\n'))] ∧
      scanFrom line (text ++ '\n' :: after) =
        items ++ scanFrom (line + text.count '\n' + 1) after := by
  induction line, text using scanFrom.induct with
  | case1 line =>
    refine ⟨[], by rw [scanFrom]; rfl, ?_⟩
    rw [List.nil_append, scanFrom, Piece.cut_blank (by decide)]
    rfl
  | case2 line c rest piece reached ih =>
    have stops : Piece.cut c (rest ++ '\n' :: after) =
        ((Piece.cut c rest).1, (Piece.cut c rest).2 ++ '\n' :: after) :=
      Piece.cut_stop (by decide) (not_unterminated closed) (.inl rfl)
    obtain ⟨items, alone, joined⟩ := ih fun last member => closed last (by
      rw [scanFrom]
      exact List.mem_append_right _ member)
    have lines : line + (c :: rest).count '\n' = reached + (Piece.cut c rest).2.count '\n' := by
      rw [← Piece.cut_append c rest, List.count_append, ← Nat.add_assoc]
      rfl
    refine ⟨(piece.item? reached).toList ++ items, ?_, ?_⟩
    · rw [scanFrom, lines, List.append_assoc]
      exact congrArg _ alone
    · rw [List.cons_append, scanFrom, stops, lines, List.append_assoc]
      exact congrArg _ joined

end Lox.Item
