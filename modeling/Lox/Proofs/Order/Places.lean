import Lox.Proofs.Order.Lines

/-! Lines counted in the source text. The scanner counts newlines in one place, as it passes a piece of
any shape, so the line of an item is told by what stands before it in the text: whether a newline
stands in a blank, behind a comment, inside a string or around an error makes no difference. -/
namespace Lox

namespace Piece

/-- A piece and all of the source text before it. -/
structure Placed where
  before : List Char
  piece : Piece
  deriving DecidableEq, Repr

/-- Blanks and comments are passed over. -/
def isTold (p : Piece) : Bool := p.shape ≠ .blank ∧ p.shape ≠ .comment

/-- The pieces of which an item tells, each with what stands before it, where some text stands before
them all. -/
def told : (before : List Char) → List Piece → List Placed
  | _, [] => []
  | before, p :: pieces =>
    let later := told (before ++ p.text) pieces
    if p.isTold then ⟨before, p⟩ :: later else later

/-- What an item tells of its piece. A token is on the line of its end, an unexpected character is on
the line it stands on, and a string that does not end is on the last line of the source. -/
inductive Marks (source : List Char) : Placed → Item → Prop
  | token {before : List Char} {p : Piece} {kind : TokenKind} {literal : Option Literal} :
      p.shape = .token kind →
      Marks source ⟨before, p⟩
        (.token ⟨kind, String.ofList p.text, literal, 1 + (before ++ p.text).count '\n'⟩)
  | unexpected {before : List Char} {c : Char} :
      Marks source ⟨before, ⟨.unexpected, [c]⟩⟩ (.error (1 + before.count '\n') (.unexpected c))
  | unterminated {before : List Char} {p : Piece} : p.shape = .unterminated →
      before ++ p.text = source →
      Marks source ⟨before, p⟩ (.error (1 + source.count '\n') .unterminated)

variable {before text : List Char} {pieces : List Piece}

theorem told_of_isTold {p : Piece} (tells : p.isTold = true) :
    told before (p :: pieces) = ⟨before, p⟩ :: told (before ++ p.text) pieces := by
  rw [told, if_pos tells]

theorem told_of_skipped {p : Piece} (skips : p.shape = .blank ∨ p.shape = .comment) :
    told before (p :: pieces) = told (before ++ p.text) pieces := by
  rw [told, if_neg]
  rcases skips with shape | shape <;> simp [isTold, shape]

/-- The source text has each piece told of where it is said to stand. -/
def StandIn (source : List Char) (spots : List Placed) : Prop :=
  ∀ spot ∈ spots, spot.before ++ spot.piece.text <+: source

theorem StandIn.told_cons {p : Piece} {rest : List Char}
    (later : StandIn (before ++ p.text ++ rest) (told (before ++ p.text) pieces)) :
    StandIn (before ++ (p.text ++ rest)) (told before (p :: pieces)) := by
  rw [← List.append_assoc, told]
  split
  · exact List.forall_mem_cons.2 ⟨List.prefix_append _ _, later⟩
  · exact later

theorem Tiling.told_standIn (tiling : Tiling text pieces) (before : List Char) :
    StandIn (before ++ text) (told before pieces) := by
  induction tiling generalizing before with
  | nil => simp [StandIn, told]
  | longest _ joined _ ih =>
    rw [joined]
    exact .told_cons (ih _)
  | @unexpected c rest pieces _ _ _ ih => exact .told_cons (ih (before ++ [c]))
  | unterminated => simp [StandIn, told, isTold]

/-- A character of which nothing is made is no newline, since a newline is a blank. -/
theorem ne_newline {c : Char} {rest : List Char}
    (vain : ∀ p : Piece, Written p.shape p.text → ¬p.text <+: c :: rest) : c ≠ '\n' := by
  rintro rfl
  exact vain ⟨.blank, ['\n']⟩ (.blank (by simp)) ⟨rest, rfl⟩

/-- The items of a text that stands behind another one, and the end of the file. The induction is on the
tiling and not on the items, since it is by what stands in the text that an unexpected character is no
newline and that a string without an end is the last piece. -/
theorem Tiling.marks (tiling : Tiling text pieces) {before : List Char} {line : Nat}
    {items : List Item} (here : line = 1 + before.count '\n') (yields : Yields line pieces items) :
    ∃ marked, items = marked ++ [.token (.endOfFile (1 + (before ++ text).count '\n'))] ∧
      List.Forall₂ (Marks (before ++ text)) (told before pieces) marked := by
  induction tiling generalizing before line items with
  | nil =>
    cases yields with
    | endOfFile => exact ⟨[], by simp [here], .nil⟩
  | @longest text rest p pieces longest joined tiling ih =>
    have passed : line + p.newlines = 1 + (before ++ p.text).count '\n' := by
      rw [here, newlines, List.count_append, Nat.add_assoc]
    have whole : before ++ p.text ++ rest = before ++ text := by
      rw [joined, List.append_assoc]
    have written := longest.written
    cases yields with
    | skipped skips yields =>
      obtain ⟨marked, rfl, all⟩ := ih passed yields
      rw [whole] at all ⊢
      exact ⟨marked, rfl, told_of_skipped skips ▸ all⟩
    | token shape fits yields =>
      obtain ⟨marked, rfl, all⟩ := ih passed yields
      rw [whole] at all ⊢
      refine ⟨_ :: marked, rfl, ?_⟩
      rw [told_of_isTold (by simp [isTold, shape]), passed]
      exact .cons (.token shape) all
    | unexpected => cases written
    | unterminated shape =>
      rw [shape] at written
      cases written
  | @unexpected c rest pieces _ vain tiling ih =>
    have none : newlines ⟨.unexpected, [c]⟩ = 0 := by
      simp [newlines, (ne_newline vain)]
    have passed : line + newlines ⟨.unexpected, [c]⟩ = 1 + (before ++ [c]).count '\n' := by
      rw [here, newlines, List.count_append, Nat.add_assoc]
    have whole : before ++ [c] ++ rest = before ++ c :: rest := by simp
    cases yields with
    | skipped skips => rcases skips with shape | shape <;> cases shape
    | token shape => cases shape
    | unexpected yields =>
      obtain ⟨marked, rfl, all⟩ := ih passed yields
      rw [whole] at all ⊢
      refine ⟨_ :: marked, rfl, ?_⟩
      rw [told_of_isTold (by simp [isTold]), none, Nat.add_zero, here]
      exact .cons .unexpected all
    | unterminated shape => cases shape
  | @unterminated rest _ =>
    have passed : line + newlines ⟨.unterminated, '"' :: rest⟩ =
        1 + (before ++ '"' :: rest).count '\n' := by
      rw [here, newlines, List.count_append, Nat.add_assoc]
    cases yields with
    | skipped skips => rcases skips with shape | shape <;> cases shape
    | token shape => cases shape
    | unterminated shape yields =>
      cases yields with
      | endOfFile =>
        refine ⟨[_], by rw [passed]; rfl, ?_⟩
        rw [told_of_isTold (by simp [isTold])]
        exact .cons (.unterminated rfl rfl) .nil

end Piece

/-- The line of every item of the scanner, in the order it is asked for them, is one more than the
newlines of the source before the end of what the item tells of: of a token's text, of what stands
before an unexpected character, and of the whole source for a string that does not end and for the end
of the file. There is one cutting of the source into the pieces told of, and no item is on an earlier
line than one before it. -/
theorem Item.scan_counts_lines (source : String) :
    ∃ pieces marked, Piece.Tiling source.toList pieces ∧
      (∀ others, Piece.Tiling source.toList others → others = pieces) ∧
      Piece.StandIn source.toList (Piece.told [] pieces) ∧
      List.Forall₂ (Piece.Marks source.toList) (Piece.told [] pieces) marked ∧
      scan source = marked ++ [.token (.endOfFile (1 + source.toList.count '\n'))] ∧
      (∀ n, (Scanner.start source).nth n = (scan source)[n]?) ∧
      (scan source).Pairwise fun a b => a.lineNumber ≤ b.lineNumber := by
  obtain ⟨pieces, tiling, yields⟩ := Piece.tiling_scanFrom 1 source.toList
  rw [← scan_eq] at yields
  have first : 1 = 1 + ([] : List Char).count '\n' := by simp
  obtain ⟨marked, told, all⟩ := tiling.marks first yields
  exact ⟨pieces, marked, tiling, fun others other => tiling.unique other, tiling.told_standIn [],
    all, told, (Scanner.start source).nth_eq, yields.ascends.2⟩

end Lox
