import Lox.Proofs.Token.Tiling

/-! The order of lines. Tokens and lexical errors come on lines that never decrease. -/
namespace Lox

/-- Lines never decrease along the tokens. -/
abbrev Ascending (ts : List Token) : Prop := ts.Pairwise fun t u => t.line ≤ u.line

namespace Diagnostic

/-- The one is not on a later line than the other. -/
def NotAfter (d e : Diagnostic) : Prop := ∀ k ∈ d.line?, ∀ l ∈ e.line?, k ≤ l

/-- Lines never decrease along the diagnostics. -/
abbrev InOrder (list : List Diagnostic) : Prop := list.Pairwise NotAfter

instance (d e : Diagnostic) : Decidable (d.NotAfter e) :=
  inferInstanceAs (Decidable (∀ k ∈ d.line?, ∀ l ∈ e.line?, k ≤ l))

end Diagnostic

def Item.lineNumber : Item → Nat
  | .token t => t.line
  | .error line _ => line

/-- No item is on an earlier line than the piece it is read from, or than one before it. -/
def Item.Ascends (line : Nat) (items : List Item) : Prop :=
  (∀ item ∈ items, line ≤ item.lineNumber) ∧ items.Pairwise fun a b => a.lineNumber ≤ b.lineNumber

theorem Item.Ascends.further {line added : Nat} {items : List Item}
    (ascends : Ascends (line + added) items) : Ascends line items :=
  ⟨fun item member => Nat.le_trans (Nat.le_add_right _ _) (ascends.1 item member), ascends.2⟩

theorem Item.Ascends.cons {line added : Nat} {item : Item} {items : List Item}
    (ascends : Ascends (line + added) items) (here : item.lineNumber = line + added) :
    Ascends line (item :: items) := by
  refine ⟨List.forall_mem_cons.2 ⟨by omega, ascends.further.1⟩, ?_⟩
  exact List.pairwise_cons.2 ⟨fun other member => here ▸ ascends.1 other member, ascends.2⟩

theorem Piece.Yields.ascends {line : Nat} {pieces : List Piece} {items : List Item}
    (yields : Yields line pieces items) : Item.Ascends line items := by
  induction yields with
  | endOfFile line => simp [Item.Ascends, Item.lineNumber, Token.endOfFile]
  | skipped _ _ ih => exact ih.further
  | token _ _ _ ih | unexpected _ ih | unterminated _ _ ih => exact ih.cons rfl

theorem scan_ascending (source : String) :
    Ascending (scan source).1 ∧ Diagnostic.InOrder (scan source).2 ∧
      ∀ d ∈ (scan source).2, ∃ line e, d = .lexical line e := by
  obtain ⟨pieces, -, yields⟩ := Piece.tiling_scanFrom 1 source.toList
  rw [← Item.scan_eq] at yields
  obtain ⟨-, sorted⟩ := yields.ascends
  refine ⟨?_, ?_, fun d member => ?_⟩
  · refine sorted.filterMap _ fun a b below t found u found' => ?_
    cases a <;> cases found
    cases b <;> cases found'
    exact below
  · refine sorted.filterMap _ fun a b below d found e found' => ?_
    cases a <;> cases found
    cases b <;> cases found'
    intro k here l there
    cases here
    cases there
    exact below
  · obtain ⟨item, -, found⟩ := List.mem_filterMap.1 member
    cases item <;> cases found
    exact ⟨_, _, rfl⟩

end Lox
