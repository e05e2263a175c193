import Lox.Proofs.Joining.Scanning
import Lox.Proofs.Relined.Source

/-! The items of two texts with a newline between them, errors and all. -/
namespace Lox.Item

/-- The same item so many lines further down. -/
def down (far : Nat) : Item → Item
  | .token t => .token { t with line := t.line + far }
  | .error line e => .error (line + far) e

theorem Relined.eq_down {far : Nat} {item item' : Item}
    (related : item.Relined (fun line line' => line' = line + far) item') : item' = item.down far := by
  cases related with
  | @token t t' same =>
    obtain ⟨kind, lexeme, literal, line⟩ := same
    simp only [down, Item.token.injEq]
    exact (Token.mk.injEq ..).mpr ⟨kind.symm, lexeme.symm, literal.symm, line⟩
  | error same => rw [same, down]

theorem Relined.eq_map_down {far : Nat} {items items' : List Item}
    (all : List.Forall₂ (Relined fun line line' => line' = line + far) items items') :
    items' = items.map (down far) := by
  induction all with
  | nil => rfl
  | cons first _ ih => rw [List.map_cons, first.eq_down, ih]

theorem scanFrom_add (line far : Nat) (text : List Char) :
    scanFrom (line + far) text = (scanFrom line text).map (down far) :=
  Relined.eq_map_down (scanFrom_relined line (line + far) text fun k => Nat.add_right_comm line far k)

/-- Scanning is local at a newline. A text whose strings are all closed has the items it has alone, but
for the end of the file, whatever stands behind a newline after it, and what stands there has its own
items, further down by the lines before it. -/
theorem scan_joined (s t : String) (closed : ∀ line, .error line .unterminated ∉ scan s) :
    ∃ items, scan s = items ++ [.token (.endOfFile (1 + s.toList.count '\n'))] ∧
      scan (s ++ "\n" ++ t) = items ++ (scan t).map (down (s.toList.count '\n' + 1)) := by
  rw [scan_eq] at closed ⊢
  obtain ⟨items, alone, joined⟩ := scanFrom_newline 1 s.toList t.toList closed
  have text : (s ++ "\n" ++ t).toList = s.toList ++ '\n' :: t.toList := by simp
  refine ⟨items, alone, ?_⟩
  rw [scan_eq, scan_eq, text, joined, Nat.add_assoc, scanFrom_add]

/-- An operator that the newline keeps from the equals sign behind it, after an error. -/
theorem scan_joined_halfOperator :
    (∀ line, .error line .unterminated ∉ scan "a\n#<") ∧
    ∃ items, scan "a\n#<" = items ++ [.token (.endOfFile 2)] ∧
      scan ("a\n#<" ++ "\n" ++ "=b") = items ++
        [.token ⟨.equal, "=", none, 3⟩, .token ⟨.identifier, "b", none, 3⟩, .token (.endOfFile 3)] := by
  have first : scan "a\n#<" = [.token ⟨.identifier, "a", none, 1⟩, .error 2 (.unexpected '#'),
      .token ⟨.less, "<", none, 2⟩, .token (.endOfFile 2)] := by
    decide +kernel
  have second : (scan "=b").map (down 2) =
      [.token ⟨.equal, "=", none, 3⟩, .token ⟨.identifier, "b", none, 3⟩, .token (.endOfFile 3)] := by
    decide +kernel
  have closed (line : Nat) : .error line .unterminated ∉ scan "a\n#<" := by simp [first]
  have joined := scan_joined "a\n#<" "=b" closed
  exact ⟨closed, second ▸ joined⟩

end Lox.Item
