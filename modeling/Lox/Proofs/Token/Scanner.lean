import Lox.Token.Stream

/-! The items of a text in one go. A scanner tells them one by one, however often it is asked for the
next, and nothing behind the last of them. -/
namespace Lox

namespace Item

/-- The items of a text whose first character is on `line`. -/
def scanFrom (line : Nat) : List Char → List Item
  | [] => [.token (.endOfFile line)]
  | c :: rest =>
    let piece := (Piece.cut c rest).1
    let reached := line + piece.newlines
    (piece.item? reached).toList ++ scanFrom reached (Piece.cut c rest).2
termination_by text => text.length
decreasing_by
  have := Piece.length_cut_le c rest
  simp only [List.length_cons]
  omega

end Item

namespace Scanner

theorem items_of_some {item : Item} {s behind : Scanner} (told : s.next = (some item, behind)) :
    s.items = item :: behind.items := by
  rw [items]
  split
  next told' =>
    rw [told] at told'
    cases told'
    rfl
  next told' =>
    rw [told] at told'
    cases told'

theorem items_finished : finished.items = [] := by
  rw [items]
  split
  next told =>
    rw [next] at told
    cases told
  next => rfl

/-- Only a scanner that is finished has nothing to tell. -/
theorem finished_or_next (s : Scanner) :
    s = finished ∨ ∃ item behind, s.next = (some item, behind) := by
  fun_induction next s with
  | case1 line => exact .inr ⟨_, _, rfl⟩
  | case2 line c rest piece reached item found => exact .inr ⟨_, _, rfl⟩
  | case3 line c rest piece reached skipped ih =>
    rcases ih with none | told
    · cases none
    · exact .inr told
  | case4 => exact .inl rfl

theorem items_reading_cons (line : Nat) (c : Char) (rest : List Char) :
    (reading line (c :: rest)).items =
      ((Piece.cut c rest).1.item? (line + (Piece.cut c rest).1.newlines)).toList ++
        (reading (line + (Piece.cut c rest).1.newlines) (Piece.cut c rest).2).items := by
  cases found : (Piece.cut c rest).1.item? (line + (Piece.cut c rest).1.newlines) with
  | some item =>
    apply items_of_some
    rw [next, found]
  | none =>
    rw [items, items, next, found]
    rfl

theorem items_reading (line : Nat) (text : List Char) :
    (reading line text).items = Item.scanFrom line text := by
  fun_induction Item.scanFrom line text with
  | case1 line =>
    have told : (reading line []).next = (some (.token (.endOfFile line)), finished) := by rw [next]
    rw [items_of_some told, items_finished]
  | case2 line c rest piece reached ih => rw [items_reading_cons, ih]

/-- What is told when the next item is asked for after `n` others. -/
def nth : Nat → Scanner → Option Item
  | 0, s => s.next.1
  | n + 1, s => nth n s.next.2

theorem nth_finished (n : Nat) : nth n finished = none := by
  induction n with
  | zero => rw [nth, next]
  | succ n ih => rwa [nth, next]

/-- Asking again and again tells the items in their order, and then nothing any more. -/
theorem nth_eq (n : Nat) (s : Scanner) : nth n s = s.items[n]? := by
  induction n generalizing s with
  | zero =>
    rcases s.finished_or_next with rfl | ⟨item, behind, told⟩
    · rw [nth_finished, items_finished, List.getElem?_nil]
    · rw [nth, told, items_of_some told, List.getElem?_cons_zero]
  | succ n ih =>
    rcases s.finished_or_next with rfl | ⟨item, behind, told⟩
    · rw [nth_finished, items_finished, List.getElem?_nil]
    · rw [nth, told, items_of_some told, List.getElem?_cons_succ, ih]

end Scanner

theorem Item.scan_eq (source : String) : Item.scan source = Item.scanFrom 1 source.toList :=
  Scanner.items_reading 1 source.toList

end Lox
