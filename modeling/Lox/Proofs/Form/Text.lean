import Lox.Proofs.Decimal.Unsigned
import Lox.Tree.Form

/-! Nested forms apart from what they are forms of. Their text is read in one way only: its first
character tells what kind of form begins, and a form that is no list ends where its quote or the next
blank or parenthesis is. -/
namespace Lox

inductive Form where
  | word (name : String)
  | quoted (content : String)
  | number (value : Float)
  | list (parts : List Form)

namespace Form

mutual

def text : Form → List Char
  | .word name => name.toList
  | .quoted content => '"' :: (content.toList ++ ['"'])
  | .number value => (Number.pointed value).toList
  | .list [] => ['(', ')']
  | .list (first :: rest) => '(' :: (first.text ++ Form.closing rest)

/-- The parts that are left, each behind a blank, and the parenthesis behind them. -/
def closing : List Form → List Char
  | [] => [')']
  | f :: rest => ' ' :: (f.text ++ Form.closing rest)

end

/-- The characters that are in no word and no number. -/
def separators : List Char := [' ', '(', ')', '"']

/-- What a form begins with. -/
inductive Opening where
  | word
  | quote
  | digit
  | parenthesis

def Opening.of? (c : Char) : Option Opening :=
  if c = '"' then some .quote
  else if c = '(' then some .parenthesis
  else if c = ' ' ∨ c = ')' then none
  else if Decimal.isDigit c then some .digit
  else some .word

def opening : Form → Opening
  | .word _ => .word
  | .quoted _ => .quote
  | .number _ => .digit
  | .list _ => .parenthesis

/-- A name that is told from other forms and from what is behind it. -/
def IsWord (name : List Char) : Prop :=
  name.head?.map Decimal.isDigit = some false ∧ ∀ c ∈ name, c ∉ separators

instance : DecidablePred IsWord := fun name =>
  have : Decidable (∀ c ∈ name, c ∉ separators) := List.decidableBAll _ name
  inferInstanceAs (Decidable (_ ∧ _))

mutual

/-- Words are words, quoted text has no quote in it, and numbers have neither sign nor end. -/
def Plain : Form → Prop
  | .word name => IsWord name.toList
  | .quoted content => '"' ∉ content.toList
  | .number value => Decimal.Unsigned value ∧ value.isFinite = true
  | .list parts => AllPlain parts

def AllPlain : List Form → Prop
  | [] => True
  | f :: rest => f.Plain ∧ AllPlain rest

end

theorem solid_of_isDigit {c : Char} (digit : Decimal.isDigit c = true) : c ∉ separators := by
  intro member
  simp only [separators, List.mem_cons, List.not_mem_nil, or_false] at member
  rcases member with rfl | rfl | rfl | rfl <;> revert digit <;> decide

theorem Plain.begins {f : Form} (plain : f.Plain) :
    ∃ c rest, f.text = c :: rest ∧ Opening.of? c = some f.opening := by
  cases f with
  | word name =>
    rw [Plain] at plain
    obtain ⟨first, solid⟩ := plain
    obtain ⟨c, head, begins⟩ := Option.map_eq_some_iff.1 first
    obtain ⟨rest, spelled⟩ := List.head?_eq_some_iff.1 head
    have solid := solid c (by simp [spelled])
    refine ⟨c, rest, by rw [text, spelled], ?_⟩
    simp only [separators, List.mem_cons, List.not_mem_nil, or_false, not_or] at solid
    simp [Opening.of?, opening, solid, begins]
  | quoted content =>
    exact ⟨_, _, by rw [text], rfl⟩
  | number value =>
    rw [Plain] at plain
    obtain ⟨q, numeral, -⟩ := plain.1.numeral plain.2
    obtain ⟨c, rest, spelled, digit⟩ := numeral.begins
    have solid := solid_of_isDigit digit
    refine ⟨c, rest, by rw [text, spelled], ?_⟩
    simp only [separators, List.mem_cons, List.not_mem_nil, or_false, not_or] at solid
    simp [Opening.of?, opening, solid, digit]
  | list parts =>
    cases parts with
    | nil => exact ⟨_, _, by rw [text], rfl⟩
    | cons => exact ⟨_, _, by rw [text], rfl⟩

/-- Nothing, a blank or a closing parenthesis comes next. -/
def Ended (behind : List Char) : Prop := ∀ c ∈ behind.head?, c ∈ separators

theorem ended_closing (parts : List Form) (behind : List Char) : Ended (closing parts ++ behind) := by
  cases parts <;> simp [Ended, closing, separators]

/-- Where the first part ends is told by the characters it may have. -/
theorem append_unique {p : Char → Prop} [DecidablePred p] {first second behind behind' : List Char}
    (all : ∀ c ∈ first, p c) (all' : ∀ c ∈ second, p c) (ended : ∀ c ∈ behind.head?, ¬p c)
    (ended' : ∀ c ∈ behind'.head?, ¬p c) (same : first ++ behind = second ++ behind') :
    first = second ∧ behind = behind' := by
  have cut {text rest : List Char} (all : ∀ c ∈ text, p c) (ended : ∀ c ∈ rest.head?, ¬p c) :
      (text ++ rest).takeWhile (fun c => decide (p c)) = text := by
    rw [List.takeWhile_append_of_pos (by simpa using all)]
    cases rest with
    | nil => simp
    | cons c rest => simpa using ended c rfl
  have parts : first = second := by rw [← cut all ended, same, cut all' ended']
  exact ⟨parts, List.append_cancel_left (parts ▸ same)⟩

theorem opening_eq {a b : Form} {r s : List Char} (plain : a.Plain) (plain' : b.Plain)
    (same : a.text ++ r = b.text ++ s) : a.opening = b.opening := by
  obtain ⟨c, rest, begins, kind⟩ := plain.begins
  obtain ⟨d, rest', begins', kind'⟩ := plain'.begins
  rw [begins, begins', List.cons_append, List.cons_append, List.cons.injEq] at same
  rw [same.1, kind'] at kind
  exact (Option.some.inj kind).symm

theorem solid_number {value : Float} (plain : (Form.number value).Plain) :
    ∀ c ∈ (Number.pointed value).toList, c ∉ separators := by
  rw [Plain] at plain
  obtain ⟨q, numeral, -⟩ := plain.1.numeral plain.2
  intro c member
  rcases numeral.chars c member with digit | rfl
  · exact solid_of_isDigit digit
  · decide

/-- No list begins with what ends one. -/
theorem text_ne_closed {f : Form} {r s : List Char} (plain : f.Plain) : ')' :: r ≠ f.text ++ s := by
  intro same
  obtain ⟨c, rest, begins, kind⟩ := plain.begins
  rw [begins, List.cons_append, List.cons.injEq] at same
  rw [← same.1] at kind
  cases kind

mutual

/-- A text begins with one form only, if what is behind the form is known to be another. -/
theorem unique (r s : List Char) : (a b : Form) → a.Plain → b.Plain → Ended r → Ended s →
    a.text ++ r = b.text ++ s → a = b ∧ r = s
  | .word name, .word name', plain, plain', ended, ended', same => by
    rw [Plain] at plain plain'
    rw [text, text] at same
    obtain ⟨names, rests⟩ := append_unique (p := (· ∉ separators)) plain.2 plain'.2
      (by simpa [Ended] using ended) (by simpa [Ended] using ended') same
    exact ⟨by rw [String.toList_injective names], rests⟩
  | .quoted content, .quoted content', plain, plain', _, _, same => by
    rw [Plain] at plain plain'
    simp only [text, List.cons_append, List.append_assoc, List.cons.injEq, true_and] at same
    obtain ⟨contents, rests⟩ := append_unique (p := (· ≠ '"'))
      (fun c member quote => plain (quote ▸ member)) (fun c member quote => plain' (quote ▸ member))
      (by simp) (by simp) same
    exact ⟨by rw [String.toList_injective contents], by simpa using rests⟩
  | .number value, .number value', plain, plain', ended, ended', same => by
    rw [text, text] at same
    obtain ⟨numerals, rests⟩ := append_unique (p := (· ∉ separators)) (solid_number plain)
      (solid_number plain') (by simpa [Ended] using ended) (by simpa [Ended] using ended') same
    rw [Plain] at plain plain'
    have values := plain.1.eq_of_pointed_eq plain'.1 plain.2 plain'.2
      (String.toList_injective numerals)
    exact ⟨by rw [values], rests⟩
  | .list [], .list [], _, _, _, _, same => by
    simpa [text] using same
  | .list [], .list (g :: rest), _, plain', _, _, same => by
    rw [Plain, AllPlain] at plain'
    simp only [text, List.cons_append, List.append_assoc, List.nil_append, List.cons.injEq,
      true_and] at same
    exact absurd same (text_ne_closed plain'.1)
  | .list (f :: rest), .list [], plain, _, _, _, same => by
    rw [Plain, AllPlain] at plain
    simp only [text, List.cons_append, List.append_assoc, List.nil_append, List.cons.injEq,
      true_and] at same
    exact absurd same.symm (text_ne_closed plain.1)
  | .list (f :: rest), .list (g :: rest'), plain, plain', _, _, same => by
    -- What is behind the first part is the rest of the list, which begins with a blank or a parenthesis.
    rw [Plain, AllPlain] at plain plain'
    simp only [text, List.cons_append, List.append_assoc, List.cons.injEq, true_and] at same
    obtain ⟨rfl, later⟩ := unique _ _ f g plain.1 plain'.1 (ended_closing rest r)
      (ended_closing rest' s) same
    obtain ⟨rfl, rests⟩ := closing_unique r s rest rest' plain.2 plain'.2 later
    exact ⟨rfl, rests⟩
  -- Forms of two kinds begin with different characters.
  | .word _, .quoted _, plain, plain', _, _, same | .word _, .number _, plain, plain', _, _, same
  | .word _, .list _, plain, plain', _, _, same | .quoted _, .word _, plain, plain', _, _, same
  | .quoted _, .number _, plain, plain', _, _, same | .quoted _, .list _, plain, plain', _, _, same
  | .number _, .word _, plain, plain', _, _, same | .number _, .quoted _, plain, plain', _, _, same
  | .number _, .list _, plain, plain', _, _, same | .list _, .word _, plain, plain', _, _, same
  | .list _, .quoted _, plain, plain', _, _, same | .list _, .number _, plain, plain', _, _, same =>
    by cases opening_eq plain plain' same

theorem closing_unique (r s : List Char) : (as bs : List Form) → AllPlain as → AllPlain bs →
    closing as ++ r = closing bs ++ s → as = bs ∧ r = s
  | [], [], _, _, same => by simpa [closing] using same
  | [], _ :: _, _, _, same | _ :: _, [], _, _, same => by simp [closing] at same
  | f :: rest, g :: rest', plain, plain', same => by
    rw [AllPlain] at plain plain'
    simp only [closing, List.cons_append, List.append_assoc, List.cons.injEq, true_and] at same
    obtain ⟨rfl, later⟩ := unique _ _ f g plain.1 plain'.1 (ended_closing rest r)
      (ended_closing rest' s) same
    obtain ⟨rfl, rests⟩ := closing_unique r s rest rest' plain.2 plain'.2 later
    exact ⟨rfl, rests⟩

end

/-- No two forms have the same text. -/
theorem text_injective {a b : Form} (plain : a.Plain) (plain' : b.Plain) (same : a.text = b.text) :
    a = b := by
  have nothing : Ended [] := by simp [Ended]
  refine (unique [] [] a b plain plain' nothing nothing ?_).1
  rw [List.append_nil, List.append_nil, same]

end Form

end Lox
