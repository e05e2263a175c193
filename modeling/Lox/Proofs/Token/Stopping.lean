import Lox.Proofs.Token.Munch

/-! A blank behind a text. Whatever is cut off the text ends there as it does at the end of the text, but
for a string that is not closed before it and a comment, which only a newline ends. -/
namespace Lox.Piece

variable {b c : Char} {rest after : List Char}

theorem takeWhile_stop {p : Char → Bool} (stops : p b = false) (text : List Char) :
    (text ++ b :: after).takeWhile p = text.takeWhile p := by
  induction text with
  | nil => simp [stops]
  | cons d text ih => simp only [List.cons_append, List.takeWhile_cons, ih]

theorem dropWhile_stop {p : Char → Bool} (stops : p b = false) (text : List Char) :
    (text ++ b :: after).dropWhile p = text.dropWhile p ++ b :: after := by
  induction text with
  | nil => simp [stops]
  | cons d text ih =>
    simp only [List.cons_append, List.dropWhile_cons, ih]
    split <;> rfl

/-- A blank is no part of a number, a word or an operator. -/
theorem plain_of_blank (blank : isBlank b = true) :
    Decimal.isDigit b = false ∧ isWordPart b = false ∧ b ≠ '.' ∧ b ≠ '/' ∧ b ≠ '=' := by
  rw [isBlank_iff] at blank
  simp only [List.mem_cons, List.not_mem_nil, or_false] at blank
  rcases blank with rfl | rfl | rfl | rfl <;> decide

theorem head?_append_ne {text : List Char} {d : Char} (apart : text.head? ≠ some d) (other : b ≠ d) :
    (text ++ b :: after).head? ≠ some d := by
  cases text with
  | nil => simpa using other
  | cons e text => exact apart

theorem fraction_stop (blank : isBlank b = true) (text : List Char) :
    fraction (text ++ b :: after) = ((fraction text).1, (fraction text).2 ++ b :: after) := by
  obtain ⟨stops, -, notPoint, -⟩ := plain_of_blank blank
  fun_cases fraction text with
  | case1 d rest digit =>
    simp only [List.cons_append, fraction, if_pos digit, takeWhile_stop stops, dropWhile_stop stops]
  | case2 d rest other => simp only [List.cons_append, fraction, if_neg other]
  | case3 text other =>
    cases text with
    | nil => simp [fraction, notPoint]
    | cons c text =>
      by_cases point : c = '.'
      · subst point
        cases text with
        | nil => simp [fraction, stops]
        | cons d rest => exact absurd rfl (other d rest)
      · simp [fraction, point]

/-- The piece in front is the same whether a blank and more text stand at the end or nothing. -/
theorem cut_stop (blank : isBlank b = true) (closed : (cut c rest).1.shape ≠ .unterminated)
    (ends : b = '\n' ∨ (cut c rest).1.shape ≠ .comment) :
    cut c (rest ++ b :: after) = ((cut c rest).1, (cut c rest).2 ++ b :: after) := by
  obtain ⟨notDigit, notPart, -, notSlash, notEqual⟩ := plain_of_blank blank
  -- A string that is closed ends before the blank; every other piece stops at one.
  by_cases first : isBlank c = true
  · rw [cut_blank first, cut_blank first]
  by_cases quote : c = '"'
  · subst quote
    by_cases ended : '"' ∈ rest
    · obtain ⟨body, later, rfl, inside⟩ := List.eq_append_cons_of_mem ended
      rw [List.append_assoc, List.cons_append, cut_string body inside, cut_string body inside]
    · rw [cut_unterminated ended] at closed
      exact absurd rfl closed
  by_cases comment : c = '/' ∧ rest.head? = some '/'
  · obtain ⟨rfl, slash⟩ := comment
    obtain ⟨later, rfl⟩ := List.head?_eq_some_iff.1 slash
    rw [cut_comment] at ends
    obtain rfl : b = '\n' := ends.resolve_right (fun other => other rfl)
    have stops : (decide ('\n' ≠ '\n')) = false := by decide
    rw [List.cons_append, cut_comment, cut_comment, takeWhile_stop stops, dropWhile_stop stops]
  have comment' : ¬(c = '/' ∧ (rest ++ b :: after).head? = some '/') := by
    rintro ⟨slash, head⟩
    exact head?_append_ne (fun same => comment ⟨slash, same⟩) notSlash head
  by_cases digit : Decimal.isDigit c = true
  · rw [cut_number digit, cut_number digit, takeWhile_stop notDigit, dropWhile_stop notDigit,
      fraction_stop blank]
  by_cases start : isWordStart c = true
  · rw [cut_word start, cut_word start, takeWhile_stop notPart, dropWhile_stop notPart]
  cases compares : comparison? c with
  | some kinds =>
    obtain ⟨alone, paired⟩ := kinds
    by_cases equals : rest.head? = some '='
    · obtain ⟨later, rfl⟩ := List.head?_eq_some_iff.1 equals
      rw [List.cons_append, cut_paired compares, cut_paired compares]
    · rw [cut_alone compares equals, cut_alone compares (head?_append_ne equals notEqual)]
  | none =>
    cases punctuates : punctuation? c with
    | some kind => rw [cut_punctuation punctuates comment, cut_punctuation punctuates comment']
    | none =>
      have vain (more : List Char) (apart : ¬(c = '/' ∧ more.head? = some '/')) :
          cut c more = (⟨.unexpected, [c]⟩, more) := by
        simp [cut, first, quote, apart, digit, start, compares, punctuates]
      rw [vain rest comment, vain _ comment']

end Lox.Piece
