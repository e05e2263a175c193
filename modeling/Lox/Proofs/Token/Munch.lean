import Lox.Token.Piece
import Mathlib.Data.List.TakeWhile
import Mathlib.Tactic.FinCases

/-! What is written as a blank, a comment or a token, said without reading a text from the left: by the
characters it is made of. What is cut off a text is the longest of what the text begins with. -/
namespace Lox

theorem Keyword.spelling_word (k : Keyword) : ∃ c rest, k.spelling.toList = c :: rest ∧
    Piece.isWordStart c = true ∧ ∀ d ∈ rest, Piece.isWordPart d = true := by
  cases k <;> exact ⟨_, _, rfl, rfl, List.all_eq_true.1 rfl⟩

namespace Piece

theorem wordKind_eq_identifier_iff {word : List Char} :
    wordKind word = .identifier ↔ Keyword.ofSpelling? (String.ofList word) = none := by
  rw [wordKind]
  cases Keyword.ofSpelling? (String.ofList word) <;> simp

theorem wordKind_eq_keyword_iff {word : List Char} {k : Keyword} :
    wordKind word = .keyword k ↔ String.ofList word = k.spelling := by
  rw [wordKind, ← Keyword.ofSpelling?_eq_some_iff]
  cases Keyword.ofSpelling? (String.ofList word) <;> simp

/-- The tokens with one spelling that is no word. -/
def symbols : List (TokenKind × List Char) :=
  [(.leftParen, ['(']), (.rightParen, [')']), (.leftBrace, ['\x7b']), (.rightBrace, ['\x7d']),
    (.comma, [',']), (.dot, ['.']), (.minus, ['-']), (.plus, ['+']), (.semicolon, [';']),
    (.slash, ['/']), (.star, ['*']), (.bang, ['!']), (.bangEqual, ['!', '=']), (.equal, ['=']),
    (.equalEqual, ['=', '=']), (.greater, ['>']), (.greaterEqual, ['>', '=']), (.less, ['<']),
    (.lessEqual, ['<', '='])]

theorem symbols_cases : ∀ entry ∈ symbols,
    (∃ c, entry.2 = [c] ∧ punctuation? c = some entry.1) ∨
    (∃ c two, entry.2 = [c] ∧ comparison? c = some (entry.1, two)) ∨
    ∃ c one, entry.2 = [c, '='] ∧ comparison? c = some (one, entry.1) := by
  intro entry among
  fin_cases among
  any_goals exact .inl ⟨_, rfl, rfl⟩
  any_goals exact .inr (.inl ⟨_, _, rfl, rfl⟩)
  any_goals exact .inr (.inr ⟨_, _, rfl, rfl⟩)

/-- A text that is a blank, a comment or a token, whatever stands behind it. -/
inductive Written : Shape → List Char → Prop
  | blank {c : Char} : c ∈ [' ', '\t', '\r', '\n'] → Written .blank [c]
  | comment {text : List Char} : '\n' ∉ text → Written .comment ('/' :: '/' :: text)
  | symbol {kind : TokenKind} {text : List Char} : (kind, text) ∈ symbols →
      Written (.token kind) text
  | string {text : List Char} : '"' ∉ text → Written (.token .string) ('"' :: (text ++ ['"']))
  | integer {d : Char} {digits : List Char} : (∀ e ∈ d :: digits, Decimal.isDigit e = true) →
      Written (.token .number) (d :: digits)
  | decimal {d e : Char} {digits fraction : List Char} :
      (∀ e ∈ d :: digits, Decimal.isDigit e = true) →
      (∀ d ∈ e :: fraction, Decimal.isDigit d = true) →
      Written (.token .number) (d :: (digits ++ '.' :: e :: fraction))
  | keyword {k : Keyword} {text : List Char} : String.ofList text = k.spelling →
      Written (.token (.keyword k)) text
  | identifier {c : Char} {rest : List Char} : isWordStart c = true →
      (∀ d ∈ rest, isWordPart d = true) → (∀ k : Keyword, String.ofList (c :: rest) ≠ k.spelling) →
      Written (.token .identifier) (c :: rest)

/-- Of all that the text may be said to begin with, the longest. -/
structure Longest (p : Piece) (text : List Char) : Prop where
  written : Written p.shape p.text
  begins : p.text <+: text
  longest : ∀ q : Piece, Written q.shape q.text → q.text <+: text → q.text.length ≤ p.text.length

section

variable {c : Char} {rest after : List Char}

theorem isBlank_iff : isBlank c = true ↔ c ∈ [' ', '\t', '\r', '\n'] := by
  simp [isBlank, or_assoc]

theorem not_wordStart_of_digit (digit : Decimal.isDigit c = true) : isWordStart c = false := by
  simp only [Decimal.isDigit, Bool.and_eq_true, decide_eq_true_eq] at digit
  by_cases start : isWordStart c = true
  · simp only [isWordStart, Bool.or_eq_true, Bool.and_eq_true, decide_eq_true_eq] at start
    rcases start with (⟨small, -⟩ | ⟨big, -⟩) | rfl
    · exact absurd (Char.le_trans small digit.2) (by decide)
    · exact absurd (Char.le_trans big digit.2) (by decide)
    · exact absurd digit.2 (by decide)
  · simpa using start

/-- What begins a word begins nothing else. -/
theorem plain_of_wordStart (start : isWordStart c = true) :
    isBlank c = false ∧ c ≠ '"' ∧ c ≠ '/' ∧ Decimal.isDigit c = false := by
  constructor
  · by_cases blank : isBlank c = true
    · rw [isBlank_iff] at blank
      simp only [List.mem_cons, List.not_mem_nil, or_false] at blank
      rcases blank with rfl | rfl | rfl | rfl <;> revert start <;> decide
    · simpa using blank
  constructor
  · rintro rfl
    revert start
    decide
  constructor
  · rintro rfl
    revert start
    decide
  · by_cases digit : Decimal.isDigit c = true
    · rw [not_wordStart_of_digit digit] at start
      cases start
    · simpa using digit

theorem plain_of_digit (digit : Decimal.isDigit c = true) :
    isBlank c = false ∧ c ≠ '"' ∧ c ≠ '/' := by
  constructor
  · by_cases blank : isBlank c = true
    · rw [isBlank_iff] at blank
      simp only [List.mem_cons, List.not_mem_nil, or_false] at blank
      rcases blank with rfl | rfl | rfl | rfl <;> revert digit <;> decide
    · simpa using blank
  constructor
  · rintro rfl
    revert digit
    decide
  · rintro rfl
    revert digit
    decide

theorem cut_blank (blank : isBlank c = true) : cut c rest = (⟨.blank, [c]⟩, rest) := by
  unfold cut
  simp only [blank, if_true]

theorem cut_comment :
    cut '/' ('/' :: rest) =
      (⟨.comment, '/' :: '/' :: rest.takeWhile (· ≠ '\n')⟩, rest.dropWhile (· ≠ '\n')) := by
  rfl

theorem cut_string (body : List Char) (inside : '"' ∉ body) :
    cut '"' (body ++ '"' :: after) = (⟨.token .string, '"' :: (body ++ ['"'])⟩, after) := by
  have all : ∀ d ∈ body, (decide (d ≠ '"')) = true := by
    intro d member
    simpa using fun same : d = '"' => inside (same ▸ member)
  have taken : (body ++ '"' :: after).takeWhile (· ≠ '"') = body := by
    rw [List.takeWhile_append_of_pos all]
    simp
  have dropped : (body ++ '"' :: after).dropWhile (· ≠ '"') = '"' :: after := by
    rw [List.dropWhile_append_of_pos all]
    simp
  have notBlank : isBlank '"' = false := by decide
  unfold cut
  simp only [notBlank, Bool.false_eq_true, if_false, if_true, dropped, taken]

theorem cut_unterminated (open' : '"' ∉ rest) :
    cut '"' rest = (⟨.unterminated, '"' :: rest⟩, []) := by
  have all : ∀ d ∈ rest, (decide (d ≠ '"')) = true := by
    intro d member
    simpa using fun same : d = '"' => open' (same ▸ member)
  have dropped : rest.dropWhile (· ≠ '"') = [] := List.dropWhile_eq_nil_iff.2 all
  have notBlank : isBlank '"' = false := by decide
  unfold cut
  simp only [notBlank, Bool.false_eq_true, if_false, if_true, dropped]

theorem cut_number (digit : Decimal.isDigit c = true) :
    cut c rest =
      (⟨.token .number, c :: (rest.takeWhile Decimal.isDigit ++
        (fraction (rest.dropWhile Decimal.isDigit)).1)⟩,
        (fraction (rest.dropWhile Decimal.isDigit)).2) := by
  obtain ⟨notBlank, notQuote, notSlash⟩ := plain_of_digit digit
  unfold cut
  simp [notBlank, notQuote, notSlash, digit]

theorem cut_word (start : isWordStart c = true) :
    cut c rest =
      (⟨.token (wordKind (c :: rest.takeWhile isWordPart)), c :: rest.takeWhile isWordPart⟩,
        rest.dropWhile isWordPart) := by
  obtain ⟨notBlank, notQuote, notSlash, notDigit⟩ := plain_of_wordStart start
  unfold cut
  simp [notBlank, notQuote, notSlash, notDigit, start]

theorem cut_punctuation {kind : TokenKind} (punctuates : punctuation? c = some kind)
    (apart : ¬(c = '/' ∧ rest.head? = some '/')) : cut c rest = (⟨.token kind, [c]⟩, rest) := by
  unfold punctuation? at punctuates
  split at punctuates
  case h_11 =>
    cases punctuates
    have single : rest.head? ≠ some '/' := fun slash => apart ⟨rfl, slash⟩
    unfold cut
    simp only [single, decide_false, Bool.and_false]
    rfl
  all_goals cases punctuates
  all_goals rfl

/-- An operator before an equals sign is one with it. -/
theorem cut_paired {alone paired : TokenKind} (compares : comparison? c = some (alone, paired)) :
    cut c ('=' :: rest) = (⟨.token paired, [c, '=']⟩, rest) := by
  unfold comparison? at compares
  split at compares <;> cases compares <;> rfl

theorem cut_alone {alone paired : TokenKind} (compares : comparison? c = some (alone, paired))
    (apart : rest.head? ≠ some '=') : cut c rest = (⟨.token alone, [c]⟩, rest) := by
  cases rest with
  | nil =>
    unfold comparison? at compares
    split at compares <;> cases compares <;> rfl
  | cons d rest =>
    have different : d ≠ '=' := by simpa using apart
    unfold comparison? at compares
    unfold cut
    split at compares <;> cases compares <;>
      simp [isBlank, Decimal.isDigit, isWordStart, comparison?, different]

end

/-- A longer text of one shape is another piece. -/
theorem eq_or_shorter (shape : Shape) (text more : List Char) :
    (⟨shape, text⟩ : Piece) = ⟨shape, text ++ more⟩ ∨ text.length < (text ++ more).length := by
  cases more with
  | nil => simp
  | cons c more => simp

section

variable {c : Char} {rest after : List Char}

theorem word_cut_or_shorter {letters : List Char} (start : isWordStart c = true)
    (parts : ∀ d ∈ letters, isWordPart d = true) :
    (⟨.token (wordKind (c :: letters)), c :: letters⟩ : Piece) = (cut c (letters ++ after)).1 ∨
      (c :: letters).length < (cut c (letters ++ after)).1.text.length := by
  rw [cut_word start, List.takeWhile_append_of_pos parts]
  cases after.takeWhile isWordPart with
  | nil => simp
  | cons d more => simp

/-- What is written at the front of a text is cut off, or something longer is. -/
theorem Written.cut_or_shorter {q : Piece} (written : Written q.shape q.text)
    (begins : q.text ++ after = c :: rest) :
    q = (cut c rest).1 ∨ q.text.length < (cut c rest).1.text.length := by
  obtain ⟨shape, text⟩ := q
  cases written with
  | blank among =>
    obtain ⟨rfl, rfl⟩ := List.cons.inj begins
    rw [cut_blank (isBlank_iff.2 among)]
    exact .inl rfl
  | @comment body inside =>
    simp only [List.cons_append] at begins
    obtain ⟨rfl, rfl⟩ := List.cons.inj begins
    have all : ∀ d ∈ body, (decide (d ≠ '\n')) = true := by
      intro d member
      simpa using fun same : d = '\n' => inside (same ▸ member)
    have taken : (body ++ after).takeWhile (· ≠ '\n') = body ++ after.takeWhile (· ≠ '\n') :=
      List.takeWhile_append_of_pos all
    rw [cut_comment, taken]
    exact eq_or_shorter .comment ('/' :: '/' :: body) _
  | symbol among =>
    -- One character may also begin a comment, or be the first of two.
    rcases symbols_cases _ among with ⟨d, rfl, single⟩ | ⟨d, two, rfl, alone⟩ | ⟨d, one, rfl, paired⟩
    · simp only [List.cons_append, List.nil_append] at begins
      obtain ⟨rfl, rfl⟩ := List.cons.inj begins
      by_cases comment : d = '/' ∧ after.head? = some '/'
      · obtain ⟨rfl, slash⟩ := comment
        obtain ⟨later, rfl⟩ := List.head?_eq_some_iff.1 slash
        rw [cut_comment]
        exact .inr (by simp)
      · rw [cut_punctuation single comment]
        exact .inl rfl
    · simp only [List.cons_append, List.nil_append] at begins
      obtain ⟨rfl, rfl⟩ := List.cons.inj begins
      by_cases equals : after.head? = some '='
      · obtain ⟨later, rfl⟩ := List.head?_eq_some_iff.1 equals
        rw [cut_paired alone]
        exact .inr (by simp)
      · rw [cut_alone alone equals]
        exact .inl rfl
    · simp only [List.cons_append, List.nil_append] at begins
      obtain ⟨rfl, rfl⟩ := List.cons.inj begins
      rw [cut_paired paired]
      exact .inl rfl
  | @string body inside =>
    simp only [List.cons_append, List.append_assoc] at begins
    obtain ⟨rfl, rfl⟩ := List.cons.inj begins
    rw [List.nil_append, cut_string body inside]
    exact .inl rfl
  | @integer d digits all =>
    simp only [List.cons_append] at begins
    obtain ⟨rfl, rfl⟩ := List.cons.inj begins
    have digit : ∀ e ∈ digits, Decimal.isDigit e = true := fun e member => all e (by simp [member])
    rw [cut_number (all d (by simp)), List.takeWhile_append_of_pos digit, List.append_assoc]
    exact eq_or_shorter _ (d :: digits) _
  | @decimal d e digits others first second =>
    simp only [List.cons_append, List.append_assoc] at begins
    obtain ⟨rfl, rfl⟩ := List.cons.inj begins
    have digit : ∀ e ∈ digits, Decimal.isDigit e = true := fun e member => first e (by simp [member])
    have other : ∀ d ∈ others, Decimal.isDigit d = true := fun d member => second d (by simp [member])
    have point : Decimal.isDigit '.' = false := by decide
    have begun : Decimal.isDigit e = true := second e (by simp)
    rw [cut_number (first d (by simp)), List.takeWhile_append_of_pos digit,
      List.dropWhile_append_of_pos digit]
    simp only [List.takeWhile_cons, List.dropWhile_cons, point, Bool.false_eq_true, if_false, fraction,
      begun, if_true, List.takeWhile_append_of_pos other, List.append_nil]
    -- A digit stands behind the point, so what is cut off goes as far at least.
    have joined : d :: (digits ++ '.' :: e :: (others ++ after.takeWhile Decimal.isDigit)) =
        d :: (digits ++ '.' :: e :: others) ++ after.takeWhile Decimal.isDigit := by simp
    rw [joined]
    exact eq_or_shorter _ _ _
  | @keyword k _ spelled =>
    obtain ⟨d, letters, word, start, parts⟩ := k.spelling_word
    have kind : wordKind text = .keyword k := wordKind_eq_keyword_iff.2 spelled
    obtain rfl : text = d :: letters := by rw [← word, ← spelled, String.toList_ofList]
    obtain ⟨rfl, rfl⟩ := List.cons.inj begins
    rw [← kind]
    exact word_cut_or_shorter start parts
  | @identifier d letters start parts other =>
    simp only [List.cons_append] at begins
    obtain ⟨rfl, rfl⟩ := List.cons.inj begins
    have kind : wordKind (d :: letters) = .identifier := by
      rw [wordKind_eq_identifier_iff, ← Option.not_isSome_iff_eq_none]
      intro found
      obtain ⟨k, found⟩ := Option.isSome_iff_exists.1 found
      exact other k (Keyword.ofSpelling?_eq_some_iff.1 found)
    rw [← kind]
    exact word_cut_or_shorter start parts

theorem fraction_cases (text : List Char) :
    (fraction text).1 = [] ∨ ∃ e digits, (fraction text).1 = '.' :: e :: digits ∧
      ∀ d ∈ e :: digits, Decimal.isDigit d = true := by
  fun_cases fraction text with
  | case1 e rest digit =>
    right
    refine ⟨e, _, rfl, fun d member => ?_⟩
    rcases List.mem_cons.1 member with rfl | later
    · exact digit
    · exact List.mem_takeWhile_imp later
  | case2 | case3 => exact .inl rfl

theorem comparison_mem_symbols {alone paired : TokenKind}
    (compares : comparison? c = some (alone, paired)) :
    (alone, [c]) ∈ symbols ∧ (paired, [c, '=']) ∈ symbols := by
  unfold comparison? at compares
  split at compares <;> cases compares <;> exact ⟨by decide, by decide⟩

theorem punctuation_mem_symbols {kind : TokenKind} (punctuates : punctuation? c = some kind) :
    (kind, [c]) ∈ symbols := by
  unfold punctuation? at punctuates
  split at punctuates <;> cases punctuates <;> decide

theorem wordKind_written {letters : List Char} (start : isWordStart c = true)
    (parts : ∀ d ∈ letters, isWordPart d = true) :
    Written (.token (wordKind (c :: letters))) (c :: letters) := by
  cases found : Keyword.ofSpelling? (String.ofList (c :: letters)) with
  | some k =>
    have spelled := Keyword.ofSpelling?_eq_some_iff.1 found
    rw [wordKind_eq_keyword_iff.2 spelled]
    exact .keyword spelled
  | none =>
    rw [wordKind_eq_identifier_iff.2 found]
    apply Written.identifier start parts
    intro k spelled
    rw [Keyword.ofSpelling?_eq_some_iff.2 spelled] at found
    cases found

/-- What is cut off is written, or it is one of the two kinds of text that are not. -/
theorem cut_cases (c : Char) (rest : List Char) :
    Written (cut c rest).1.shape (cut c rest).1.text ∨
    (c ≠ '"' ∧ cut c rest = (⟨.unexpected, [c]⟩, rest)) ∨
    c = '"' ∧ '"' ∉ rest := by
  -- In the order of the tests, since a piece is cut off only where those before it have failed.
  by_cases blank : isBlank c = true
  · rw [cut_blank blank]
    exact .inl (.blank (isBlank_iff.1 blank))
  by_cases quote : c = '"'
  · subst quote
    by_cases closed : '"' ∈ rest
    · obtain ⟨body, after, rfl, inside⟩ := List.eq_append_cons_of_mem closed
      rw [cut_string body inside]
      exact .inl (.string inside)
    · exact .inr (.inr ⟨rfl, closed⟩)
  by_cases comment : c = '/' ∧ rest.head? = some '/'
  · obtain ⟨rfl, slash⟩ := comment
    obtain ⟨later, rfl⟩ := List.head?_eq_some_iff.1 slash
    rw [cut_comment]
    apply Or.inl
    apply Written.comment
    intro newline
    simpa using List.mem_takeWhile_imp newline
  by_cases digit : Decimal.isDigit c = true
  · rw [cut_number digit]
    have digits : ∀ e ∈ c :: rest.takeWhile Decimal.isDigit, Decimal.isDigit e = true := by
      intro e member
      rcases List.mem_cons.1 member with rfl | later
      · exact digit
      · exact List.mem_takeWhile_imp later
    rcases fraction_cases (rest.dropWhile Decimal.isDigit) with none | ⟨e, others, some', all⟩
    · rw [none, List.append_nil]
      exact .inl (.integer digits)
    · rw [some']
      exact .inl (.decimal digits all)
  by_cases start : isWordStart c = true
  · rw [cut_word start]
    exact .inl (wordKind_written start fun d member => List.mem_takeWhile_imp member)
  cases compares : comparison? c with
  | some kinds =>
    obtain ⟨alone, paired⟩ := kinds
    obtain ⟨one, two⟩ := comparison_mem_symbols compares
    by_cases equals : rest.head? = some '='
    · obtain ⟨later, rfl⟩ := List.head?_eq_some_iff.1 equals
      rw [cut_paired compares]
      exact .inl (.symbol two)
    · rw [cut_alone compares equals]
      exact .inl (.symbol one)
  | none =>
    cases punctuates : punctuation? c with
    | some kind =>
      rw [cut_punctuation punctuates comment]
      exact .inl (.symbol (punctuation_mem_symbols punctuates))
    | none =>
      right
      left
      constructor
      · exact quote
      · unfold cut
        simp [blank, quote, comment, digit, start, compares, punctuates]

/-- If anything is written at the front, what is cut off is the longest of it. -/
theorem longest_cut (written : Written (cut c rest).1.shape (cut c rest).1.text) :
    Longest (cut c rest).1 (c :: rest) := by
  constructor
  · exact written
  · exact ⟨(cut c rest).2, cut_append c rest⟩
  · rintro q written' ⟨after, begins⟩
    rcases written'.cut_or_shorter begins with same | shorter
    · exact Nat.le_of_eq (congrArg (·.text.length) same)
    · exact Nat.le_of_lt shorter

theorem Written.ne_nil {shape : Shape} {text : List Char} (written : Written shape text) :
    text ≠ [] := by
  cases written with
  | symbol among =>
    rcases symbols_cases _ among with ⟨d, rfl, -⟩ | ⟨d, two, rfl, -⟩ | ⟨d, one, rfl, -⟩ <;> simp
  | @keyword k _ spelled =>
    rintro rfl
    obtain ⟨d, letters, word, -⟩ := k.spelling_word
    rw [← spelled, String.toList_ofList] at word
    cases word
  | _ => simp

/-- Nothing is written where an unexpected character is cut off. -/
theorem not_begins_of_unexpected (unexpected : (cut c rest).1 = ⟨.unexpected, [c]⟩) (p : Piece)
    (written : Written p.shape p.text) : ¬p.text <+: c :: rest := by
  rintro ⟨after, begins⟩
  rcases written.cut_or_shorter begins with same | shorter
  · rw [same, unexpected] at written
    cases written
  · rw [unexpected] at shorter
    have none : p.text = [] := List.length_eq_zero_iff.1 (Nat.lt_one_iff.1 shorter)
    exact written.ne_nil none

/-- What begins with a quote ends with another one. -/
theorem Written.quoted {shape : Shape} {text : List Char} (written : Written shape text)
    (quote : text.head? = some '"') : ∃ body, text = '"' :: (body ++ ['"']) := by
  cases written with
  | string inside => exact ⟨_, rfl⟩
  | blank among => cases quote; simp at among
  | comment inside => cases quote
  | symbol among =>
    rcases symbols_cases _ among with ⟨d, rfl, single⟩ | ⟨d, two, rfl, alone⟩ | ⟨d, one, rfl, paired⟩
    · cases quote; cases single
    · cases quote; cases alone
    · cases quote; cases paired
  | integer digits => cases quote; exact absurd (digits '"' (by simp)) (by decide)
  | decimal digits others => cases quote; exact absurd (digits '"' (by simp)) (by decide)
  | @keyword k _ spelled =>
    obtain ⟨d, letters, word, start, -⟩ := k.spelling_word
    obtain rfl : text = d :: letters := by rw [← word, ← spelled, String.toList_ofList]
    cases quote
    exact absurd start (by decide)
  | identifier start parts other => cases quote; exact absurd start (by decide)

/-- Nothing is written at a quote that has no other behind it. -/
theorem not_begins_of_open (open' : '"' ∉ rest) (p : Piece) (written : Written p.shape p.text) :
    ¬p.text <+: '"' :: rest := by
  rintro ⟨after, begins⟩
  have quote : p.text.head? = some '"' := by
    cases first : p.text with
    | nil => exact absurd first written.ne_nil
    | cons d more =>
      rw [first, List.cons_append] at begins
      rw [(List.cons.inj begins).1, List.head?_cons]
  obtain ⟨body, quoted⟩ := written.quoted quote
  rw [quoted] at begins
  obtain rfl : body ++ ['"'] ++ after = rest := (List.cons.inj begins).2
  exact open' (by simp)

theorem Longest.eq_cut {p : Piece} (longest : Longest p (c :: rest)) : p = (cut c rest).1 := by
  obtain ⟨after, begins⟩ := longest.begins
  rcases longest.written.cut_or_shorter begins with same | shorter
  · exact same
  rcases cut_cases c rest with written | ⟨-, unexpected⟩ | ⟨rfl, open'⟩
  · have beginning : (cut c rest).1.text <+: c :: rest := ⟨(cut c rest).2, cut_append c rest⟩
    exact absurd (longest.longest _ written beginning) (Nat.not_le_of_lt shorter)
  · exact absurd longest.begins
      (not_begins_of_unexpected (congrArg Prod.fst unexpected) p longest.written)
  · exact absurd longest.begins (not_begins_of_open open' p longest.written)

end

end Piece

end Lox
