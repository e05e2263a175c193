import Lox.Proofs.Token.Munch
import Lox.Proofs.Token.Scanner

/-! The items of a source text. A text has exactly one tiling by longest pieces, whatever characters it
holds, and its items are those of the tiles in their order, with the end of the file behind them. -/
namespace Lox

namespace Piece

/-- The pieces of a text from its front to its end. Where something is written, the longest of it is a
piece; any other character is a piece of its own, but for a quote without another one behind it, which
takes the rest of the text. -/
inductive Tiling : List Char → List Piece → Prop
  | nil : Tiling [] []
  | longest {text rest : List Char} {p : Piece} {pieces : List Piece} :
      Longest p text → text = p.text ++ rest → Tiling rest pieces → Tiling text (p :: pieces)
  | unexpected {c : Char} {rest : List Char} {pieces : List Piece} :
      c ≠ '"' → (∀ p : Piece, Written p.shape p.text → ¬p.text <+: c :: rest) →
      Tiling rest pieces → Tiling (c :: rest) (⟨.unexpected, [c]⟩ :: pieces)
  | unterminated {rest : List Char} : '"' ∉ rest →
      Tiling ('"' :: rest) [⟨.unterminated, '"' :: rest⟩]

/-- The literal of a token, which only numbers and strings have. -/
def LiteralFits (kind : TokenKind) (text : List Char) (literal : Option Literal) : Prop :=
  match kind with
  | .number => literal = some (.number (numeral text))
  | .string => ∃ value : String, literal = some (.string value) ∧
      text = '"' :: (value.toList ++ ['"'])
  | _ => literal = none

/-- The items of pieces, the first of which begins on a line, and one end of the file. Every item is on
the line its piece ends on. -/
inductive Yields : (line : Nat) → List Piece → List Item → Prop
  | endOfFile (line : Nat) : Yields line [] [.token (.endOfFile line)]
  | skipped {line : Nat} {p : Piece} {pieces : List Piece} {items : List Item} :
      p.shape = .blank ∨ p.shape = .comment → Yields (line + p.newlines) pieces items →
      Yields line (p :: pieces) items
  | token {line : Nat} {kind : TokenKind} {p : Piece} {literal : Option Literal}
      {pieces : List Piece} {items : List Item} :
      p.shape = .token kind → LiteralFits kind p.text literal →
      Yields (line + p.newlines) pieces items →
      Yields line (p :: pieces)
        (.token ⟨kind, String.ofList p.text, literal, line + p.newlines⟩ :: items)
  | unexpected {line : Nat} {c : Char} {pieces : List Piece} {items : List Item} :
      Yields (line + newlines ⟨.unexpected, [c]⟩) pieces items →
      Yields line (⟨.unexpected, [c]⟩ :: pieces)
        (.error (line + newlines ⟨.unexpected, [c]⟩) (.unexpected c) :: items)
  | unterminated {line : Nat} {p : Piece} {pieces : List Piece} {items : List Item} :
      p.shape = .unterminated → Yields (line + p.newlines) pieces items →
      Yields line (p :: pieces) (.error (line + p.newlines) .unterminated :: items)

variable {c : Char} {rest text : List Char} {pieces others : List Piece}

namespace Tiling

theorem flatten (tiling : Tiling text pieces) : (pieces.map (·.text)).flatten = text := by
  induction tiling with
  | nil => rfl
  | longest _ joined _ ih => rw [List.map_cons, List.flatten_cons, ih, joined]
  | unexpected _ _ _ ih => rw [List.map_cons, List.flatten_cons, ih, List.singleton_append]
  | unterminated => simp

theorem eq_nil (tiling : Tiling [] pieces) : pieces = [] := by
  cases tiling with
  | nil => rfl
  | longest longest joined _ =>
    exact absurd (List.append_eq_nil_iff.1 joined.symm).1 longest.written.ne_nil

/-- The first tile is what is cut off. -/
theorem cons (tiling : Tiling (c :: rest) pieces) :
    ∃ later, pieces = (cut c rest).1 :: later ∧ Tiling (cut c rest).2 later := by
  cases tiling with
  | @longest _ after p later longest joined tiling =>
    obtain rfl := longest.eq_cut
    have same : after = (cut c rest).2 :=
      List.append_cancel_left (joined.symm.trans (cut_append c rest).symm)
    exact ⟨later, rfl, same ▸ tiling⟩
  | @unexpected _ _ later other vain tiling =>
    rcases cut_cases c rest with written | ⟨-, unexpected⟩ | ⟨quote, -⟩
    · exact absurd ⟨(cut c rest).2, cut_append c rest⟩ (vain _ written)
    · rw [unexpected]
      exact ⟨later, rfl, tiling⟩
    · exact absurd quote other
  | unterminated open' =>
    rw [cut_unterminated open']
    exact ⟨[], rfl, .nil⟩

/-- A text has no second tiling. -/
theorem unique : {text : List Char} → {pieces others : List Piece} → Tiling text pieces →
    Tiling text others → others = pieces
  | [], _, _, first, second => by rw [first.eq_nil, second.eq_nil]
  | c :: rest, _, _, first, second => by
    -- Both begin with what is cut off, so what is behind it is tiled by the rest of each.
    obtain ⟨pieces, rfl, tiled⟩ := first.cons
    obtain ⟨others, rfl, tiled'⟩ := second.cons
    rw [unique tiled tiled']
termination_by text => text.length
decreasing_by exact Nat.lt_succ_of_le (length_cut_le c rest)

theorem written {p : Piece} {kind : TokenKind} (tiling : Tiling text pieces) (member : p ∈ pieces)
    (shape : p.shape = .token kind) : Written (.token kind) p.text := by
  induction tiling with
  | nil => cases member
  | longest longest joined tiling ih =>
    rcases List.mem_cons.1 member with rfl | later
    · exact shape ▸ longest.written
    · exact ih later
  | unexpected other vain tiling ih =>
    rcases List.mem_cons.1 member with rfl | later
    · cases shape
    · exact ih later
  | unterminated open' =>
    obtain rfl := List.mem_singleton.1 member
    cases shape

end Tiling

theorem literal_fits_of_ne {kind : TokenKind} (number : kind ≠ .number) (string : kind ≠ .string) :
    LiteralFits kind text (literal kind text) := by
  cases kind with
  | number => exact absurd rfl number
  | string => exact absurd rfl string
  | _ => rfl

/-- No symbol is a number, a string, the end of the file or a keyword. -/
theorem kind_of_mem_symbols {kind : TokenKind} (among : (kind, text) ∈ symbols) :
    kind ≠ .number ∧ kind ≠ .string ∧ kind ≠ .eof ∧ ∀ k, kind ≠ .keyword k := by
  have all : ∀ entry ∈ symbols, entry.1 ≠ .number ∧ entry.1 ≠ .string ∧ entry.1 ≠ .eof ∧
      ∀ k ∈ Keyword.all, entry.1 ≠ .keyword k := by decide
  obtain ⟨number, string, eof, words⟩ := all _ among
  exact ⟨number, string, eof, fun k => words k k.mem_all⟩

theorem Written.literal_fits {kind : TokenKind} (written : Written (.token kind) text) :
    LiteralFits kind text (literal kind text) := by
  cases written with
  | @string body inside =>
    refine ⟨String.ofList body, ?_, ?_⟩
    · simp [literal]
    · rw [String.toList_ofList]
  | integer | decimal => rfl
  | symbol among =>
    obtain ⟨number, string, -⟩ := kind_of_mem_symbols among
    exact literal_fits_of_ne number string
  | keyword | identifier => exact literal_fits_of_ne (by simp) (by simp)

/-- A text is tiled by what is cut off it. -/
theorem tiling_scanFrom (line : Nat) (text : List Char) :
    ∃ pieces, Tiling text pieces ∧ Yields line pieces (Item.scanFrom line text) := by
  fun_induction Item.scanFrom line text with
  | case1 line => exact ⟨[], .nil, .endOfFile line⟩
  | case2 line c rest piece reached ih =>
    obtain ⟨pieces, tiling, yields⟩ := ih
    rcases cut_cases c rest with written | ⟨other, unexpected⟩ | ⟨rfl, open'⟩
    · refine ⟨piece :: pieces, .longest (longest_cut written) (cut_append c rest).symm tiling, ?_⟩
      have written : Written piece.shape piece.text := written
      cases shape : piece.shape with
      | blank =>
        rw [item?, shape]
        exact .skipped (.inl shape) yields
      | comment =>
        rw [item?, shape]
        exact .skipped (.inr shape) yields
      | token kind =>
        rw [shape] at written
        rw [item?, shape]
        exact .token shape written.literal_fits yields
      | unexpected =>
        rw [shape] at written
        cases written
      | unterminated =>
        rw [shape] at written
        cases written
    · have single : piece = ⟨.unexpected, [c]⟩ := congrArg Prod.fst unexpected
      refine ⟨⟨.unexpected, [c]⟩ :: pieces, ?_, ?_⟩
      · rw [unexpected] at tiling
        exact .unexpected other (not_begins_of_unexpected single) tiling
      · simp only [reached, single] at yields ⊢
        exact .unexpected yields
    · have whole : piece = ⟨.unterminated, '"' :: rest⟩ :=
        congrArg Prod.fst (cut_unterminated open')
      rw [cut_unterminated open'] at tiling yields ⊢
      obtain rfl := tiling.eq_nil
      refine ⟨[⟨.unterminated, '"' :: rest⟩], .unterminated open', ?_⟩
      simp only [reached, whole] at yields ⊢
      exact .unterminated rfl yields

/-- A token of a keyword's spelling is that keyword. -/
theorem Written.kind_of_spelling {kind : TokenKind} {k : Keyword}
    (written : Written (.token kind) text) (spelled : String.ofList text = k.spelling) :
    kind = .keyword k := by
  obtain ⟨d, letters, word, start, parts⟩ := k.spelling_word
  obtain rfl : text = d :: letters := by rw [← word, ← spelled, String.toList_ofList]
  have cut := Written.cut_or_shorter (q := ⟨.token kind, d :: letters⟩) written
    (List.append_nil (d :: letters))
  rw [cut_word start, List.takeWhile_eq_self_iff.2 parts, wordKind_eq_keyword_iff.2 spelled] at cut
  simpa using cut

theorem Written.kind_ne_eof {kind : TokenKind} (written : Written (.token kind) text) :
    kind ≠ .eof := by
  cases written with
  | symbol among => exact (kind_of_mem_symbols among).2.2.1
  | _ => simp

/-- A token is a keyword just if it is spelled as one. -/
theorem Written.keyword_iff {kind : TokenKind} (written : Written (.token kind) text) :
    (∃ k, kind = .keyword k) ↔ ∃ k ∈ Keyword.all, String.ofList text = k.spelling := by
  constructor
  · rintro ⟨k, rfl⟩
    cases written with
    | keyword spelled => exact ⟨k, k.mem_all, spelled⟩
    | symbol among => exact absurd rfl ((kind_of_mem_symbols among).2.2.2 k)
  · rintro ⟨k, -, spelled⟩
    exact ⟨k, written.kind_of_spelling spelled⟩

theorem LiteralFits.ne_none_iff {kind : TokenKind} {literal : Option Literal}
    (fits : LiteralFits kind text literal) :
    literal ≠ none ↔ kind = .number ∨ kind = .string := by
  cases kind with
  | number =>
    obtain rfl : literal = some (.number (numeral text)) := fits
    simp
  | string =>
    obtain ⟨value, rfl, -⟩ := fits
    simp
  | _ =>
    obtain rfl : literal = none := fits
    simp

theorem LiteralFits.unique {kind : TokenKind} {first second : Option Literal}
    (fits : LiteralFits kind text first) (fits' : LiteralFits kind text second) : first = second := by
  cases kind with
  | string =>
    obtain ⟨value, rfl, quoted⟩ := fits
    obtain ⟨value', rfl, quoted'⟩ := fits'
    have same : value.toList = value'.toList := by
      rw [quoted, List.cons.injEq] at quoted'
      exact List.append_cancel_right quoted'.2
    rw [String.toList_injective same]
  | _ => exact Eq.trans fits (Eq.symm fits')

/-- What is said of all tokens that are written holds of those among the items, but for the end of the
file, which is the last item. -/
theorem Yields.endsOnce {P : TokenKind → List Char → Option Literal → Prop} {line : Nat}
    {items : List Item} (yields : Yields line pieces items)
    (holds : ∀ p ∈ pieces, ∀ kind literal, p.shape = .token kind →
      LiteralFits kind p.text literal → P kind p.text literal) :
    ∃ before last, items = before ++ [.token (.endOfFile last)] ∧
      ∀ t, .token t ∈ before → P t.kind t.lexeme.toList t.literal := by
  induction yields with
  | endOfFile line => exact ⟨[], line, rfl, by simp⟩
  | skipped _ _ ih => exact ih fun p member => holds p (List.mem_cons_of_mem _ member)
  | @token line kind p literal pieces items shape fits _ ih =>
    obtain ⟨before, last, rfl, all⟩ := ih fun p member => holds p (List.mem_cons_of_mem _ member)
    refine ⟨_ :: before, last, rfl, fun t member => ?_⟩
    rcases List.mem_cons.1 member with same | later
    · cases same
      rw [String.toList_ofList]
      exact holds p (List.mem_cons_self ..) kind literal shape fits
    · exact all t later
  | unexpected _ ih | unterminated _ _ ih =>
    obtain ⟨before, last, rfl, all⟩ := ih fun p member => holds p (List.mem_cons_of_mem _ member)
    refine ⟨_ :: before, last, rfl, fun t member => ?_⟩
    rcases List.mem_cons.1 member with same | later
    · cases same
    · exact all t later

end Piece

/-- The lexeme is a text of the token's kind, and the literal is its value. -/
structure Token.Genuine (t : Token) : Prop where
  written : Piece.Written (.token t.kind) t.lexeme.toList
  literal : t.literal = Piece.literal t.kind t.lexeme.toList

theorem Token.Genuine.kind_ne_eof {t : Token} (genuine : t.Genuine) : t.kind ≠ .eof :=
  genuine.written.kind_ne_eof

namespace Item

/-- The end of the file is the last item, and all tokens before it are genuine. -/
theorem scanFrom_genuine (line : Nat) (text : List Char) : ∃ items last,
    scanFrom line text = items ++ [.token (.endOfFile last)] ∧
      ∀ t ∈ items.filterMap token?, t.Genuine := by
  obtain ⟨pieces, tiling, yields⟩ := Piece.tiling_scanFrom line text
  obtain ⟨items, last, joined, all⟩ := yields.endsOnce
    (P := fun kind text value => Piece.Written (.token kind) text ∧ value = Piece.literal kind text)
    fun p member kind value shape fits =>
      have written := tiling.written member shape
      ⟨written, fits.unique written.literal_fits⟩
  refine ⟨items, last, joined, fun t member => ?_⟩
  obtain ⟨item, among, found⟩ := List.mem_filterMap.1 member
  cases item with
  | error => cases found
  | token t' =>
    cases found
    exact ⟨(all t among).1, (all t among).2⟩

/-- The tokens and the errors, when the end of the file is set apart. -/
theorem scan_of_ended {source : String} {items : List Item} {last : Nat}
    (ended : scan source = items ++ [.token (.endOfFile last)]) :
    Lox.scan source = (items.filterMap token? ++ [.endOfFile last], items.filterMap diagnostic?) := by
  rw [Lox.scan, ended]
  simp [token?, diagnostic?]

/-- The scanner's items are those of the one tiling of the text by longest pieces. It tells them in
their order and then nothing, however often it is asked. Just the last of them is the end of the file.
A token is a keyword just if it is spelled as one, and it has a literal just if it is a number or a
string. -/
theorem scan_tiling (source : String) :
    ∃ pieces, Piece.Tiling source.toList pieces ∧
      (∀ others, Piece.Tiling source.toList others → others = pieces) ∧
      (pieces.map (·.text)).flatten = source.toList ∧
      Piece.Yields 1 pieces (scan source) ∧
      (∀ n, (Scanner.start source).nth n = (scan source)[n]?) ∧
      ∃ items line, scan source = items ++ [.token (.endOfFile line)] ∧
        ∀ t, .token t ∈ items → t.kind ≠ .eof ∧
          ((∃ k, t.kind = .keyword k) ↔ ∃ k ∈ Keyword.all, t.lexeme = k.spelling) ∧
          (t.literal ≠ none ↔ t.kind = .number ∨ t.kind = .string) := by
  obtain ⟨pieces, tiling, yields⟩ := Piece.tiling_scanFrom 1 source.toList
  rw [← scan_eq] at yields
  have asked (n : Nat) := (Scanner.start source).nth_eq n
  refine ⟨pieces, tiling, fun others other => tiling.unique other, tiling.flatten, yields, asked, ?_⟩
  obtain ⟨items, line, joined, all⟩ := yields.endsOnce
    (P := fun kind text literal => kind ≠ .eof ∧
      ((∃ k, kind = .keyword k) ↔ ∃ k ∈ Keyword.all, String.ofList text = k.spelling) ∧
      (literal ≠ none ↔ kind = .number ∨ kind = .string))
    fun p member kind literal shape fits =>
      have written := tiling.written member shape
      ⟨written.kind_ne_eof, written.keyword_iff, fits.ne_none_iff⟩
  refine ⟨items, line, joined, fun t member => ?_⟩
  have facts := all t member
  rwa [String.ofList_toList] at facts

end Item

end Lox
