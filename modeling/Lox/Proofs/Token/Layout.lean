import Lox.Proofs.Relined.Tree
import Lox.Proofs.Token.Stopping
import Lox.Proofs.Token.Tiling

/-! The lexemes of a source text written down again, other blanks and comments between them. Each is cut
off just as it was, since a blank behind it ends it, so the tokens are the same on other lines. -/
namespace Lox

namespace Piece

/-- Blanks, and comments each with the newline that ends it. -/
inductive Gap : List Char → Prop
  | nil : Gap []
  | blank {b : Char} {rest : List Char} : isBlank b = true → Gap rest → Gap (b :: rest)
  | comment {text rest : List Char} : '\n' ∉ text → Gap rest →
      Gap ('/' :: '/' :: (text ++ '\n' :: rest))

/-- What keeps two lexemes apart begins with a blank. -/
inductive Separator : List Char → Prop
  | intro {b : Char} {rest : List Char} : isBlank b = true → Gap rest → Separator (b :: rest)

/-- Lexemes in their order, a separator between each and the next. -/
inductive LaidOut : List String → List Char → Prop
  | nil : LaidOut [] []
  | one (lexeme : String) : LaidOut [lexeme] lexeme.toList
  | more {lexeme next : String} {lexemes : List String} {separator text : List Char} :
      Separator separator → LaidOut (next :: lexemes) text →
      LaidOut (lexeme :: next :: lexemes) (lexeme.toList ++ (separator ++ text))

theorem Separator.gap {separator : List Char} (separates : Separator separator) : Gap separator := by
  cases separates with
  | intro blank gap => exact .blank blank gap

variable {kind : TokenKind} {c : Char} {rest text : List Char}

/-- A token's text is cut off whole. -/
theorem Written.cut_whole (written : Written (.token kind) (c :: rest)) :
    cut c rest = (⟨.token kind, c :: rest⟩, []) := by
  have joined := cut_append c rest
  have lengths := congrArg List.length joined
  rw [List.length_append] at lengths
  have first := Written.cut_or_shorter (q := ⟨.token kind, c :: rest⟩) written (List.append_nil _)
  have same : (cut c rest).1 = ⟨.token kind, c :: rest⟩ := by
    rcases first with same | shorter
    · exact same.symm
    · simp only at shorter
      omega
  have behind : (cut c rest).2 = [] := by
    rw [same] at joined
    simpa using joined
  exact Prod.ext same behind

theorem Written.cut_apart {after : List Char} (written : Written (.token kind) (c :: rest))
    (apart : ∀ b ∈ after.head?, isBlank b = true) :
    cut c (rest ++ after) = (⟨.token kind, c :: rest⟩, after) := by
  have whole := written.cut_whole
  cases after with
  | nil => rw [List.append_nil, whole]
  | cons b after =>
    rw [cut_stop (apart b rfl) (by simp [whole]) (.inr (by simp [whole])), whole, List.nil_append]

end Piece

namespace Item

open Piece

/-- Of a gap no item tells. -/
theorem scanFrom_gap {gap : List Char} (is : Gap gap) (line : Nat) (after : List Char) :
    ∃ reached, scanFrom line (gap ++ after) = scanFrom reached after := by
  induction is generalizing line with
  | nil => exact ⟨line, rfl⟩
  | @blank b rest blank _ ih =>
    obtain ⟨reached, passed⟩ := ih (line + newlines ⟨.blank, [b]⟩)
    refine ⟨reached, ?_⟩
    rw [List.cons_append, scanFrom, cut_blank blank]
    exact passed
  | @comment text rest inside _ ih =>
    have all : ∀ d ∈ text, (decide (d ≠ '\n')) = true := by
      intro d member
      simpa using fun same : d = '\n' => inside (same ▸ member)
    have dropped : (text ++ '\n' :: (rest ++ after)).dropWhile (· ≠ '\n') = '\n' :: (rest ++ after) := by
      rw [List.dropWhile_append_of_pos all]
      simp
    have taken : (text ++ '\n' :: (rest ++ after)).takeWhile (· ≠ '\n') = text := by
      rw [List.takeWhile_append_of_pos all]
      simp
    obtain ⟨reached, passed⟩ := ih (line + newlines ⟨.comment, '/' :: '/' :: text⟩ + 1)
    refine ⟨reached, ?_⟩
    simp only [List.cons_append, List.append_assoc]
    rw [scanFrom, cut_comment, dropped, taken]
    rw [scanFrom, cut_blank (by decide)]
    exact passed

/-- The text of a token is told as that token if a blank or nothing is behind it. -/
theorem scanFrom_token {t : Token} (genuine : t.Genuine) (line : Nat) (after : List Char)
    (apart : ∀ b ∈ after.head?, isBlank b = true) : ∃ reached,
      scanFrom line (t.lexeme.toList ++ after) =
        .token { t with line := reached } :: scanFrom reached after := by
  have written := genuine.written
  cases first : t.lexeme.toList with
  | nil => exact absurd first written.ne_nil
  | cons c rest =>
    rw [first] at written
    have spelled : String.ofList (c :: rest) = t.lexeme := by rw [← first, String.ofList_toList]
    have value : literal t.kind (c :: rest) = t.literal := by rw [← first, genuine.literal]
    refine ⟨line + newlines ⟨.token t.kind, c :: rest⟩, ?_⟩
    rw [List.cons_append, scanFrom, written.cut_apart apart]
    simp [item?, spelled, value]

/-- Tokens whose lexemes are laid out are told again, each on the line where it stands then. -/
theorem scanFrom_laidOut {tokens : List Token} {text : List Char}
    (laid : LaidOut (tokens.map (·.lexeme)) text) (genuine : ∀ t ∈ tokens, t.Genuine) (line : Nat) :
    ∃ tokens' last, scanFrom line text = tokens'.map .token ++ [.token (.endOfFile last)] ∧
      List.Forall₂ (Token.Relined fun _ _ => True) tokens tokens' := by
  generalize same : tokens.map (·.lexeme) = lexemes at laid
  induction laid generalizing tokens line with
  | nil =>
    obtain rfl := List.map_eq_nil_iff.1 same
    exact ⟨[], line, by rw [scanFrom]; rfl, .nil⟩
  | one lexeme =>
    obtain ⟨t, rfl, rfl⟩ := List.map_eq_singleton_iff.1 same
    obtain ⟨reached, told⟩ := scanFrom_token (genuine t (by simp)) line [] (by simp)
    rw [List.append_nil] at told
    refine ⟨[{ t with line := reached }], reached, ?_, .cons ⟨rfl, rfl, rfl, trivial⟩ .nil⟩
    rw [told, scanFrom]
    rfl
  | @more lexeme next lexemes separator text separates _ ih =>
    obtain ⟨t, later, rfl, rfl, rest⟩ := List.map_eq_cons_iff.1 same
    have apart : ∀ b ∈ (separator ++ text).head?, isBlank b = true := by
      cases separates with
      | intro blank _ => simp [blank]
    obtain ⟨reached, told⟩ := scanFrom_token (genuine t (by simp)) line (separator ++ text) apart
    obtain ⟨behind, passed⟩ := scanFrom_gap separates.gap reached text
    obtain ⟨tokens', last, told', related⟩ :=
      ih (fun t member => genuine t (List.mem_cons_of_mem _ member)) behind rest
    refine ⟨{ t with line := reached } :: tokens', last, ?_, .cons ⟨rfl, rfl, rfl, trivial⟩ related⟩
    rw [told, passed, told']
    rfl

end Item

/-- The lexemes of a source, the end of the file aside. -/
def lexemes (source : String) : List String :=
  ((scan source).1.filter (·.kind ≠ .eof)).map (·.lexeme)

/-- Layout does not matter. However the lexemes of a source are laid out, the text has no lexical error
and the same tokens, lines aside. -/
theorem scan_laidOut (source text : String) (laid : Piece.LaidOut (lexemes source) text.toList) :
    (scan text).2 = [] ∧
      List.Forall₂ (Token.Relined fun _ _ => True) (scan source).1 (scan text).1 := by
  obtain ⟨items, last, scanned, all⟩ := Item.scanFrom_genuine 1 source.toList
  rw [← Item.scan_eq] at scanned
  have tokens := congrArg Prod.fst (Item.scan_of_ended scanned)
  have words : lexemes source = (items.filterMap Item.token?).map (·.lexeme) := by
    have proper : (items.filterMap Item.token?).filter (·.kind ≠ .eof) = items.filterMap Item.token? :=
      List.filter_eq_self.2 fun t member => by simpa using (all t member).written.kind_ne_eof
    rw [lexemes, tokens, List.filter_append, proper]
    simp [Token.endOfFile]
  rw [words] at laid
  obtain ⟨tokens', last', told, related⟩ := Item.scanFrom_laidOut laid all 1
  rw [← Item.scan_eq] at told
  have rescanned : scan text = (tokens' ++ [.endOfFile last'], []) := by
    rw [Item.scan_of_ended told]
    simp [Function.comp_def, Item.token?, Item.diagnostic?]
  rw [rescanned, tokens]
  exact ⟨rfl, List.rel_append related (.cons ⟨rfl, rfl, rfl, trivial⟩ .nil)⟩

/-- Digits kept from a point, a slash before a comment, and a string that looks like one. -/
theorem scan_laidOut_slashes :
    Piece.LaidOut (lexemes "1 .5/\"//\"") "1 .\t5 // five\n/\r//\n\"//\"".toList ∧
      (scan "1 .\t5 // five\n/\r//\n\"//\"").2 = [] ∧
      List.Forall₂ (Token.Relined fun _ _ => True) (scan "1 .5/\"//\"").1
        (scan "1 .\t5 // five\n/\r//\n\"//\"").1 := by
  have words : lexemes "1 .5/\"//\"" = ["1", ".", "5", "/", "\"//\""] := by decide +kernel
  have five : '\n' ∉ [' ', 'f', 'i', 'v', 'e'] := by decide
  have nothing : '\n' ∉ ([] : List Char) := by decide
  have laid : Piece.LaidOut (lexemes "1 .5/\"//\"") "1 .\t5 // five\n/\r//\n\"//\"".toList := by
    rw [words]
    exact .more (.intro (b := ' ') rfl .nil) (.more (.intro (b := '\t') rfl .nil)
      (.more (.intro (b := ' ') rfl (.comment five .nil)) (.more (.intro (b := '\r') rfl
        (.comment nothing .nil)) (.one _))))
  exact ⟨laid, scan_laidOut _ _ laid⟩

end Lox
