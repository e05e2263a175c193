import Lox.Decimal.Reading
import Lox.Token

/-! Source text cut into pieces: blanks, comments, tokens, and the two kinds of text that belong to
no token. `cut` takes the longest piece off the front, so a text is its pieces joined. Letters and
digits are those of ASCII; any other character outside a string or comment is a piece of its own. -/
namespace Lox

inductive Shape where
  | blank
  | comment
  | token (kind : TokenKind)
  | unexpected
  | unterminated
  deriving DecidableEq, Repr

structure Piece where
  shape : Shape
  text : List Char
  deriving DecidableEq, Repr

namespace Piece

def isBlank (c : Char) : Bool := c = ' ' || c = '\t' || c = '\r' || c = '\n'

def isWordStart (c : Char) : Bool :=
  ('a' ≤ c && c ≤ 'z') || ('A' ≤ c && c ≤ 'Z') || c = '_'

def isWordPart (c : Char) : Bool := isWordStart c || Decimal.isDigit c

/-- Operators of one character, alone and before an equals sign. -/
def comparison? : Char → Option (TokenKind × TokenKind)
  | '!' => some (.bang, .bangEqual)
  | '=' => some (.equal, .equalEqual)
  | '<' => some (.less, .lessEqual)
  | '>' => some (.greater, .greaterEqual)
  | _ => none

def punctuation? : Char → Option TokenKind
  | '(' => some .leftParen
  | ')' => some .rightParen
  | '\x7b' => some .leftBrace
  | '\x7d' => some .rightBrace
  | ',' => some .comma
  | '.' => some .dot
  | '-' => some .minus
  | '+' => some .plus
  | ';' => some .semicolon
  | '*' => some .star
  | '/' => some .slash
  | _ => none

def wordKind (word : List Char) : TokenKind :=
  ((Keyword.ofSpelling? (String.ofList word)).map .keyword).getD .identifier

/-- What follows the whole part of a number: a point and digits, if a digit follows the point. -/
def fraction : List Char → List Char × List Char
  | '.' :: d :: rest =>
    if Decimal.isDigit d then
      ('.' :: d :: rest.takeWhile Decimal.isDigit, rest.dropWhile Decimal.isDigit)
    else ([], '.' :: d :: rest)
  | rest => ([], rest)

/-- The piece that a text beginning with `c` begins with, and the text after it. -/
def cut (c : Char) (rest : List Char) : Piece × List Char :=
  if isBlank c then (⟨.blank, [c]⟩, rest)
  else if c = '"' then
    match rest.dropWhile (· ≠ '"') with
    | [] => (⟨.unterminated, c :: rest⟩, [])
    | quote :: after => (⟨.token .string, c :: (rest.takeWhile (· ≠ '"') ++ [quote])⟩, after)
  else if c = '/' && rest.head? = some '/' then
    (⟨.comment, c :: rest.takeWhile (· ≠ '\n')⟩, rest.dropWhile (· ≠ '\n'))
  else if Decimal.isDigit c then
    let (tail, after) := fraction (rest.dropWhile Decimal.isDigit)
    (⟨.token .number, c :: (rest.takeWhile Decimal.isDigit ++ tail)⟩, after)
  else if isWordStart c then
    let word := c :: rest.takeWhile isWordPart
    (⟨.token (wordKind word), word⟩, rest.dropWhile isWordPart)
  else match comparison? c, rest with
    | some (_, paired), '=' :: after => (⟨.token paired, [c, '=']⟩, after)
    | some (alone, _), rest => (⟨.token alone, [c]⟩, rest)
    | none, rest =>
      match punctuation? c with
      | some kind => (⟨.token kind, [c]⟩, rest)
      | none => (⟨.unexpected, [c]⟩, rest)

theorem fraction_append (text : List Char) : (fraction text).1 ++ (fraction text).2 = text := by
  unfold fraction
  split
  · split <;> simp [List.takeWhile_append_dropWhile]
  · simp

/-- Nothing is lost and nothing is added. -/
theorem cut_append (c : Char) (rest : List Char) :
    (cut c rest).1.text ++ (cut c rest).2 = c :: rest := by
  unfold cut
  split
  · simp
  split
  · split
    · simp
    · rename_i quote after found
      simp [← found, List.takeWhile_append_dropWhile]
  split
  · simp [List.takeWhile_append_dropWhile]
  split
  · simp only [List.cons_append, List.append_assoc, fraction_append,
      List.takeWhile_append_dropWhile]
  split
  · simp [List.takeWhile_append_dropWhile]
  split
  · simp
  · simp
  · split <;> simp

theorem text_cut_ne_nil (c : Char) (rest : List Char) : (cut c rest).1.text ≠ [] := by
  unfold cut
  repeat' split
  all_goals simp

/-- Cutting makes progress. -/
theorem length_cut_le (c : Char) (rest : List Char) : (cut c rest).2.length ≤ rest.length := by
  have joined := congrArg List.length (cut_append c rest)
  have positive := List.length_pos_iff.2 (text_cut_ne_nil c rest)
  simp only [List.length_append, List.length_cons] at joined
  omega

/-- The value of a number's text. -/
def numeral (text : List Char) : Float :=
  let whole := text.takeWhile Decimal.isDigit
  Decimal.fixed whole (text.drop (whole.length + 1))

/-- The value of a token's text; only numbers and strings have one. A string's is what stands
between its quotes. -/
def literal (kind : TokenKind) (text : List Char) : Option Literal :=
  match kind with
  | .number => some (.number (numeral text))
  | .string => some (.string (String.ofList (text.drop 1).dropLast))
  | _ => none

def newlines (p : Piece) : Nat := p.text.count '\n'

end Piece

end Lox
