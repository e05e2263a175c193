import Lox.Token.Piece

/-! The tokens and lexical errors of a source text, in the order of the text. A token's line is that
of its last character, and a line ends with each newline, wherever it stands. -/
namespace Lox

inductive Item where
  | token (t : Token)
  | error (line : Nat) (e : LexicalError)
  deriving DecidableEq, Repr

/-- The item a piece stands for, if any, when its last character is on `line`. -/
def Piece.item? (p : Piece) (line : Nat) : Option Item :=
  match p.shape with
  | .blank | .comment => none
  | .token kind => some (.token ⟨kind, String.ofList p.text, literal kind p.text, line⟩)
  | .unexpected => p.text.head?.map fun c => .error line (.unexpected c)
  | .unterminated => some (.error line .unterminated)

/-- A source being read: the text that is left of it, whose first character is on `line`. It is
finished when its end has been told. -/
inductive Scanner where
  | reading (line : Nat) (text : List Char)
  | finished
  deriving DecidableEq, Repr

namespace Scanner

def start (source : String) : Scanner := .reading 1 source.toList

/-- How much there is to tell yet, the end included. -/
def left : Scanner → Nat
  | .reading _ text => text.length + 1
  | .finished => 0

/-- The next item, past blanks and comments, and what is left behind it. The end of the file is told
once. -/
def next : Scanner → Option Item × Scanner
  | .reading line [] => (some (.token (.endOfFile line)), .finished)
  | .reading line (c :: rest) =>
    let piece := (Piece.cut c rest).1
    let reached := line + piece.newlines
    match piece.item? reached with
    | some item => (some item, .reading reached (Piece.cut c rest).2)
    | none => next (.reading reached (Piece.cut c rest).2)
  | .finished => (none, .finished)
termination_by s => s.left
decreasing_by
  have := Piece.length_cut_le c rest
  simp only [left, List.length_cons]
  omega

/-- Telling an item makes progress. -/
theorem left_lt_of_next {item : Item} {s behind : Scanner} (told : s.next = (some item, behind)) :
    behind.left < s.left := by
  fun_induction next s with
  | case1 line =>
    cases told
    exact Nat.zero_lt_succ 0
  | case2 line c rest piece reached item' found =>
    cases told
    exact Nat.succ_lt_succ (Nat.lt_succ_of_le (Piece.length_cut_le c rest))
  | case3 line c rest piece reached none ih =>
    have shorter : (reading reached (Piece.cut c rest).2).left < (reading line (c :: rest)).left :=
      Nat.succ_lt_succ (Nat.lt_succ_of_le (Piece.length_cut_le c rest))
    exact Nat.lt_trans (ih told) shorter
  | case4 => cases told

/-- All items that are left. -/
def items (s : Scanner) : List Item :=
  match _told : s.next with
  | (some item, behind) => item :: behind.items
  | (none, _) => []
termination_by s.left
decreasing_by exact left_lt_of_next _told

end Scanner

namespace Item

def scan (source : String) : List Item := (Scanner.start source).items

def token? : Item → Option Token
  | .token t => some t
  | .error .. => none

def diagnostic? : Item → Option Diagnostic
  | .token _ => none
  | .error line e => some (.lexical line e)

end Item

/-- The tokens of a source and its lexical errors, apart. Errors stop nothing, so the tokens always
end with the end of the file. -/
def scan (source : String) : List Token × List Diagnostic :=
  let items := Item.scan source
  (items.filterMap Item.token?, items.filterMap Item.diagnostic?)

end Lox
