import Lox.Diagnostic
import Lox.Number

/-! Tokens: a kind, the exact text, the line on which that text ends, and for numbers and strings
the value written. -/
namespace Lox

inductive Keyword where
  | andWord | classWord | elseWord | falseWord | funWord | forWord | ifWord | nilWord | orWord
  | printWord | returnWord | superWord | thisWord | trueWord | varWord | whileWord
  deriving DecidableEq, Repr

namespace Keyword

def spelling : Keyword → String
  | .andWord => "and"
  | .classWord => "class"
  | .elseWord => "else"
  | .falseWord => "false"
  | .funWord => "fun"
  | .forWord => "for"
  | .ifWord => "if"
  | .nilWord => "nil"
  | .orWord => "or"
  | .printWord => "print"
  | .returnWord => "return"
  | .superWord => "super"
  | .thisWord => "this"
  | .trueWord => "true"
  | .varWord => "var"
  | .whileWord => "while"

def all : List Keyword :=
  [.andWord, .classWord, .elseWord, .falseWord, .funWord, .forWord, .ifWord, .nilWord, .orWord,
    .printWord, .returnWord, .superWord, .thisWord, .trueWord, .varWord, .whileWord]

theorem mem_all (k : Keyword) : k ∈ all := by cases k <;> decide

def ofSpelling? (word : String) : Option Keyword := all.find? (·.spelling = word)

theorem spelling_injective {k l : Keyword} (same : k.spelling = l.spelling) : k = l := by
  cases k <;> cases l <;> first | rfl | simp [spelling] at same

theorem ofSpelling?_eq_some_iff {word : String} {k : Keyword} :
    ofSpelling? word = some k ↔ word = k.spelling := by
  constructor
  · intro found
    have := List.find?_some found
    simp_all
  · rintro rfl
    cases found : ofSpelling? k.spelling with
    | none => simpa using List.find?_eq_none.1 found k (mem_all k)
    | some l => exact congrArg some (spelling_injective (by simpa using List.find?_some found))

end Keyword

inductive TokenKind where
  | leftParen | rightParen | leftBrace | rightBrace | comma | dot | minus | plus | semicolon | slash
  | star | bang | bangEqual | equal | equalEqual | greater | greaterEqual | less | lessEqual
  | identifier | string | number
  | keyword (word : Keyword)
  | eof
  deriving DecidableEq, Repr

/-- The name of a kind in displays and listings. -/
def TokenKind.label : TokenKind → String
  | .leftParen => "LEFT_PAREN"
  | .rightParen => "RIGHT_PAREN"
  | .leftBrace => "LEFT_BRACE"
  | .rightBrace => "RIGHT_BRACE"
  | .comma => "COMMA"
  | .dot => "DOT"
  | .minus => "MINUS"
  | .plus => "PLUS"
  | .semicolon => "SEMICOLON"
  | .slash => "SLASH"
  | .star => "STAR"
  | .bang => "BANG"
  | .bangEqual => "BANG_EQUAL"
  | .equal => "EQUAL"
  | .equalEqual => "EQUAL_EQUAL"
  | .greater => "GREATER"
  | .greaterEqual => "GREATER_EQUAL"
  | .less => "LESS"
  | .lessEqual => "LESS_EQUAL"
  | .identifier => "IDENTIFIER"
  | .string => "STRING"
  | .number => "NUMBER"
  | .keyword word => word.spelling.toUpper
  | .eof => "EOF"

/-- Every kind once, in the order of their families. -/
def TokenKind.all : List TokenKind :=
  [.leftParen, .rightParen, .leftBrace, .rightBrace, .comma, .dot, .minus, .plus, .semicolon, .slash,
    .star, .bang, .bangEqual, .equal, .equalEqual, .greater, .greaterEqual, .less, .lessEqual,
    .identifier, .string, .number, .eof] ++ Keyword.all.map .keyword

def TokenKind.ofLabel? (label : String) : Option TokenKind := all.find? (·.label = label)

/-- The value a number or string token was written for. -/
inductive Literal where
  | number (value : Float)
  | string (value : String)
  deriving DecidableEq, Repr

structure Token where
  kind : TokenKind
  lexeme : String
  literal : Option Literal
  line : Nat
  deriving DecidableEq, Repr

namespace Token

/-- The end of a program whose last line is `line`. -/
def endOfFile (line : Nat) : Token := ⟨.eof, "", none, line⟩

def place (t : Token) : Place := if t.kind = .eof then .atEnd else .atLexeme t.lexeme

/-- Kind, lexeme and value on one line. -/
def display (t : Token) : String :=
  let value := match t.literal with
    | none => "null"
    | some (.number x) => Number.unsignedZero x
    | some (.string s) => s
  t.kind.label ++ " " ++ t.lexeme ++ " " ++ value

end Token

end Lox
