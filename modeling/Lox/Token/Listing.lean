import Lox.Text.Quoted
import Lox.Token

/-! Token lists as indented JSON text. -/
namespace Lox.Token

def field (name value : String) : String := "    " ++ Text.listed name ++ ": " ++ value

def nested (name value : String) : String :=
  "\x7b\n      " ++ Text.listed name ++ ": " ++ value ++ "\n    \x7d"

def literalText : Option Literal → String
  | none => "null"
  | some (.number x) => nested "Number" (Number.listed x)
  | some (.string s) => nested "Str" (Text.listed s)

def entry (t : Token) : String :=
  "  \x7b\n" ++ ",\n".intercalate
    [field "token_type" (Text.listed t.kind.label), field "lexeme" (Text.listed t.lexeme),
      field "literal" (literalText t.literal), field "line" (toString t.line)] ++ "\n  \x7d"

/-- One object a token, two blanks a level, no newline at the end. -/
def listing (tokens : List Token) : String :=
  if tokens.isEmpty then "[]" else "[\n" ++ ",\n".intercalate (tokens.map entry) ++ "\n]"

end Lox.Token
