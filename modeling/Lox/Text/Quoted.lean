import Lox.Text.Unseen

/-! Text between double quotes. The two forms differ in what they escape: token listings and file
names in messages. -/
namespace Lox.Text

/-- The characters of a text one by one, each as it is or as its escape. -/
def quoted (escape? : Char → Option String) (text : String) : String :=
  "\"" ++ text.foldl (fun done c => done ++ (escape? c).getD (String.singleton c)) "" ++ "\""

def hexadecimal (c : Char) : String := String.ofList (Nat.toDigits 16 c.toNat)

def listingEscape? (c : Char) : Option String :=
  match c with
  | '"' => some "\\\""
  | '\\' => some "\\\\"
  | '\n' => some "\\n"
  | '\r' => some "\\r"
  | '\t' => some "\\t"
  | '\x08' => some "\\b"
  | '\x0c' => some "\\f"
  | c =>
    if c.toNat < 0x10 then some ("\\u000" ++ hexadecimal c)
    else if c.toNat < 0x20 then some ("\\u00" ++ hexadecimal c)
    else none

/-- A string of a token listing: quotes, backslashes and the characters below the blank are
escaped, all others stand for themselves. -/
def listed (text : String) : String := quoted listingEscape? text

def nameEscape? (c : Char) : Option String :=
  match c with
  | '"' => some "\\\""
  | '\\' => some "\\\\"
  | '\n' => some "\\n"
  | '\r' => some "\\r"
  | '\t' => some "\\t"
  | '\x00' => some "\\0"
  | c => if isUnseen c then some ("\\u\x7b" ++ hexadecimal c ++ "\x7d") else none

/-- A file name in a message: double quotes, backslashes and unseen characters are escaped. -/
def fileName (name : String) : String := quoted nameEscape? name

end Lox.Text
