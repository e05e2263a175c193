/-! Decimal numbers as text, read to the nearest double. -/
namespace Lox.Decimal

def isDigit (c : Char) : Bool := '0' ≤ c && c ≤ '9'

/-- The value of a digit string. -/
def natural (digits : List Char) : Nat :=
  digits.foldl (fun value c => 10 * value + (c.toNat - '0'.toNat)) 0

/-- The double nearest to `natural digits * 10 ^ exponent`. Zeros before the first other digit count
for nothing. Powers so large or small that the result is infinite or zero are not computed. -/
def scaled (digits : List Char) (exponent : Int) : Float :=
  let significant := digits.dropWhile (· = '0')
  let magnitude := exponent + significant.length
  if significant.isEmpty then 0
  else if 400 < magnitude then 1 / 0
  else if magnitude < -400 then 0
  else Float.ofScientific (natural significant) (exponent < 0) exponent.natAbs

/-- Digits with a point before the last `fraction.length` of them. -/
def fixed (whole fraction : List Char) : Float :=
  scaled (whole ++ fraction) (-fraction.length)

def word? (text : List Char) : Option Float :=
  match String.ofList (text.map Char.toLower) with
  | "inf" | "infinity" => some (1 / 0)
  | "nan" => some (0 / 0)
  | _ => none

def sign (text : List Char) : Bool × List Char :=
  match text with
  | '-' :: rest => (true, rest)
  | '+' :: rest => (false, rest)
  | _ => (false, text)

def power? (text : List Char) : Option Int :=
  match text with
  | [] => some 0
  | mark :: rest =>
    let (negative, digits) := sign rest
    if mark.toLower = 'e' && !digits.isEmpty && digits.all isDigit then
      some (if negative then -(natural digits : Int) else natural digits)
    else none

def magnitude? (text : List Char) : Option Float :=
  let whole := text.takeWhile isDigit
  let (fraction, rest) := match text.dropWhile isDigit with
    | '.' :: rest => (rest.takeWhile isDigit, rest.dropWhile isDigit)
    | rest => ([], rest)
  if whole.isEmpty && fraction.isEmpty then none
  else (power? rest).map fun power => scaled (whole ++ fraction) (power - fraction.length)

/-- A sign, then digits with at most one point and a power of ten, or the name of a number that has
no digits. -/
def read? (text : String) : Option Float :=
  let (negative, rest) := sign text.toList
  ((word? rest).or (magnitude? rest)).map fun x => if negative then -x else x

end Lox.Decimal
