import Lox.Decimal.Shortest

/-! How numbers are written: which digits, where the point stands, and what the numbers that have no
digits are called. -/
namespace Lox.Decimal

/-- The decisions of one written form of the shortest digits. -/
structure Layout where
  tie : Tie
  /-- A whole number keeps a final `.0`. -/
  wholePoint : Bool
  /-- The exponents of the leading digit, from and below, that are written without an exponent;
  without bounds every number is. -/
  positional : Option (Int × Int)

def zeros (count : Nat) : String := String.ofList (List.replicate count '0')

/-- Digits with their point in place, filled up with zeros on either side. -/
def Digits.positional (d : Digits) (wholePoint : Bool) : String :=
  let text := toString d.digits
  let places := (-d.exponent).toNat
  if places = 0 then
    text ++ zeros d.exponent.toNat ++ if wholePoint then ".0" else ""
  else if places < text.length then
    String.ofList (text.toList.take (text.length - places)) ++ "." ++
      String.ofList (text.toList.drop (text.length - places))
  else "0." ++ zeros (places - text.length) ++ text

/-- One digit, a point if others follow, and the signed power of ten. -/
def Digits.scientific (d : Digits) : String :=
  let text := toString d.digits
  let power := d.exponent + text.length - 1
  let tail := text.toList.drop 1
  String.ofList (text.toList.take 1) ++
    (if tail.isEmpty then "" else "." ++ String.ofList tail) ++
    (if power < 0 then "e-" else "e+") ++ toString power.natAbs

def Digits.write (d : Digits) (layout : Layout) : String :=
  let leading := d.exponent + width d.digits - 1
  match layout.positional with
  | none => d.positional layout.wholePoint
  | some (first, bound) =>
    if d.digits = 0 || (first ≤ leading && leading < bound) then d.positional layout.wholePoint
    else d.scientific

def signed (x : Float) (magnitude : String) : String :=
  if isNegative x then "-" ++ magnitude else magnitude

/-- A number with its sign, zero's sign included. -/
def Layout.write (layout : Layout) (x : Float) : String :=
  if x.isNaN then "NaN"
  else if x.isInf then signed x "inf"
  else signed x (((Magnitude.ofFloat x).shortest layout.tie).write layout)

/-- The integer part, every digit of it, and `.0`. -/
def exactWhole (x : Float) : String :=
  signed x (toString (Magnitude.ofFloat x).floor ++ ".0")

end Lox.Decimal
