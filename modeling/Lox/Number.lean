import Lox.Decimal.Layout

/-! The written forms of the language's numbers. -/
namespace Lox.Number

/-- What a program prints: the fewest digits that read back, never an exponent, a whole number
without a point. -/
def text (x : Float) : String := Decimal.Layout.write ⟨.up, false, none⟩ x

/-- The form in syntax trees: a whole number is exact to the last digit and keeps its point. -/
def pointed (x : Float) : String := if Decimal.isWhole x then Decimal.exactWhole x else text x

/-- The form in token displays, where zero has no sign. -/
def unsignedZero (x : Float) : String := if x == 0 then "0.0" else pointed x

/-- The form in token listings: an exponent outside `1e-5` to `1e16`, and nothing for a number that
is not finite. -/
def listed (x : Float) : String :=
  if x.isFinite then Decimal.Layout.write ⟨.toEven, true, some (-5, 16)⟩ x else "null"

end Lox.Number
