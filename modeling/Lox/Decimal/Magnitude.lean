/-! Exact values of finite doubles, read from their bits. All arithmetic on them is arithmetic of
naturals, so nothing here rounds. The infinities and NaN have no magnitude: callers test for them
first. -/
namespace Lox.Decimal

/-- The size of a finite double, exactly `mantissa * 2 ^ exponent`. -/
structure Magnitude where
  mantissa : Nat
  exponent : Int
  /-- The double below is half as far away as the double above. -/
  narrowBelow : Bool
  deriving DecidableEq, Repr

namespace Magnitude

/-- The leading bit of a mantissa, which the fraction field leaves out. -/
def hiddenBit : Nat := 4503599627370496

/-- Exponent field zero holds the subnormals, which have no hidden leading bit. -/
def ofFloat (x : Float) : Magnitude :=
  let field := (x.toBits >>> 52).toNat % 2048
  let fraction := x.toBits.toNat % hiddenBit
  if field = 0 then ⟨fraction, -1074, false⟩
  else ⟨hiddenBit + fraction, (field : Int) - 1075, fraction = 0 && 1 < field⟩

def numerator (x : Magnitude) : Nat := x.mantissa * Nat.pow 2 x.exponent.toNat

def denominator (x : Magnitude) : Nat := Nat.pow 2 (-x.exponent).toNat

def isZero (x : Magnitude) : Bool := x.mantissa = 0

def isWhole (x : Magnitude) : Bool := x.numerator % x.denominator = 0

/-- The integer part. -/
def floor (x : Magnitude) : Nat := x.numerator / x.denominator

theorem denominator_pos (x : Magnitude) : 0 < x.denominator := Nat.pow_pos (by decide)

theorem floor_mul_denominator (x : Magnitude) (whole : x.isWhole = true) :
    x.floor * x.denominator = x.numerator :=
  Nat.div_mul_cancel (Nat.dvd_of_mod_eq_zero (by simpa [isWhole] using whole))

end Magnitude

/-- Finite and without a fractional part. -/
def isWhole (x : Float) : Bool := x.isFinite && (Magnitude.ofFloat x).isWhole

/-- The sign bit of a number; NaN has none. -/
def isNegative (x : Float) : Bool := !x.isNaN && x.toBits >>> 63 = 1

end Lox.Decimal
