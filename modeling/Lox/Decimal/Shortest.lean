import Lox.Decimal.Magnitude

/-! The fewest decimal digits that read back as a given double. The reals that round to a double
form an interval around it, whose ends belong to it exactly when its mantissa is even. A grid of
decimals with one digit more is ten times finer; the coarsest grid with a point in the interval
wins. Only the two grid points next to the value can be in the interval if any is. -/
namespace Lox.Decimal

/-- The number `digits * 10 ^ exponent`. -/
structure Digits where
  digits : Nat
  exponent : Int
  deriving DecidableEq, Repr

/-- The same number without zeros at the end of its digits. -/
def Digits.stripped (d : Digits) : Digits :=
  if d.digits ≠ 0 ∧ d.digits % 10 = 0 then Digits.stripped ⟨d.digits / 10, d.exponent + 1⟩ else d
termination_by d.digits

/-- What to do when two decimals of the same length are equally near. -/
inductive Tie where
  | toEven
  | up
  deriving DecidableEq, Repr

/-- How many decimal digits a natural number is written with. -/
def width (n : Nat) : Nat := (Nat.toDigits 10 n).length

/-- A value and the ends of its rounding interval beside a grid of decimals, all in one unit. -/
structure Window where
  low : Nat
  value : Nat
  high : Nat
  /-- The distance of neighbouring grid points. -/
  step : Nat
  /-- The ends belong to the interval. -/
  closed : Bool

namespace Window

def admits (w : Window) (point : Nat) : Bool :=
  let reached := point * w.step
  if w.closed then w.low ≤ reached && reached ≤ w.high else w.low < reached && reached < w.high

/-- The nearer admitted neighbour of the value on the grid, counted in grid steps. -/
def nearest? (w : Window) (tie : Tie) : Option Nat :=
  let under := w.value / w.step
  match w.admits under, w.admits (under + 1) with
  | false, false => none
  | true, false => some under
  | false, true => some (under + 1)
  | true, true =>
    match compare (2 * w.value) ((2 * under + 1) * w.step), tie with
    | .lt, _ => some under
    | .gt, _ => some (under + 1)
    | .eq, .up => some (under + 1)
    | .eq, .toEven => some (if under % 2 = 0 then under else under + 1)

theorem nearest?_admits (w : Window) (tie : Tie) (point : Nat) (found : w.nearest? tie = some point) :
    w.admits point = true := by
  simp only [nearest?] at found
  grind

end Window

namespace Magnitude

/-- The value beside the multiples of `10 ^ exponent`, in quarters of the last mantissa bit. -/
def window (x : Magnitude) (exponent : Int) : Window :=
  let unit := Nat.pow 2 (x.exponent - 2).toNat * Nat.pow 10 (-exponent).toNat
  { low := (4 * x.mantissa - if x.narrowBelow then 1 else 2) * unit
    value := 4 * x.mantissa * unit
    high := (4 * x.mantissa + 2) * unit
    step := Nat.pow 2 (2 - x.exponent).toNat * Nat.pow 10 exponent.toNat
    closed := x.mantissa % 2 = 0 }

/-- The least `k` with the value below `10 ^ k`. A value below one is not a power of ten, so the
width of its reciprocal's integer part tells it. -/
def scale (x : Magnitude) : Int :=
  if x.denominator ≤ x.numerator then width x.floor
  else 1 - (width (x.denominator / x.numerator) : Int)

/-- Every digit of the value: a negative power of two is a power of five over one of ten. -/
def exact (x : Magnitude) : Digits :=
  ⟨x.numerator * Nat.pow 5 (-x.exponent).toNat, min x.exponent 0⟩

/-- Seventeen digits identify every double. A value just below a power of ten can round up to it. -/
def shortest (x : Magnitude) (tie : Tie) : Digits :=
  if x.isZero then ⟨0, 0⟩
  else
    let found := (List.range 17).findSome? fun (extra : Nat) =>
      let exponent := x.scale - 1 - extra
      ((x.window exponent).nearest? tie).map (⟨·, exponent⟩)
    (found.getD x.exact).stripped

end Magnitude

end Lox.Decimal
