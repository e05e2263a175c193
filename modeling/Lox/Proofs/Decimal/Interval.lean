import Lox.Decimal.Magnitude
import Mathlib

/-! The doubles in their order. The rounding interval of one ends where that of the next begins, and
of two neighbours only the one with an even mantissa has the end they share. So no number rounds to
two doubles. -/
namespace Lox.Decimal.Magnitude

/-- The double with the given fields, its sign left out. -/
def ofFields (field fraction : Nat) : Magnitude :=
  if field = 0 then ⟨fraction, -1074, false⟩
  else ⟨hiddenBit + fraction, (field : Int) - 1075, fraction = 0 && 1 < field⟩

/-- The double in a given place of their order, from zero on. -/
def nth (k : Nat) : Magnitude := ofFields (k / hiddenBit) (k % hiddenBit)

/-- Without the sign, the bits of a double count the place it has. -/
theorem ofFloat_eq_nth (x : Float) : ofFloat x = nth (x.toBits.toNat % 2 ^ 63) := by
  have field : (x.toBits >>> 52).toNat % 2048 = x.toBits.toNat % 2 ^ 63 / hiddenBit := by
    have shift : (x.toBits >>> 52).toNat = x.toBits.toNat / 2 ^ 52 := by
      rw [UInt64.toNat_shiftRight, Nat.shiftRight_eq_div_pow]
      rfl
    rw [shift, hiddenBit]
    omega
  have fraction : x.toBits.toNat % hiddenBit = x.toBits.toNat % 2 ^ 63 % hiddenBit := by
    simp only [hiddenBit]
    omega
  simp only [ofFloat, nth, ofFields, field, fraction]

def value (x : Magnitude) : ℚ := x.mantissa * 2 ^ x.exponent

/-- Where the rounding interval begins, halfway to the double below. -/
def low (x : Magnitude) : ℚ :=
  (4 * x.mantissa - if x.narrowBelow then 1 else 2) * 2 ^ (x.exponent - 2)

/-- Where the rounding interval ends, halfway to the double above. -/
def high (x : Magnitude) : ℚ := (4 * x.mantissa + 2) * 2 ^ (x.exponent - 2)

/-- The number is in the rounding interval. -/
def Rounds (x : Magnitude) (q : ℚ) : Prop :=
  x.low ≤ q ∧ q ≤ x.high ∧ (q = x.low ∨ q = x.high → x.mantissa % 2 = 0)

theorem value_eq_quarters (x : Magnitude) : x.value = 4 * x.mantissa * 2 ^ (x.exponent - 2) := by
  rw [value, zpow_sub₀ (by norm_num)]
  ring

theorem low_lt_value (x : Magnitude) : x.low < x.value := by
  rw [value_eq_quarters, low]
  refine mul_lt_mul_of_pos_right ?_ (by positivity)
  split <;> linarith

theorem value_lt_high (x : Magnitude) : x.value < x.high := by
  rw [value_eq_quarters, high]
  exact mul_lt_mul_of_pos_right (by linarith) (by positivity)

theorem rounds_value (x : Magnitude) : x.Rounds x.value :=
  ⟨x.low_lt_value.le, x.value_lt_high.le, fun ends =>
    absurd ends (not_or.2 ⟨x.low_lt_value.ne', x.value_lt_high.ne⟩)⟩

theorem mantissa_nth_mod_two (k : Nat) : (nth k).mantissa % 2 = k % 2 := by
  unfold nth ofFields hiddenBit
  split <;> simp only <;> omega

/-- The mantissa counts on. -/
theorem low_ofFields_succ (field fraction : Nat) :
    (ofFields field (fraction + 1)).low = (ofFields field fraction).high := by
  cases field with
  | zero =>
    refine congrArg₂ (· * ·) ?_ rfl
    simp only [ofFields]
    push_cast
    ring
  | succ field =>
    simp only [ofFields, low, high, Nat.succ_ne_zero, if_false, decide_false, Bool.false_and]
    push_cast
    ring

/-- The mantissa starts again, in twice the unit but with the hidden bit. -/
theorem low_ofFields_zero (field : Nat) :
    (ofFields (field + 1) 0).low = (ofFields field (hiddenBit - 1)).high := by
  cases field with
  | zero =>
    have unit : ((0 + 1 : Nat) : Int) - 1075 - 2 = -1074 - 2 := by decide
    have narrow : ¬1 < 0 + 1 := by decide
    simp only [ofFields, low, high, Nat.succ_ne_zero, if_true, if_false, unit, narrow, hiddenBit,
      decide_true, decide_false, Bool.and_false, Bool.false_eq_true]
    refine congrArg₂ (· * ·) ?_ rfl
    norm_num
  | succ field =>
    have unit : (2 : ℚ) ^ (((field + 1 + 1 : Nat) : Int) - 1075 - 2) =
        2 * 2 ^ (((field + 1 : Nat) : Int) - 1075 - 2) := by
      rw [← zpow_one_add₀ (by norm_num)]
      congr 1
      push_cast
      ring
    have narrow : 1 < field + 1 + 1 := by omega
    simp only [ofFields, low, high, Nat.succ_ne_zero, if_false, unit, narrow, hiddenBit,
      decide_true, Bool.true_and, if_true]
    push_cast
    ring

/-- One interval ends where the next begins. -/
theorem low_nth_succ (k : Nat) : (nth (k + 1)).low = (nth k).high := by
  rcases Nat.lt_or_ge (k % hiddenBit + 1) hiddenBit with inside | last
  · have field : (k + 1) / hiddenBit = k / hiddenBit := by
      simp only [hiddenBit] at inside ⊢
      omega
    have fraction : (k + 1) % hiddenBit = k % hiddenBit + 1 := by
      simp only [hiddenBit] at inside ⊢
      omega
    rw [nth, nth, field, fraction, low_ofFields_succ]
  · have field : (k + 1) / hiddenBit = k / hiddenBit + 1 := by
      simp only [hiddenBit] at last ⊢
      omega
    have fraction : (k + 1) % hiddenBit = 0 := by
      simp only [hiddenBit] at last ⊢
      omega
    have full : k % hiddenBit = hiddenBit - 1 := by
      simp only [hiddenBit] at last ⊢
      omega
    rw [nth, nth, field, fraction, full, low_ofFields_zero]

theorem low_nth_strictMono : StrictMono fun k => (nth k).low :=
  strictMono_nat_of_lt_succ fun k => by
    rw [low_nth_succ]
    exact (low_lt_value _).trans (value_lt_high _)

/-- A number rounds to one double only. -/
theorem nth_unique {k l : Nat} {q : ℚ} (first : (nth k).Rounds q) (second : (nth l).Rounds q) :
    k = l := by
  have apart {k l : Nat} (less : k < l) (first : (nth k).Rounds q) (second : (nth l).Rounds q) :
      False := by
    have step : (nth k).high ≤ (nth l).low := by
      rw [← low_nth_succ]
      exact low_nth_strictMono.monotone less
    have last : q = (nth k).high := le_antisymm first.2.1 (step.trans second.1)
    have initial : q = (nth l).low := le_antisymm (last.le.trans step) second.1
    have next : k + 1 = l := low_nth_strictMono.injective (by
      simp only [low_nth_succ]
      rw [← last, ← initial])
    have even := first.2.2 (.inr last)
    have even' := second.2.2 (.inl initial)
    rw [mantissa_nth_mod_two] at even even'
    omega
  rcases Nat.lt_trichotomy k l with less | same | greater
  · exact (apart less first second).elim
  · exact same
  · exact (apart greater second first).elim

end Lox.Decimal.Magnitude
