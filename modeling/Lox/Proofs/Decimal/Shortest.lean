import Lox.Decimal.Shortest
import Lox.Proofs.Decimal.Interval

/-! The digits that a double is written with are in its rounding interval, whichever grid they were
found on. -/
namespace Lox.Decimal

/-- A power split in the two naturals that the grids are made of. -/
theorem zpow_mul_pow {b : ℚ} (nonzero : b ≠ 0) (z : Int) :
    b ^ z * b ^ (-z).toNat = b ^ z.toNat := by
  rw [← zpow_natCast, ← zpow_natCast, ← zpow_add₀ nonzero]
  congr 1
  omega

def Digits.value (d : Digits) : ℚ := d.digits * 10 ^ d.exponent

theorem Digits.value_stripped (d : Digits) : d.stripped.value = d.value := by
  induction d using Digits.stripped.induct with
  | case1 d tens ih =>
    rw [Digits.stripped, if_pos tens, ih]
    have divided : (d.digits / 10) * 10 = d.digits := by omega
    have more : (10 : ℚ) ^ (d.exponent + 1) = 10 * 10 ^ d.exponent := by
      rw [add_comm, zpow_one_add₀ (by norm_num)]
    simp only [value, more]
    rw [← mul_assoc]
    exact congrArg (· * (10 : ℚ) ^ d.exponent) (by exact_mod_cast divided)
  | case2 d done => rw [Digits.stripped, if_neg done]

namespace Magnitude

theorem value_exact (x : Magnitude) : x.exact.value = x.value := by
  -- Below zero, a power of two is one of ten without its fives.
  have split : (2 : ℚ) ^ x.exponent.toNat * 5 ^ (-x.exponent).toNat * 10 ^ min x.exponent 0 =
      2 ^ x.exponent := by
    have five := zpow_mul_pow (b := 5) (by norm_num) x.exponent
    rcases le_total 0 x.exponent with up | down
    · rw [min_eq_right up, Int.toNat_eq_zero.2 (by omega : -x.exponent ≤ 0), ← zpow_natCast,
        Int.toNat_of_nonneg up]
      simp
    · rw [Int.toNat_eq_zero.2 down] at five ⊢
      have ten : (10 : ℚ) ^ x.exponent = 2 ^ x.exponent * 5 ^ x.exponent := by
        rw [← mul_zpow]
        norm_num
      rw [min_eq_left down, ten, pow_zero, one_mul, mul_left_comm,
        mul_comm _ ((5 : ℚ) ^ x.exponent), five, pow_zero, mul_one]
  simp only [exact, Digits.value, value, numerator, Nat.pow_eq]
  push_cast
  rw [← split]
  ring

theorem value_of_isWhole (x : Magnitude) (whole : x.isWhole = true) :
    x.value = x.floor := by
  have positive : (0 : ℚ) < x.denominator := by exact_mod_cast x.denominator_pos
  have exactly : ((x.floor * x.denominator : Nat) : ℚ) = x.numerator := by
    rw [x.floor_mul_denominator whole]
  rw [← mul_left_inj' positive.ne', ← Nat.cast_mul, exactly]
  simp only [value, numerator, denominator, Nat.pow_eq]
  push_cast
  rw [← zpow_mul_pow (by norm_num) x.exponent]
  ring

/-- In one unit, the numbers beside the grid are the naturals of the window. -/
theorem window_unit {x : Magnitude} (positive : 0 < x.mantissa) (exponent : Int) : ∃ unit : ℚ,
    0 < unit ∧ x.low * unit = (x.window exponent).low ∧ x.high * unit = (x.window exponent).high ∧
      ∀ point : Nat,
        point * 10 ^ exponent * unit = ((point * (x.window exponent).step : Nat) : ℚ) := by
  have two := zpow_mul_pow (b := 2) (by norm_num) (x.exponent - 2)
  have ten := zpow_mul_pow (b := 10) (by norm_num) exponent
  rw [neg_sub] at two
  refine ⟨2 ^ (2 - x.exponent).toNat * 10 ^ (-exponent).toNat, by positivity, ?_, ?_,
    fun point => ?_⟩
  · have quarters : ((4 * x.mantissa - (if x.narrowBelow then 1 else 2) : Nat) : ℚ) =
        4 * x.mantissa - if x.narrowBelow then 1 else 2 := by
      rw [Nat.cast_sub (by split <;> omega)]
      push_cast
      rfl
    simp only [low, window, Nat.pow_eq]
    push_cast [quarters]
    rw [← two]
    ring
  · simp only [high, window, Nat.pow_eq]
    push_cast
    rw [← two]
    ring
  · simp only [window, Nat.pow_eq]
    push_cast
    rw [← ten]
    ring

/-- What the window admits rounds to the value. -/
theorem rounds_of_admits {x : Magnitude} (positive : 0 < x.mantissa) {exponent : Int} {point : Nat}
    (admitted : (x.window exponent).admits point = true) : x.Rounds (point * 10 ^ exponent) := by
  obtain ⟨unit, above, lowest, highest, reached⟩ := window_unit positive exponent
  have least : x.low ≤ point * 10 ^ exponent ↔
      (x.window exponent).low ≤ point * (x.window exponent).step := by
    rw [← mul_le_mul_iff_left₀ above, lowest, reached, Nat.cast_le]
  have greatest : point * 10 ^ exponent ≤ x.high ↔
      point * (x.window exponent).step ≤ (x.window exponent).high := by
    rw [← mul_le_mul_iff_left₀ above, highest, reached, Nat.cast_le]
  have atLow : (point : ℚ) * 10 ^ exponent = x.low ↔
      point * (x.window exponent).step = (x.window exponent).low := by
    rw [← mul_left_inj' above.ne', lowest, reached, Nat.cast_inj]
  have atHigh : (point : ℚ) * 10 ^ exponent = x.high ↔
      point * (x.window exponent).step = (x.window exponent).high := by
    rw [← mul_left_inj' above.ne', highest, reached, Nat.cast_inj]
  have even : (x.window exponent).closed = true ↔ x.mantissa % 2 = 0 := by simp [window]
  rw [Rounds, least, greatest, atLow, atHigh, ← even]
  simp only [Window.admits] at admitted
  split at admitted <;> simp only [Bool.and_eq_true, decide_eq_true_eq] at admitted
  · exact ⟨admitted.1, admitted.2, fun _ => ‹_›⟩
  · exact ⟨admitted.1.le, admitted.2.le, fun ends => by omega⟩

theorem rounds_shortest (x : Magnitude) (tie : Tie) : x.Rounds (x.shortest tie).value := by
  by_cases zero : x.isZero = true
  · have nothing : x.value = 0 := by
      have none : x.mantissa = 0 := by simpa [isZero] using zero
      simp [value, none]
    have same : (x.shortest tie).value = x.value := by
      simp [shortest, zero, Digits.value, nothing]
    rw [same]
    exact x.rounds_value
  · have positive : 0 < x.mantissa := Nat.pos_of_ne_zero (by simpa [isZero] using zero)
    rw [shortest, if_neg zero, Digits.value_stripped]
    cases found : (List.range 17).findSome? fun (extra : Nat) =>
        ((x.window (x.scale - 1 - extra)).nearest? tie).map fun point =>
          (⟨point, x.scale - 1 - extra⟩ : Digits) with
    | none =>
      simp only [Option.getD_none, value_exact]
      exact x.rounds_value
    | some d =>
      obtain ⟨extra, -, chosen⟩ := List.exists_of_findSome?_eq_some found
      obtain ⟨point, near, rfl⟩ := Option.map_eq_some_iff.1 chosen
      simp only [Option.getD_some]
      exact rounds_of_admits positive (Window.nearest?_admits _ tie point near)

end Magnitude

end Lox.Decimal
