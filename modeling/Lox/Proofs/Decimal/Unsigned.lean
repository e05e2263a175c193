import Lox.Proofs.Decimal.Numeral

/-! Numbers without a sign. What digits are read to is one, however far it is rounded, and no two
finite ones have the same text: the digits of each are in its own rounding interval only. -/
namespace Lox.Decimal

open Float.Model (Format UnpackedFloat)
open Float.Model.UnpackedFloat

/-- Zero, a positive number or the positive infinity. -/
def unsigned : UnpackedFloat → Bool
  | .infinity .positive | .zero .positive | .finite .positive .. => true
  | _ => false

/-- Neither zero nor infinite. -/
def positive : UnpackedFloat → Bool
  | .finite .positive .. => true
  | _ => false

def Unsigned (x : Float) : Prop := unsigned x.toModel.unpack = true

section

variable {spec : Format} {f g : UnpackedFloat}

theorem unsigned_unpack {b : BitVec spec.numBits} (positive : unpackSign b = 0#1)
    (proper : unpackExponent b = -1#_ → unpackMantissa b = 0#_) :
    unsigned (unpack spec b) = true := by
  simp only [unpack, positive, Sign.ofBitVec, if_true]
  split
  next high => simp [proper high, unsigned]
  next =>
    split
    · split <;> rfl
    · rfl

theorem unsigned_unpack_packComponents {exponent : BitVec spec.exponentBits}
    {mantissa : BitVec spec.mantissaBitsWithoutImplicit}
    (proper : exponent = -1#_ → mantissa = 0#_) :
    unsigned (unpack spec (packComponents spec .positive exponent mantissa)) = true := by
  refine unsigned_unpack ?_ ?_
  · rw [unpackSign_packComponents]
    rfl
  · rwa [unpackExponent_packComponents, unpackMantissa_packComponents]

/-- A number too large to be packed becomes the infinity, and NaN is never packed. -/
theorem unsigned_unpack_pack (plain : unsigned f = true) :
    unsigned (unpack spec (pack spec f)) = true := by
  match f, plain with
  | .infinity .positive, _ => exact unsigned_unpack_packComponents fun _ => rfl
  | .zero .positive, _ => exact unsigned_unpack_packComponents fun _ => rfl
  | .finite .positive m e _, _ =>
    simp only [pack]
    split
    next => exact unsigned_unpack_packComponents fun _ => rfl
    next fits =>
      split
      next =>
        refine unsigned_unpack_packComponents fun full => ?_
        rw [BitVec.neg_one_eq_allOnes, ← BitVec.toNat_inj, BitVec.toNat_ofNat,
          BitVec.toNat_allOnes, Nat.mod_eq_of_lt (by omega)] at full
        omega
      next =>
        refine unsigned_unpack_packComponents fun full => ?_
        rw [BitVec.zero_eq_neg_one_iff] at full
        exact absurd full (Nat.ne_of_gt spec.he)

theorem unsigned_roundWithAccuracy (m : Nat) (e : Int) (accuracy : Accuracy) :
    unsigned (roundWithAccuracy spec .positive m e accuracy) = true := by
  simp only [roundWithAccuracy]
  split <;> rfl

theorem unsigned_mul (plain : unsigned f = true) (proper : positive g = true) :
    unsigned (mul spec f g) = true := by
  match f, g, plain, proper with
  | .infinity .positive, .finite .positive .., _, _ => rfl
  | .zero .positive, .finite .positive .., _, _ => rfl
  | .finite .positive .., .finite .positive .., _, _ => exact unsigned_roundWithAccuracy _ _ _

theorem unsigned_div (plain : unsigned f = true) (proper : positive g = true) :
    unsigned (div spec f g) = true := by
  match f, g, plain, proper with
  | .infinity .positive, .finite .positive .., _, _ => rfl
  | .zero .positive, .finite .positive .., _, _ => rfl
  | .finite .positive .., .finite .positive .., _, _ => exact unsigned_roundWithAccuracy _ _ _

theorem unsigned_ofScientific (m : Nat) (e : Int) :
    unsigned (UnpackedFloat.ofScientific spec m e) = true := by
  unfold UnpackedFloat.ofScientific
  split
  · rfl
  split
  · rfl
  split
  · rfl
  split
  · exact unsigned_mul rfl rfl
  · exact unsigned_div rfl rfl

theorem unsigned_ofNat (n : Nat) : unsigned (UnpackedFloat.ofNat spec n) = true := by
  simp only [UnpackedFloat.ofNat, ofInt, UnpackedFloat.normalize]
  split
  next below => exact absurd (compare_lt_iff_lt.1 below) (by omega)
  next => rfl
  next => exact unsigned_roundWithAccuracy _ _ _

theorem unpackSign_of_unsigned {b : BitVec spec.numBits} (plain : unsigned (unpack spec b) = true) :
    unpackSign b = 0#1 := by
  by_contra negative
  simp only [unpack, Sign.ofBitVec, if_neg negative] at plain
  split at plain
  · split at plain <;> cases plain
  · split at plain
    · split at plain <;> cases plain
    · cases plain

end

theorem positive_powers :
    ∀ x ∈ Float.exactlyRepresentablePowersOfTen, positive x.toModel.unpack = true := by
  decide +kernel

theorem Unsigned.ofScientific (m : Nat) (below : Bool) (e : Nat) :
    Unsigned (Float.ofScientific m below e) := by
  unfold Float.ofScientific
  split
  next fast =>
    have size : Float.exactlyRepresentablePowersOfTen.size = 23 := rfl
    have inside : e < Float.exactlyRepresentablePowersOfTen.size := by omega
    have whole : Unsigned m.toUInt64.toFloat := unsigned_unpack_pack (unsigned_ofNat _)
    have power := positive_powers _ (Array.getElem_mem inside)
    simp only
    split
    · exact unsigned_unpack_pack (unsigned_div whole power)
    · exact unsigned_unpack_pack (unsigned_mul whole power)
  next => exact unsigned_unpack_pack (unsigned_ofScientific _ _)

theorem unpack_one_div_zero : (1 / 0 : Float).toModel.unpack = .infinity .positive := rfl

theorem unsigned_one_div_zero : Unsigned (1 / 0) := by
  rw [Unsigned, unpack_one_div_zero]
  rfl

/-- What digits are read to. -/
theorem Unsigned.scaled (digits : List Char) (exponent : Int) :
    Unsigned (scaled digits exponent) := by
  simp only [Decimal.scaled]
  split
  · exact .ofScientific 0 false 0
  split
  · exact unsigned_one_div_zero
  split
  · exact .ofScientific 0 false 0
  · exact .ofScientific _ _ _

namespace Unsigned

variable {x y : Float}

theorem toBits_lt (plain : Unsigned x) : x.toBits.toNat < 2 ^ 63 := by
  have sign := unpackSign_of_unsigned plain
  rw [unpackSign_def] at sign
  have bit : x.toBits.toNat >>> 63 % 2 ^ 1 = 0 := by
    rw [← UInt64.toNat_toBitVec]
    exact (BitVec.extractLsb'_toNat ..).symm.trans (congrArg BitVec.toNat sign)
  have bound := x.toBits.toNat_lt
  rw [Nat.shiftRight_eq_div_pow] at bit
  omega

theorem signed_eq (plain : Unsigned x) (text : String) : signed x text = text := by
  have clear : x.toBits >>> 63 ≠ 1 := by
    intro set
    have shifted := congrArg UInt64.toNat set
    rw [UInt64.toNat_shiftRight, Nat.shiftRight_eq_div_pow] at shifted
    have small : x.toBits.toNat / 2 ^ 63 = 0 := Nat.div_eq_of_lt plain.toBits_lt
    exact absurd (small.symm.trans shifted) (by decide)
  simp [signed, isNegative, clear]

/-- What is unsigned is the infinity or finite. -/
theorem eq_or_isFinite (plain : Unsigned x) : x = 1 / 0 ∨ x.isFinite = true := by
  match found : x.toModel.unpack with
  | .infinity .positive =>
    refine .inl (Float.toBits_inj.1 (UInt64.toBitVec_inj.1 ?_))
    refine (unpack_inj_of_valid x.toModel.valid (1 / 0 : Float).toModel.valid).1 ?_
    exact found.trans unpack_one_div_zero.symm
  | .zero .positive | .finite .positive .. =>
    refine .inr ?_
    change x.toModel.unpack.isFinite = true
    rw [found]
    rfl
  | .infinity .negative | .zero .negative | .finite .negative .. | .notANumber =>
    rw [Unsigned, found] at plain
    cases plain

end Unsigned

theorem isNaN_eq_false_of_isFinite {x : Float} (finite : x.isFinite = true) : x.isNaN = false := by
  change x.toModel.unpack.isFinite = true at finite
  change x.toModel.unpack.isNaN = false
  cases found : x.toModel.unpack <;> simp_all [UnpackedFloat.isFinite, UnpackedFloat.isNaN]

theorem isInf_eq_false_of_isFinite {x : Float} (finite : x.isFinite = true) : x.isInf = false := by
  change x.toModel.unpack.isFinite = true at finite
  change x.toModel.unpack.isInf = false
  cases found : x.toModel.unpack <;> simp_all [UnpackedFloat.isFinite, UnpackedFloat.isInf]

/-- A finite number's text stands for a number in its rounding interval. -/
theorem Unsigned.numeral {x : Float} (plain : Unsigned x) (finite : x.isFinite = true) :
    ∃ q, Numeral (Number.pointed x).toList q ∧ (Magnitude.ofFloat x).Rounds q := by
  simp only [Number.pointed, isWhole, finite, Bool.true_and]
  split
  next whole =>
    rw [exactWhole, plain.signed_eq]
    refine ⟨_, numeral_pointZero _, ?_⟩
    rw [← Magnitude.value_of_isWhole _ whole]
    exact Magnitude.rounds_value _
  next =>
    simp only [Number.text, Layout.write, isNaN_eq_false_of_isFinite finite,
      isInf_eq_false_of_isFinite finite, Bool.false_eq_true, if_false, plain.signed_eq,
      Digits.write]
    exact ⟨_, numeral_positional _, Magnitude.rounds_shortest _ _⟩

/-- No two numbers have the same text. -/
theorem Unsigned.eq_of_pointed_eq {x y : Float} (plain : Unsigned x) (plain' : Unsigned y)
    (finite : x.isFinite = true) (finite' : y.isFinite = true)
    (same : Number.pointed x = Number.pointed y) : x = y := by
  obtain ⟨q, numeral, rounds⟩ := plain.numeral finite
  obtain ⟨r, numeral', rounds'⟩ := plain'.numeral finite'
  rw [same] at numeral
  rw [Magnitude.ofFloat_eq_nth, numeral.unique numeral'] at rounds
  rw [Magnitude.ofFloat_eq_nth] at rounds'
  have bits := Magnitude.nth_unique rounds rounds'
  rw [Nat.mod_eq_of_lt plain.toBits_lt, Nat.mod_eq_of_lt plain'.toBits_lt] at bits
  exact Float.toBits_inj.1 (UInt64.toNat_inj.1 bits)

end Lox.Decimal
