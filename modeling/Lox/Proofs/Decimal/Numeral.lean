import Lox.Number
import Lox.Decimal.Reading
import Lox.Proofs.Decimal.Shortest

/-! What a text of digits and a point stands for. Digits written with their point in place stand for
the number they make. -/
namespace Lox.Decimal

theorem natural_eq (digits : List Char) : natural digits = Nat.ofDigitChars 10 digits 0 := by
  rw [natural, Nat.ofDigitChars_eq_foldl]

/-- Digits, with a point between two of them or none, and the number they stand for. -/
inductive Numeral : List Char → ℚ → Prop
  | whole {digits : List Char} : digits ≠ [] → (∀ c ∈ digits, isDigit c = true) →
      Numeral digits (natural digits)
  | pointed {digits fraction : List Char} : digits ≠ [] →
      (∀ c ∈ digits ++ fraction, isDigit c = true) →
      Numeral (digits ++ '.' :: fraction) (natural (digits ++ fraction) / 10 ^ fraction.length)

namespace Numeral

variable {text : List Char} {q r : ℚ}

theorem begins (numeral : Numeral text q) : ∃ c rest, text = c :: rest ∧ isDigit c = true := by
  cases numeral with
  | whole proper all | pointed proper all =>
    obtain ⟨c, rest, rfl⟩ := List.exists_cons_of_ne_nil proper
    exact ⟨c, _, rfl, all c (by simp)⟩

theorem chars (numeral : Numeral text q) : ∀ c ∈ text, isDigit c = true ∨ c = '.' := by
  cases numeral with
  | whole _ all => exact fun c member => .inl (all c member)
  | pointed _ all =>
    intro c member
    rcases List.mem_append.1 member with member | member
    · exact .inl (all c (List.mem_append_left _ member))
    · rcases List.mem_cons.1 member with rfl | member
      · exact .inr rfl
      · exact .inl (all c (List.mem_append_right _ member))

/-- A text stands for one number. -/
theorem unique (first : Numeral text q) (second : Numeral text r) : q = r := by
  have read {text : List Char} {q : ℚ} (numeral : Numeral text q) :
      q = natural (text.takeWhile isDigit ++ (text.dropWhile isDigit).drop 1) /
        10 ^ ((text.dropWhile isDigit).drop 1).length := by
    cases numeral with
    | whole _ all =>
      rw [List.takeWhile_eq_self_iff.2 all, List.dropWhile_eq_nil_iff.2 all]
      simp
    | pointed _ all =>
      have before := (List.forall_mem_append.1 all).1
      have point : isDigit '.' = false := by decide
      rw [List.takeWhile_append_of_pos before, List.dropWhile_append_of_pos before]
      simp [point]
  rw [read first, read second]

end Numeral

theorem natural_append (first second : List Char) :
    natural (first ++ second) = 10 ^ second.length * natural first + natural second := by
  rw [natural_eq, natural_eq, natural_eq, Nat.ofDigitChars_append,
    Nat.ofDigitChars_eq_ofDigitChars_zero]

theorem natural_replicate_zero (count : Nat) : natural (List.replicate count '0') = 0 := by
  rw [natural_eq, Nat.ofDigitChars_replicate_zero, Nat.mul_zero]

section

variable (n : Nat)

theorem digits_ne_nil : (toString n).toList ≠ [] := by simp

theorem isDigit_of_mem_digits : ∀ c ∈ (toString n).toList, isDigit c = true := by
  intro c member
  rw [Nat.toString_eq_ofList_toDigits, String.toList_ofList] at member
  have digit := Nat.isDigit_of_mem_toDigits (by decide) (by decide) member
  simp only [Char.isDigit, Bool.and_eq_true, decide_eq_true_eq] at digit
  simp only [isDigit, Bool.and_eq_true, decide_eq_true_eq]
  exact digit

theorem natural_digits : natural (toString n).toList = n := by
  rw [natural_eq, Nat.toString_eq_ofList_toDigits, String.toList_ofList,
    Nat.ofDigitChars_ten_toDigits]

/-- Zeros before the digits count for nothing. -/
theorem natural_zeros_digits (count : Nat) :
    natural (List.replicate count '0' ++ (toString n).toList) = n := by
  rw [natural_append, natural_replicate_zero, natural_digits, Nat.mul_zero, Nat.zero_add]

/-- Each zero behind the digits counts ten times. -/
theorem natural_digits_zeros (count : Nat) :
    natural ((toString n).toList ++ List.replicate count '0') = 10 ^ count * n := by
  rw [natural_append, natural_replicate_zero, natural_digits, List.length_replicate, Nat.add_zero]

theorem isDigit_of_mem_zeros_digits (count : Nat) :
    ∀ c ∈ List.replicate count '0' ++ (toString n).toList, isDigit c = true := by
  refine List.forall_mem_append.2 ⟨fun c member => ?_, isDigit_of_mem_digits n⟩
  rw [List.eq_of_mem_replicate member]
  decide

theorem isDigit_of_mem_digits_zeros (count : Nat) :
    ∀ c ∈ (toString n).toList ++ List.replicate count '0', isDigit c = true := by
  refine List.forall_mem_append.2 ⟨isDigit_of_mem_digits n, fun c member => ?_⟩
  rw [List.eq_of_mem_replicate member]
  decide

/-- A natural number and a fraction of nothing. -/
theorem numeral_pointZero : Numeral (toString n ++ ".0").toList n := by
  have numeral := Numeral.pointed (digits_ne_nil n) (isDigit_of_mem_digits_zeros n 1)
  rw [natural_digits_zeros] at numeral
  simpa using numeral

end

/-- Where the point is put, the digits stand for their value. -/
theorem numeral_positional (d : Digits) : Numeral (d.positional false).toList d.value := by
  have value : d.value = d.digits * 10 ^ d.exponent.toNat / 10 ^ (-d.exponent).toNat := by
    rw [eq_div_iff (by positivity), ← zpow_mul_pow (by norm_num) d.exponent, Digits.value]
    ring
  have length := String.length_toList (s := toString d.digits)
  simp only [Digits.positional, zeros, Bool.false_eq_true, if_false, String.append_empty]
  split
  next whole =>
    have numeral := Numeral.whole (by simp) (isDigit_of_mem_digits_zeros d.digits d.exponent.toNat)
    rw [natural_digits_zeros] at numeral
    rw [value, whole, String.toList_append, String.toList_ofList]
    simpa [mul_comm] using numeral
  next below =>
    have upper : d.exponent.toNat = 0 := by omega
    rw [value, upper, pow_zero, mul_one]
    split
    next inside =>
      have some : (toString d.digits).toList.take
          ((toString d.digits).length - (-d.exponent).toNat) ≠ [] := by
        rw [← List.length_pos_iff, List.length_take]
        omega
      have numeral := Numeral.pointed some (by
        rw [List.take_append_drop]
        exact isDigit_of_mem_digits d.digits)
      rw [List.take_append_drop, natural_digits, List.length_drop, length] at numeral
      rw [Nat.sub_sub_self inside.le] at numeral
      simpa using numeral
    next outside =>
      set count := (-d.exponent).toNat - (toString d.digits).length with missing
      have one : ['0'] ++ (List.replicate count '0' ++ (toString d.digits).toList) =
          List.replicate (count + 1) '0' ++ (toString d.digits).toList := rfl
      have numeral := Numeral.pointed (List.cons_ne_nil '0' []) (by
        rw [one]
        exact isDigit_of_mem_zeros_digits d.digits (count + 1))
      have places : (List.replicate count '0' ++ (toString d.digits).toList).length =
          (-d.exponent).toNat := by
        rw [List.length_append, List.length_replicate, length]
        omega
      rw [one, natural_zeros_digits, places] at numeral
      simpa using numeral

end Lox.Decimal
