import TaskTree.Proofs.Decimal.Conversion
import TaskTree.Decimal.Rounding
import TaskTree.Decimal.Style

/-!
# Floating-point numbers read back

The numeral that is written for a finite number stands for a decimal in the
interval of the number, in every style.  Reading the numeral rounds it to the
same number, with the same sign even for a zero.

**Results.**
* `Numeral.readsBack_ofFloat`: the numeral stands for a decimal that rounds to the number.
* `Numeral.nearest_ofFloat`: a finite number is read back from its numeral.
-/

namespace TaskTree
namespace Numeral

/-- The decimal that a numeral stands for, apart from its sign. -/
def decimal (n : Numeral) : Nat × Int :=
  (digitsValue (n.whole ++ n.fraction), n.exponent.getD 0 - n.fraction.length)

section Layout

variable {x : Binary} {digits : Nat} {exponent : Int} {negative : Bool}

theorem digitsValue_replicate_append
    (n digits : Nat) :
    digitsValue ('0' :: (List.replicate n '0' ++ digitsOf digits)) = digits := by
  rw [digitsValue, Nat.ofDigitChars_cons, Nat.ofDigitChars_append, Nat.ofDigitChars_replicate_zero]
  exact digitsValue_digitsOf digits

theorem digitsValue_append_replicate
    (digits n : Nat) :
    digitsValue (digitsOf digits ++ List.replicate n '0') = digits * 10 ^ n := by
  have h := digitsValue_digitsOf digits
  rw [digitsValue] at h ⊢
  rw [Nat.ofDigitChars_append, h, Nat.ofDigitChars_replicate_zero, Nat.mul_comm]

/-- Digits written with a point stand for the same decimal. -/
theorem readsBack_plain
    (h : x.ReadsBack (digits, exponent)) :
    x.ReadsBack (plain negative (digitsOf digits) exponent).decimal := by
  unfold plain
  dsimp only
  split
  · next hpoint =>
    have hdigits := digitsValue_replicate_append
      (-(((digitsOf digits).length : Int) + exponent)).toNat digits
    have hpower : (0 : Int) - ((List.replicate
        (-(((digitsOf digits).length : Int) + exponent)).toNat '0'
          ++ digitsOf digits).length : Int) = exponent := by
      rw [List.length_append, List.length_replicate]
      omega
    simpa only [decimal, List.cons_append, List.nil_append, hdigits, Option.getD_none, hpower]
      using h
  · next hpoint =>
    split
    · next hexponent =>
      have hpower : (0 : Int) - (((digitsOf digits).drop
          (((digitsOf digits).length : Int) + exponent).toNat).length : Int) = exponent := by
        rw [List.length_drop]
        omega
      simpa only [decimal, List.take_append_drop, digitsValue_digitsOf, Option.getD_none, hpower]
        using h
    · next hexponent =>
      have hdigits := digitsValue_append_replicate digits (exponent.toNat + 1)
      rw [List.replicate_succ', ← List.append_assoc] at hdigits
      have hvalue : ((digits * 10 ^ (exponent.toNat + 1) : Nat) : ℚ) * 10 ^ (-1 : Int)
          = digits * 10 ^ exponent := by
        have hpow : (10 : ℚ) ^ exponent.toNat = 10 ^ exponent := by
          rw [← zpow_natCast, Int.toNat_of_nonneg (by omega)]
        push_cast
        rw [pow_succ, hpow]
        ring
      rcases h with ⟨hpos, hrounds⟩
      simp only [decimal, hdigits]
      refine ⟨Nat.mul_pos hpos (by positivity), ?_⟩
      change x.Rounds (((digits * 10 ^ (exponent.toNat + 1) : Nat) : ℚ) * 10 ^ (-1 : Int))
      rw [hvalue]
      exact hrounds

/-- So do one digit, the others and a power of ten. -/
theorem readsBack_scientific
    (h : x.ReadsBack (digits, exponent)) :
    x.ReadsBack (scientific negative (digitsOf digits) exponent).decimal := by
  have hlength : 0 < (digitsOf digits).length := Nat.length_toDigits_pos
  have hpower : (((digitsOf digits).length : Int) + exponent - 1)
      - (((digitsOf digits).drop 1).length : Int) = exponent := by
    rw [List.length_drop]
    omega
  simpa only [decimal, scientific, List.take_append_drop, digitsValue_digitsOf, Option.getD_some,
    hpower] using h

end Layout

/-- The numeral of a number stands for a decimal that rounds to it. -/
theorem readsBack_ofFloat
    (style : NumberStyle)
    {x : Float}
    (hpos : 0 < (Binary.ofBits x.toBits).mantissa) :
    (Binary.ofBits x.toBits).ReadsBack (ofFloat style x).decimal ∧
      (ofFloat style x).negative = decide (x.toBits >>> 63 = 1) := by
  have hshortest := Binary.readsBack_shortest hpos style.tie
  unfold ofFloat
  dsimp only
  rw [if_neg hpos.ne']
  split
  · refine ⟨readsBack_plain hshortest, ?_⟩
    unfold plain
    dsimp only
    split
    · rfl
    · split <;> rfl
  · exact ⟨readsBack_scientific hshortest, rfl⟩

section Nearest

/-- The first digit of a positive number is not zero. -/
theorem zpow_length_le
    {n : Nat}
    (hpos : 0 < n) :
    (10 : ℚ) ^ (((digitsOf n).length : Int) - 1) ≤ n := by
  have hlength : 0 < (digitsOf n).length := Nat.length_toDigits_pos
  have hpow : 10 ^ ((digitsOf n).length - 1) ≤ n := by
    by_cases hone : (digitsOf n).length - 1 = 0
    · rw [hone]
      exact hpos
    · by_contra hlt
      have := (Nat.length_toDigits_le_iff (by decide) (Nat.pos_of_ne_zero hone)).2
        (Nat.lt_of_not_le hlt)
      change (digitsOf n).length ≤ _ at this
      omega
  rw [show ((digitsOf n).length : Int) - 1 = ((digitsOf n).length - 1 : Nat) by omega, zpow_natCast]
  exact_mod_cast hpow

theorem lt_zpow_length
    (n : Nat) :
    (n : ℚ) < 10 ^ ((digitsOf n).length : Int) := by
  have hpow : n < 10 ^ (digitsOf n).length :=
    (Nat.length_toDigits_le_iff (by decide) Nat.length_toDigits_pos).1 (Nat.le_refl _)
  rw [zpow_natCast]
  exact_mod_cast hpow

variable {x : Binary} {digits : Nat} {exponent : Int}

/-- A decimal with many digits before the point is out of the range of the format. -/
theorem le_of_length
    (hpos : 0 < digits)
    (h : 400 < ((digitsOf digits).length : Int) + exponent) :
    2 ^ (1024 : Int) ≤ (digits : ℚ) * 10 ^ exponent := by
  have hpower : (0 : ℚ) < 10 ^ exponent := by positivity
  have hrange : (2 : ℚ) ^ (1024 : Int) ≤ 10 ^ (399 : Int) := by
    exact_mod_cast (by decide +kernel : 2 ^ 1024 ≤ 10 ^ 399)
  calc (2 : ℚ) ^ (1024 : Int)
      ≤ 10 ^ (399 : Int) := hrange
    _ ≤ 10 ^ (((digitsOf digits).length : Int) - 1 + exponent) :=
        zpow_le_zpow_right₀ (by norm_num) (by omega)
    _ = 10 ^ (((digitsOf digits).length : Int) - 1) * 10 ^ exponent :=
        zpow_add₀ (by norm_num) _ _
    _ ≤ digits * 10 ^ exponent := mul_le_mul_of_nonneg_right (zpow_length_le hpos) hpower.le

/-- So is one with many zeros after the point. -/
theorem lt_of_length
    (h : ((digitsOf digits).length : Int) + exponent < -400) :
    (digits : ℚ) * 10 ^ exponent < 2 ^ (-1075 : Int) := by
  have hpower : (0 : ℚ) < 10 ^ exponent := by positivity
  have hrange : (10 : ℚ) ^ (-400 : Int) ≤ 2 ^ (-1075 : Int) := by
    rw [zpow_neg, zpow_neg, inv_le_inv₀ (by positivity) (by positivity)]
    exact_mod_cast (by decide +kernel : 2 ^ 1075 ≤ 10 ^ 400)
  calc (digits : ℚ) * 10 ^ exponent
      < 10 ^ ((digitsOf digits).length : Int) * 10 ^ exponent :=
        mul_lt_mul_of_pos_right (lt_zpow_length digits) hpower
    _ = 10 ^ (((digitsOf digits).length : Int) + exponent) :=
        (zpow_add₀ (by norm_num) _ _).symm
    _ ≤ 10 ^ (-400 : Int) := zpow_le_zpow_right₀ (by norm_num) (by omega)
    _ ≤ 2 ^ (-1075 : Int) := hrange

/-- The number of digits and the power of ten of a decimal that rounds to a number of the format
stay far from the limits of reading. -/
theorem length_of_readsBack
    (hc : x.Canonical)
    (h : x.ReadsBack (digits, exponent)) :
    ((digitsOf digits).length : Int) + exponent ≤ 400 ∧
      -400 ≤ ((digitsOf digits).length : Int) + exponent := by
  rcases h with ⟨hpos, hrounds⟩
  dsimp only at hpos hrounds
  obtain ⟨hlow, hhigh⟩ := Rounding.bounds_of_rounds hc hrounds
  constructor
  · by_contra hcontra
    exact absurd hhigh (not_lt.2 (le_of_length hpos (not_le.1 hcontra)))
  · by_contra hcontra
    exact absurd hlow (not_le.2 (lt_of_length (not_le.1 hcontra)))

/-- A numeral is read as the number whose interval holds its decimal. -/
theorem nearest_of_readsBack
    (hc : x.Canonical)
    {n : Numeral}
    (h : x.ReadsBack n.decimal) :
    n.nearest = signed n.negative (x.float hc .positive) := by
  obtain ⟨hhigh, hlow⟩ := length_of_readsBack hc h
  rcases h with ⟨hpos, hrounds⟩
  simp only [decimal] at hhigh hlow hpos hrounds
  unfold nearest
  dsimp only
  rw [if_neg hpos.ne', if_neg (by omega), if_neg (by omega),
    Binary.ofScientific_eq_float hc hrounds hpos]

end Nearest

/-- A finite number is read back from its numeral. -/
theorem nearest_ofFloat
    {style : NumberStyle} {x : Float}
    (h : x.isFinite = true) :
    (ofFloat style x).nearest = x := by
  have hsign := Bits.signOf_eq x.toBits
  by_cases hzero : (Binary.ofBits x.toBits).mantissa = 0
  · have hnearest : (ofFloat style x).nearest = signed (decide (x.toBits >>> 63 = 1)) 0 := by
      unfold ofFloat
      dsimp only
      rw [if_pos hzero]
      rfl
    rw [hnearest]
    conv_rhs => rw [← Binary.zero_eq h hzero, hsign]
    by_cases hbit : x.toBits >>> 63 = 1
    · rw [if_pos hbit, decide_eq_true hbit]
      rfl
    · rw [if_neg hbit, decide_eq_false hbit]
      rfl
  · have hpos := Nat.pos_of_ne_zero hzero
    obtain ⟨hreads, hnegative⟩ := readsBack_ofFloat style hpos
    rw [nearest_of_readsBack (Binary.canonical_of_isFinite h hpos) hreads, hnegative]
    conv_rhs => rw [← Binary.float_eq h hpos, hsign]
    by_cases hbit : x.toBits >>> 63 = 1
    · rw [if_pos hbit, decide_eq_true hbit, signed, if_pos rfl, Binary.neg_float]
      rfl
    · rw [if_neg hbit, decide_eq_false hbit]
      rfl

end Numeral
end TaskTree
