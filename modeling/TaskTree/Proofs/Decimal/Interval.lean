import Mathlib.Algebra.Order.Field.Power
import Mathlib.Algebra.Order.Field.Rat
import Mathlib.Tactic.FieldSimp
import Mathlib.Tactic.Linarith
import Mathlib.Tactic.Positivity
import Mathlib.Tactic.Ring
import TaskTree.Decimal.Shortest

/-!
# The decimals that round to a binary number

The integer arithmetic on scaled mantissas is arithmetic on rational numbers.
Whatever the search for a shortest decimal returns lies among the rationals that
round to the number.

**Results.**
* `Binary.contains_iff`: the interval of the number, decided exactly.
* `Binary.readsBack_shortest`: the shortest decimal lies in the interval.
-/

namespace TaskTree

namespace Binary

/-- The number as a rational. -/
def toRat (x : Binary) : ℚ :=
  x.mantissa * 2 ^ x.scale

/-- The middle between the number and its neighbour below. -/
def low (x : Binary) : ℚ :=
  (if x.narrowBelow then 4 * (x.mantissa : ℚ) - 1 else 4 * (x.mantissa : ℚ) - 2)
    * 2 ^ (x.scale - 2)

/-- The middle between the number and its neighbour above. -/
def high (x : Binary) : ℚ :=
  (4 * x.mantissa + 2) * 2 ^ (x.scale - 2)

/-- The rational lies between the two middles, or is one of them and the mantissa is even. -/
structure Rounds (x : Binary) (q : ℚ) : Prop where
  low : x.low < q ∨ x.mantissa % 2 = 0 ∧ x.low = q
  high : q < x.high ∨ x.mantissa % 2 = 0 ∧ q = x.high

section Scaled

variable {a b : Nat} {i j : Int}

theorem pow_toNat_eq
    {base : ℚ}
    (hbase : base ≠ 0)
    (i : Int) :
    base ^ i.toNat = base ^ i * base ^ (-i).toNat := by
  rw [← zpow_natCast, ← zpow_natCast, ← zpow_add₀ hbase]
  exact congrArg _ (by omega)

/-- Both sides of a scaled comparison, multiplied by the same powers. -/
theorem scaled_eq
    (a b : Nat) (i j : Int) :
    ((a * Nat.pow 10 i.toNat * Nat.pow 2 (-j).toNat : Nat) : ℚ)
        = a * 10 ^ i * (10 ^ (-i).toNat * 2 ^ (-j).toNat) ∧
      ((b * Nat.pow 2 j.toNat * Nat.pow 10 (-i).toNat : Nat) : ℚ)
        = b * 2 ^ j * (10 ^ (-i).toNat * 2 ^ (-j).toNat) := by
  constructor
  · simp only [Nat.pow_eq]
    push_cast
    rw [pow_toNat_eq (by norm_num) i]
    ring
  · simp only [Nat.pow_eq]
    push_cast
    rw [pow_toNat_eq (by norm_num) j]
    ring

theorem compareScaled_eq_lt_iff :
    compareScaled a i b j = .lt ↔ (a : ℚ) * 10 ^ i < b * 2 ^ j := by
  obtain ⟨hleft, hright⟩ := scaled_eq a b i j
  have hpos : (0 : ℚ) < 10 ^ (-i).toNat * 2 ^ (-j).toNat := by positivity
  rw [compareScaled, Nat.compare_eq_lt, ← Nat.cast_lt (α := ℚ), hleft, hright,
    mul_lt_mul_iff_left₀ hpos]

theorem compareScaled_eq_gt_iff :
    compareScaled a i b j = .gt ↔ (b : ℚ) * 2 ^ j < a * 10 ^ i := by
  obtain ⟨hleft, hright⟩ := scaled_eq a b i j
  have hpos : (0 : ℚ) < 10 ^ (-i).toNat * 2 ^ (-j).toNat := by positivity
  rw [compareScaled, Nat.compare_eq_gt, ← Nat.cast_lt (α := ℚ), hleft, hright,
    mul_lt_mul_iff_left₀ hpos]

theorem compareScaled_eq_eq_iff :
    compareScaled a i b j = .eq ↔ (a : ℚ) * 10 ^ i = b * 2 ^ j := by
  obtain ⟨hleft, hright⟩ := scaled_eq a b i j
  have hpos : (10 ^ (-i).toNat * 2 ^ (-j).toNat : ℚ) ≠ 0 := by positivity
  rw [compareScaled, Nat.compare_eq_eq, ← Nat.cast_inj (R := ℚ), hleft, hright,
    mul_left_inj' hpos]

end Scaled

variable {x : Binary}

/-- The interval of a number, decided exactly. -/
theorem contains_iff
    (hpos : 0 < x.mantissa)
    {digits : Nat} {exponent : Int} :
    x.contains digits exponent = true ↔ x.Rounds (digits * 10 ^ exponent) := by
  have hlow : ((if x.narrowBelow then 4 * x.mantissa - 1 else 4 * x.mantissa - 2 : Nat) : ℚ)
      * 2 ^ (x.scale - 2) = x.low := by
    rw [low]
    split
    · rw [Nat.cast_sub (by omega)]
      push_cast
      rfl
    · rw [Nat.cast_sub (by omega)]
      push_cast
      rfl
  have hhigh : ((4 * x.mantissa + 2 : Nat) : ℚ) * 2 ^ (x.scale - 2) = x.high := by
    rw [high]
    push_cast
    rfl
  simp only [contains, Bool.and_eq_true, Bool.or_eq_true, decide_eq_true_eq,
    compareScaled_eq_lt_iff, compareScaled_eq_gt_iff, compareScaled_eq_eq_iff, hlow, hhigh]
  constructor
  · rintro ⟨hl, hh⟩
    exact ⟨hl.imp_right fun h => ⟨h.1, h.2.symm⟩, hh⟩
  · rintro ⟨hl, hh⟩
    exact ⟨hl.imp_right fun h => ⟨h.1, h.2.symm⟩, hh⟩

/-- The number itself rounds to it. -/
theorem rounds_toRat
    (x : Binary) :
    x.Rounds x.toRat := by
  have hscale : (2 : ℚ) ^ x.scale = 4 * 2 ^ (x.scale - 2) := by
    rw [zpow_sub₀ (by norm_num)]
    ring
  have hunit : (0 : ℚ) < 2 ^ (x.scale - 2) := by positivity
  refine ⟨.inl ?_, .inl ?_⟩
  · rw [low, toRat, hscale]
    split <;> nlinarith
  · rw [high, toRat, hscale]
    nlinarith

/-- A decimal that reads back: it is not zero and lies in the interval of the number. -/
def ReadsBack (x : Binary) (decimal : Nat × Int) : Prop :=
  0 < decimal.1 ∧ x.Rounds (decimal.1 * 10 ^ decimal.2)

theorem readsBack_of_nearestOnGrid
    (hpos : 0 < x.mantissa)
    {tie : Tie} {exponent : Int} {digits : Nat}
    (h : nearestOnGrid tie x exponent = some digits) :
    x.ReadsBack (digits, exponent) := by
  have hreads : ∀ digits, 0 < digits → x.contains digits exponent = true →
      x.ReadsBack (digits, exponent) := fun digits hdigits hcontains =>
    ⟨hdigits, (contains_iff hpos).1 hcontains⟩
  have hbelow : (x.contains (x.quotient exponent) exponent && x.quotient exponent ≠ 0) = true →
      x.ReadsBack (x.quotient exponent, exponent) := by
    intro hb
    simp only [Bool.and_eq_true, decide_eq_true_eq] at hb
    exact hreads _ (Nat.pos_of_ne_zero hb.2) hb.1
  have habove : x.contains (x.quotient exponent + 1) exponent = true →
      x.ReadsBack (x.quotient exponent + 1, exponent) := hreads _ (Nat.succ_pos _)
  unfold nearestOnGrid at h
  dsimp only at h
  split at h
  · next hb _ =>
    cases h
    exact hbelow hb
  · next _ ha =>
    cases h
    exact habove ha
  · cases h
  · next hb ha =>
    split at h
    · cases h
      exact hbelow hb
    · cases h
      exact habove ha
    · split at h
      · cases h
        exact habove ha
      · split at h
        · cases h
          exact hbelow hb
        · cases h
          exact habove ha

/-- Whatever is found on a grid reads back. -/
theorem readsBack_of_searchGrids
    (hpos : 0 < x.mantissa)
    {tie : Tie} {steps : Nat} {exponent : Int} {decimal : Nat × Int}
    (h : searchGrids tie x steps exponent = some decimal) :
    x.ReadsBack decimal := by
  induction steps generalizing exponent with
  | zero => cases h
  | succ steps ih =>
      rw [searchGrids] at h
      split at h
      · next hnearest =>
        cases h
        exact readsBack_of_nearestOnGrid hpos hnearest
      · exact ih h

/-- The exact decimal of a number is the number. -/
theorem readsBack_exact
    (hpos : 0 < x.mantissa) :
    x.ReadsBack x.exact := by
  have hvalue : (x.exact.1 : ℚ) * 10 ^ x.exact.2 = x.toRat := by
    unfold exact toRat
    split
    · next hscale =>
      have hnat : ((2 : ℚ) ^ x.scale.toNat) = 2 ^ x.scale := by
        rw [← zpow_natCast, Int.toNat_of_nonneg hscale]
      simp only [Nat.pow_eq]
      push_cast
      rw [hnat]
      simp
    · next hscale =>
      have hnat : ((5 : ℚ) ^ (-x.scale).toNat) = 5 ^ (-x.scale) := by
        rw [← zpow_natCast, Int.toNat_of_nonneg (by omega)]
      have hten : (10 : ℚ) ^ x.scale = 5 ^ x.scale * 2 ^ x.scale := by
        rw [← mul_zpow]
        norm_num
      have hfive : (5 : ℚ) ^ x.scale ≠ 0 := by positivity
      simp only [Nat.pow_eq]
      push_cast
      rw [hnat, hten, zpow_neg]
      field_simp
  constructor
  · unfold exact
    split
    · exact Nat.mul_pos hpos (Nat.pow_pos (by decide))
    · exact Nat.mul_pos hpos (Nat.pow_pos (by decide))
  · rw [hvalue]
    exact rounds_toRat x

/-- Zeros at the end of the digits count as powers of ten. -/
theorem readsBack_stripZeros
    {digits : Nat} {exponent : Int}
    (h : x.ReadsBack (digits, exponent)) :
    x.ReadsBack (stripZeros digits exponent) := by
  fun_induction stripZeros digits exponent with
  | case1 digits exponent hzero ih =>
      have hdigits : (digits : ℚ) = (digits / 10 : Nat) * 10 := by
        exact_mod_cast (by omega : digits = digits / 10 * 10)
      have hvalue : ((digits / 10 : Nat) : ℚ) * 10 ^ (exponent + 1) = digits * 10 ^ exponent := by
        rw [hdigits, zpow_add_one₀ (by norm_num)]
        ring
      refine ih ⟨Nat.div_pos (by omega) (by decide), ?_⟩
      rw [hvalue]
      exact h.2
  | case2 => exact h

/-- The shortest decimal reads back. -/
theorem readsBack_shortest
    (hpos : 0 < x.mantissa)
    (tie : Tie) :
    x.ReadsBack (x.shortest tie) := by
  refine readsBack_stripZeros ?_
  cases hfound : searchGrids tie x 18 (x.magnitude - 1) with
  | none => exact readsBack_exact hpos
  | some decimal => exact readsBack_of_searchGrids hpos hfound

end Binary

end TaskTree
