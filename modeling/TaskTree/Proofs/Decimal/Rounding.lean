import TaskTree.Proofs.Decimal.Interval

/-!
# Rounding to the 64-bit format

The arithmetic of the 64-bit format computes a mantissa and two more bits, which
say how a rational lies between two neighbouring mantissas, moves them to the
exponent of the format and rounds once.  A rational in the interval of a number
is rounded to that number.

**Results.**
* `Rounding.roundWithAccuracy_eq`: rounding finds the number whose interval holds the rational.
* `Rounding.converted_ofScientific`: a decimal is rounded once, or out of range.
-/

namespace TaskTree

open Float.Model Float.Model.UnpackedFloat

/-- A number that the 64-bit format stores with this mantissa and scale. -/
structure Binary.Canonical (x : Binary) : Prop where
  pos : 0 < x.mantissa
  mantissa_lt : x.mantissa < 2 ^ 53
  scale_ge : -1074 ≤ x.scale
  scale_le : x.scale ≤ 971
  normal : 2 ^ 52 ≤ x.mantissa ∨ x.scale = -1074
  narrow : x.narrowBelow = true ↔ x.mantissa = 2 ^ 52 ∧ -1074 < x.scale

namespace Rounding

section Bits

/-- The mantissa and the two bits after it describe a rational: the part after the mantissa is
compared with one half. -/
def Describes (em : ExtendedMantissa) (r : ℚ) : Prop :=
  ∃ f : ℚ, r = em.mantissa + f ∧ 0 ≤ f ∧ f < 1 ∧
    (em.roundBit = true ↔ 1 / 2 ≤ f) ∧ (em.stickyBit = true ↔ f ≠ 0 ∧ f ≠ 1 / 2)

/-- The natural number is the nearest one to the rational, or one of two and even. -/
def IsNearest (m : Nat) (r : ℚ) : Prop :=
  ((m : ℚ) - 1 / 2 < r ∨ m % 2 = 0 ∧ (m : ℚ) - 1 / 2 = r) ∧
    (r < m + 1 / 2 ∨ m % 2 = 0 ∧ r = m + 1 / 2)

variable {em : ExtendedMantissa} {r : ℚ}

/-- Either bit is set exactly when something stands after the mantissa. -/
theorem or_eq_true_iff
    {f : ℚ} {roundBit stickyBit : Bool}
    (hround : roundBit = true ↔ 1 / 2 ≤ f)
    (hsticky : stickyBit = true ↔ f ≠ 0 ∧ f ≠ 1 / 2) :
    (roundBit || stickyBit) = true ↔ f ≠ 0 := by
  rw [Bool.or_eq_true, hround, hsticky]
  constructor
  · rintro (h | h)
    · exact (by linarith : (0 : ℚ) < f).ne'
    · exact h.1
  · intro h
    by_cases hf : f = 1 / 2
    · exact .inl hf.ge
    · exact .inr ⟨h, hf⟩

theorem Describes.le
    (h : Describes em r) :
    (em.mantissa : ℚ) ≤ r := by
  rcases h with ⟨f, rfl, hnonneg, -⟩
  linarith

theorem Describes.lt
    (h : Describes em r) :
    r < em.mantissa + 1 := by
  rcases h with ⟨f, rfl, -, hlt, -⟩
  linarith

theorem Describes.shiftRightOne
    (h : Describes em r) :
    Describes em.shiftRightOne (r / 2) := by
  rcases h with ⟨f, rfl, hnonneg, hlt, hround, hsticky⟩
  have hbits := or_eq_true_iff hround hsticky
  have hhalf : (em.mantissa : ℚ) = 2 * (em.mantissa / 2 : Nat) + (em.mantissa % 2 : Nat) := by
    exact_mod_cast (Nat.div_add_mod em.mantissa 2).symm
  rcases Nat.mod_two_eq_zero_or_one em.mantissa with hparity | hparity
  · rw [hparity, Nat.cast_zero, add_zero] at hhalf
    refine ⟨f / 2, ?_, by linarith, by linarith, ?_, ?_⟩
    · rw [ExtendedMantissa.shiftRightOne, hhalf]
      ring
    · simp only [ExtendedMantissa.shiftRightOne, hparity]
      constructor
      · intro h
        cases h
      · intro h
        linarith
    · refine hbits.trans ⟨fun h => ⟨?_, ?_⟩, fun h => ?_⟩
      · simpa using h
      · exact (by linarith : f / 2 < 1 / 2).ne
      · simpa using h.1
  · rw [hparity, Nat.cast_one] at hhalf
    refine ⟨(1 + f) / 2, ?_, by linarith, by linarith, ?_, ?_⟩
    · rw [ExtendedMantissa.shiftRightOne, hhalf]
      ring
    · simp only [ExtendedMantissa.shiftRightOne, hparity]
      constructor
      · intro _
        linarith
      · intro _
        rfl
    · refine hbits.trans ⟨fun h => ⟨?_, ?_⟩, fun h hf => ?_⟩
      · exact (by linarith : 0 < (1 + f) / 2).ne'
      · intro heq
        exact h (by linarith)
      · rw [hf] at h
        exact h.2 (by norm_num)

/-- Moving the mantissa by some bits divides by a power of two. -/
theorem Describes.shiftRight
    (h : Describes em r)
    (n : Nat) :
    Describes (em >>> n) (r / 2 ^ n) := by
  induction n with
  | zero => simpa [HShiftRight.hShiftRight, Nat.repeat] using h
  | succ n ih =>
      rw [pow_succ, ← div_div]
      exact ih.shiftRightOne

/-- Rounding by the two bits finds the nearest natural number. -/
theorem Describes.roundedMantissa_eq
    (h : Describes em r)
    {m : Nat}
    (hm : IsNearest m r) :
    em.roundedMantissa = m := by
  rcases em with ⟨mantissa, roundBit, stickyBit⟩
  rcases h with ⟨f, rfl, hnonneg, hlt, hround, hsticky⟩
  rcases hm with ⟨hlow, hhigh⟩
  simp only at hround hsticky hlow hhigh
  have hlow' : (m : ℚ) - 1 / 2 ≤ mantissa + f := hlow.elim le_of_lt fun h => h.2.le
  have hhigh' : (mantissa : ℚ) + f ≤ m + 1 / 2 := hhigh.elim le_of_lt fun h => h.2.le
  cases roundBit with
  | false =>
      have hf : f < 1 / 2 := by simpa using hround
      have h₁ : (m : ℚ) < mantissa + 1 := by linarith
      have h₂ : (mantissa : ℚ) < m + 1 := by linarith
      have h₁' : m < mantissa + 1 := by exact_mod_cast h₁
      have h₂' : mantissa < m + 1 := by exact_mod_cast h₂
      cases stickyBit <;>
        simp only [ExtendedMantissa.roundedMantissa, ExtendedMantissa.accuracy,
          Accuracy.roundToNearestEven] <;>
        omega
  | true =>
      have hf : 1 / 2 ≤ f := by simpa using hround
      cases stickyBit with
      | false =>
          have hf : f = 1 / 2 := by
            by_contra hne
            have hfalse := hsticky.2 ⟨by linarith, hne⟩
            cases hfalse
          subst hf
          have h₁ : (m : ℚ) ≤ mantissa + 1 := by linarith
          have h₂ : (mantissa : ℚ) ≤ m := by linarith
          have h₁' : m ≤ mantissa + 1 := by exact_mod_cast h₁
          have h₂' : mantissa ≤ m := by exact_mod_cast h₂
          have heven : m % 2 = 0 := by
            rcases Nat.eq_or_lt_of_le h₂' with rfl | hlt
            · exact hhigh.elim (fun h => absurd h (lt_irrefl _)) And.left
            · obtain rfl : m = mantissa + 1 := by omega
              push_cast at hlow
              exact hlow.elim (fun h => absurd h (by linarith)) And.left
          simp only [ExtendedMantissa.roundedMantissa, ExtendedMantissa.accuracy,
            Accuracy.roundToNearestEven]
          omega
      | true =>
          have hf : 1 / 2 < f := lt_of_le_of_ne hf (Ne.symm (hsticky.1 rfl).2)
          have h₁ : (m : ℚ) < mantissa + 2 := by linarith
          have h₂ : (mantissa : ℚ) < m := by linarith
          have h₁' : m < mantissa + 2 := by exact_mod_cast h₁
          have h₂' : mantissa < m := by exact_mod_cast h₂
          simp only [ExtendedMantissa.roundedMantissa, ExtendedMantissa.accuracy,
            Accuracy.roundToNearestEven]
          omega

end Bits

section Format

/-- The exponent of the format for a mantissa: it keeps 53 bits, down to the least exponent. -/
def target (mantissa : Nat) (exponent : Int) : Int :=
  Format.binary64.targetExponent (totalExponent mantissa exponent)

theorem target_eq
    (mantissa : Nat) (exponent : Int) :
    target mantissa exponent = max (mantissa.log2 + 1 + exponent - 53) (-1074) := by
  rfl

variable {mantissa : Nat} {exponent : Int}

/-- A mantissa of at most 53 bits stays. -/
theorem shift_of_lt
    (hmantissa : mantissa < 2 ^ 53)
    (hexponent : -1074 ≤ exponent) :
    shiftToTargetExponent Format.binary64 mantissa exponent .exact
      = (⟨mantissa, false, false⟩, exponent) := by
  have hlog : mantissa.log2 < 53 := by
    by_cases hzero : mantissa = 0
    · rw [hzero]
      decide
    · exact (Nat.log2_lt hzero).2 hmantissa
  have htarget : (target mantissa exponent - exponent).toNat = 0 := by
    rw [target_eq]
    omega
  rw [target] at htarget
  simp only [shiftToTargetExponent, shiftToExponent, htarget]
  simp [HShiftRight.hShiftRight, Nat.repeat, ExtendedMantissa.ofMantissaAndAccuracy]

/-- A mantissa that rounding carried over 53 bits is halved. -/
theorem shift_carry
    (hexponent : -1074 ≤ exponent) :
    shiftToTargetExponent Format.binary64 (2 ^ 53) exponent .exact
      = (⟨2 ^ 52, false, false⟩, exponent + 1) := by
  have htarget : target (2 ^ 53) exponent - exponent = 1 := by
    rw [target_eq, Nat.log2_two_pow]
    omega
  rw [target] at htarget
  simp only [shiftToTargetExponent, shiftToExponent, htarget]
  rfl

/-- A rational has at most 53 bits down to the exponent of the format. -/
theorem lt_of_target
    {r : ℚ}
    (hr : r < mantissa + 1) :
    r * 2 ^ exponent < 2 ^ (target mantissa exponent + 53) := by
  have hlog : (mantissa : ℚ) + 1 ≤ 2 ^ ((mantissa.log2 : Int) + 1) := by
    exact_mod_cast (Nat.lt_log2_self : mantissa < 2 ^ (mantissa.log2 + 1))
  have hbound : (mantissa.log2 : Int) + 1 + exponent ≤ target mantissa exponent + 53 := by
    rw [target_eq]
    omega
  calc r * 2 ^ exponent
      < 2 ^ ((mantissa.log2 : Int) + 1) * 2 ^ exponent :=
        mul_lt_mul_of_pos_right (lt_of_lt_of_le hr hlog) (by positivity)
    _ = 2 ^ ((mantissa.log2 : Int) + 1 + exponent) := (zpow_add₀ (by norm_num) _ _).symm
    _ ≤ 2 ^ (target mantissa exponent + 53) := zpow_le_zpow_right₀ (by norm_num) hbound

/-- It has exactly 53 bits unless the exponent is the least one. -/
theorem le_of_target
    {r : ℚ}
    (hr : (mantissa : ℚ) ≤ r)
    (hexponent : exponent ≤ target mantissa exponent)
    (hleast : target mantissa exponent ≠ -1074) :
    2 ^ (target mantissa exponent + 52) ≤ r * 2 ^ exponent := by
  have hmantissa : mantissa ≠ 0 := by
    rintro rfl
    rw [target_eq, Nat.log2_zero] at hexponent hleast
    omega
  have hlog : (2 : ℚ) ^ (mantissa.log2 : Int) ≤ mantissa := by
    exact_mod_cast Nat.log2_self_le hmantissa
  have hbound : target mantissa exponent + 52 = mantissa.log2 + exponent := by
    rw [target_eq] at hleast ⊢
    omega
  rw [hbound, zpow_add₀ (by norm_num)]
  exact mul_le_mul_of_nonneg_right (hlog.trans hr) (by positivity)

end Format

section Interval

variable {x : Binary} {q : ℚ}

theorem le_of_rounds
    (hr : x.Rounds q) :
    x.low ≤ q ∧ q ≤ x.high :=
  ⟨hr.low.elim le_of_lt fun h => h.2.le, hr.high.elim le_of_lt fun h => h.2.le⟩

/-- The interval starts half a unit before the number or later. -/
theorem le_low
    (x : Binary) :
    (4 * x.mantissa - 2) * 2 ^ (x.scale - 2) ≤ x.low := by
  have hunit : (0 : ℚ) < 2 ^ (x.scale - 2) := by positivity
  rw [Binary.low]
  split <;> nlinarith

theorem zpow_add_natCast
    (scale : Int) (n : Nat) :
    (2 : ℚ) ^ (scale + n) = 4 * 2 ^ n * 2 ^ (scale - 2) := by
  rw [show scale + n = 2 + (n + (scale - 2)) by omega, zpow_add₀ (by norm_num),
    zpow_add₀ (by norm_num), zpow_natCast]
  norm_num
  ring

/-- The interval of a number with few bits ends early. -/
theorem lt_zpow_of_rounds
    (hr : x.Rounds q)
    {n : Nat}
    (h : x.mantissa < 2 ^ n) :
    q < 2 ^ (x.scale + n) := by
  have hmantissa : (x.mantissa : ℚ) + 1 ≤ 2 ^ n := by exact_mod_cast h
  calc q ≤ (4 * x.mantissa + 2) * 2 ^ (x.scale - 2) := (le_of_rounds hr).2
    _ < 4 * 2 ^ n * 2 ^ (x.scale - 2) :=
        mul_lt_mul_of_pos_right (by linarith) (by positivity)
    _ = 2 ^ (x.scale + n) := (zpow_add_natCast x.scale n).symm

/-- The interval of a number with many bits starts half as far as a power of two. -/
theorem zpow_le_of_rounds
    (hr : x.Rounds q)
    {n : Nat}
    (h : 2 ^ n ≤ x.mantissa) :
    2 ^ (x.scale + n) ≤ 2 * q := by
  have hmantissa : (2 : ℚ) ^ n ≤ x.mantissa := by exact_mod_cast h
  have hone : (1 : ℚ) ≤ 2 ^ n := one_le_pow₀ (by norm_num)
  calc (2 : ℚ) ^ (x.scale + n) = 4 * 2 ^ n * 2 ^ (x.scale - 2) := zpow_add_natCast x.scale n
    _ ≤ 2 * (4 * x.mantissa - 2) * 2 ^ (x.scale - 2) :=
        mul_le_mul_of_nonneg_right (by linarith) (by positivity)
    _ = 2 * ((4 * x.mantissa - 2) * 2 ^ (x.scale - 2)) := mul_assoc _ _ _
    _ ≤ 2 * q := mul_le_mul_of_nonneg_left ((le_low x).trans (le_of_rounds hr).1) (by norm_num)

/-- It starts after the power of two if the mantissa is another number. -/
theorem zpow_lt_of_rounds
    (hr : x.Rounds q)
    {n : Nat}
    (h : 2 ^ n < x.mantissa) :
    2 ^ (x.scale + n) < q := by
  have hmantissa : (2 : ℚ) ^ n + 1 ≤ x.mantissa := by exact_mod_cast h
  calc (2 : ℚ) ^ (x.scale + n) = 4 * 2 ^ n * 2 ^ (x.scale - 2) := zpow_add_natCast x.scale n
    _ < (4 * x.mantissa - 2) * 2 ^ (x.scale - 2) :=
        mul_lt_mul_of_pos_right (by linarith) (by positivity)
    _ ≤ q := (le_low x).trans (le_of_rounds hr).1

/-- The exponent at which a rational of the interval is rounded is the scale of the number, or
one less if the number is a power of two and the rational lies below it. -/
theorem scale_cases
    (hc : x.Canonical)
    (hr : x.Rounds q)
    {t : Int}
    (hleast : -1074 ≤ t)
    (hlt : q < 2 ^ (t + 53))
    (hge : t ≠ -1074 → 2 ^ (t + 52) ≤ q) :
    t = x.scale ∨ t = x.scale - 1 ∧ x.mantissa = 2 ^ 52 := by
  have hbelow : q < 2 ^ (x.scale + 53) := lt_zpow_of_rounds hr hc.mantissa_lt
  have hupper : t ≤ x.scale := by
    by_contra hcontra
    have hpow : (2 : ℚ) ^ (x.scale + 53) ≤ 2 ^ (t + 52) :=
      zpow_le_zpow_right₀ (by norm_num) (by omega)
    have hge := hge (by have := hc.scale_ge; omega)
    linarith
  rcases hupper.lt_or_eq with hlt' | heq
  · have hnormal : 2 ^ 52 ≤ x.mantissa := hc.normal.resolve_right (by omega)
    have habove : 2 ^ (x.scale + 52) ≤ 2 * q := zpow_le_of_rounds hr hnormal
    have hlower : x.scale - 1 ≤ t := by
      by_contra hcontra
      have hpow : (2 : ℚ) * 2 ^ (t + 53) ≤ 2 ^ (x.scale + 52) := by
        rw [← zpow_one_add₀ (by norm_num)]
        exact zpow_le_zpow_right₀ (by norm_num) (by omega)
      linarith
    obtain rfl : t = x.scale - 1 := by omega
    refine .inr ⟨rfl, Nat.le_antisymm ?_ hnormal⟩
    by_contra hcontra
    have hq : 2 ^ (x.scale + 52) < q := zpow_lt_of_rounds hr (Nat.lt_of_not_le hcontra)
    rw [show x.scale - 1 + 53 = x.scale + 52 by omega] at hlt
    exact absurd hlt (not_lt.2 hq.le)
  · exact .inl heq

/-- At the scale of the number its mantissa is the nearest natural number. -/
theorem isNearest_scale
    (hr : x.Rounds q) :
    IsNearest x.mantissa (q / 2 ^ x.scale) := by
  have hunit : (0 : ℚ) < 2 ^ (x.scale - 2) := by positivity
  have hscale : (2 : ℚ) ^ x.scale = 4 * 2 ^ (x.scale - 2) := by
    rw [zpow_sub₀ (by norm_num)]
    ring
  have hdiv : (0 : ℚ) < 4 * 2 ^ (x.scale - 2) := by positivity
  rcases hr with ⟨hlow, hhigh⟩
  rw [IsNearest, hscale, lt_div_iff₀ hdiv, div_lt_iff₀ hdiv, eq_div_iff hdiv.ne',
    div_eq_iff hdiv.ne']
  rw [Binary.high] at hhigh
  constructor
  · rw [Binary.low] at hlow
    split at hlow
    · refine .inl ?_
      rcases hlow with h | ⟨-, h⟩
      · linarith
      · linarith
    · rcases hlow with h | ⟨heven, h⟩
      · exact .inl (by linarith)
      · exact .inr ⟨heven, by linarith⟩
  · rcases hhigh with h | ⟨heven, h⟩
    · exact .inl (by linarith)
    · exact .inr ⟨heven, by linarith⟩

/-- Below a power of two the next one is the nearest natural number at the scale before. -/
theorem isNearest_carry
    (hc : x.Canonical)
    (hr : x.Rounds q)
    (hmantissa : x.mantissa = 2 ^ 52)
    (hscale : -1074 < x.scale)
    (hlt : q < 2 ^ (x.scale + 52)) :
    IsNearest (2 ^ 53) (q / 2 ^ (x.scale - 1)) := by
  have hunit : (2 : ℚ) ^ (x.scale - 1) = 2 * 2 ^ (x.scale - 2) := by
    rw [show x.scale - 1 = 1 + (x.scale - 2) by omega, zpow_add₀ (by norm_num), zpow_one]
  have hpow : (2 : ℚ) ^ (x.scale + 52) = 2 ^ 54 * 2 ^ (x.scale - 2) := by
    rw [show x.scale + 52 = 54 + (x.scale - 2) by omega, zpow_add₀ (by norm_num)]
    norm_num
  have hdiv : (0 : ℚ) < 2 * 2 ^ (x.scale - 2) := by positivity
  have hnarrow : x.narrowBelow = true := hc.narrow.2 ⟨hmantissa, hscale⟩
  have hlow := hr.low
  rw [Binary.low, if_pos hnarrow, hmantissa] at hlow
  rw [IsNearest, hunit, lt_div_iff₀ hdiv, div_lt_iff₀ hdiv, eq_div_iff hdiv.ne',
    div_eq_iff hdiv.ne']
  rw [hpow] at hlt
  push_cast at hlow ⊢
  refine ⟨?_, .inl (by linarith)⟩
  rcases hlow with h | ⟨-, h⟩
  · exact .inl (by linarith)
  · exact .inr ⟨by decide, by linarith⟩

end Interval

section Round

variable {x : Binary} {q : ℚ} {mantissa : Nat} {exponent : Int} {accuracy : Accuracy}

/-- A finite number is the same where its parts are. -/
theorem finite_congr
    {sign : Sign} {m m' : Nat} {e e' : Int} {h : 0 < m} {h' : 0 < m'}
    (hm : m = m')
    (he : e = e') :
    UnpackedFloat.finite sign m e h = .finite sign m' e' h' := by
  subst hm he
  rfl

@[simp] theorem mantissa_ofMantissaAndAccuracy :
    (ExtendedMantissa.ofMantissaAndAccuracy mantissa accuracy).mantissa = mantissa := by
  unfold ExtendedMantissa.ofMantissaAndAccuracy
  split <;> rfl

/-- The first shift moves the mantissa to the exponent of the format. -/
theorem describes_shift
    (hd : Describes (ExtendedMantissa.ofMantissaAndAccuracy mantissa accuracy)
      (q / 2 ^ exponent))
    (hexponent : exponent ≤ target mantissa exponent) :
    ∃ em, shiftToTargetExponent Format.binary64 mantissa exponent accuracy
        = (em, target mantissa exponent) ∧
      Describes em (q / 2 ^ target mantissa exponent) := by
  have hnat : ((target mantissa exponent - exponent).toNat : Int)
      = target mantissa exponent - exponent := Int.toNat_of_nonneg (by omega)
  refine ⟨_, Prod.ext rfl ?_, ?_⟩
  · change exponent + ((target mantissa exponent - exponent).toNat : Int) = _
    omega
  · have hpow : q / 2 ^ target mantissa exponent
        = q / 2 ^ exponent / 2 ^ (target mantissa exponent - exponent).toNat := by
      rw [div_div, ← zpow_natCast, ← zpow_add₀ (by norm_num), hnat, add_sub_cancel]
    rw [hpow]
    exact hd.shiftRight _

/-- What rounding computes, in two shifts. -/
theorem roundWithAccuracy_of_shifts
    {first last : ExtendedMantissa} {middle scale : Int}
    (sign : Sign)
    (hfirst : shiftToTargetExponent Format.binary64 mantissa exponent accuracy = (first, middle))
    (hlast : shiftToTargetExponent Format.binary64 first.roundedMantissa middle .exact
      = (last, scale))
    (hpos : 0 < last.mantissa) :
    roundWithAccuracy Format.binary64 sign mantissa exponent accuracy
      = .finite sign last.mantissa scale hpos := by
  unfold roundWithAccuracy
  rw [hfirst]
  dsimp only
  rw [hlast]
  exact dif_neg hpos.ne'

/-- The exponent of the format for a rational is the one that leaves it 53 bits. -/
theorem bounds_of_target
    (hd : Describes (ExtendedMantissa.ofMantissaAndAccuracy mantissa accuracy)
      (q / 2 ^ exponent))
    (hexponent : exponent ≤ target mantissa exponent) :
    -1074 ≤ target mantissa exponent ∧ q < 2 ^ (target mantissa exponent + 53) ∧
      (target mantissa exponent ≠ -1074 → 2 ^ (target mantissa exponent + 52) ≤ q) := by
  have hscaled : q / 2 ^ exponent * 2 ^ exponent = q := div_mul_cancel₀ _ (by positivity)
  refine ⟨by rw [target_eq]; omega, ?_, fun hne => ?_⟩
  · have h := @lt_of_target _ exponent _ hd.lt
    rwa [hscaled, mantissa_ofMantissaAndAccuracy] at h
  · have h := le_of_target (r := q / 2 ^ exponent) (by simpa using hd.le) hexponent hne
    rwa [hscaled] at h

/-- A rational in the interval of a number is rounded to that number. -/
theorem roundWithAccuracy_eq
    (hc : x.Canonical)
    (hr : x.Rounds q)
    (sign : Sign)
    (hd : Describes (ExtendedMantissa.ofMantissaAndAccuracy mantissa accuracy)
      (q / 2 ^ exponent))
    (hexponent : exponent ≤ target mantissa exponent) :
    roundWithAccuracy Format.binary64 sign mantissa exponent accuracy
      = .finite sign x.mantissa x.scale hc.pos := by
  obtain ⟨em, hshift, hem⟩ := describes_shift hd hexponent
  obtain ⟨hleast, hlt, hge⟩ := bounds_of_target hd hexponent
  rcases scale_cases hc hr hleast hlt hge with heq | ⟨heq, hpower⟩
  · rw [heq] at hem hshift
    have hlast := shift_of_lt hc.mantissa_lt hc.scale_ge
    rw [← hem.roundedMantissa_eq (isNearest_scale hr)] at hlast
    have hround := roundWithAccuracy_of_shifts sign hshift hlast (by
      rw [hem.roundedMantissa_eq (isNearest_scale hr)]
      exact hc.pos)
    exact hround.trans (finite_congr (hem.roundedMantissa_eq (isNearest_scale hr)) rfl)
  · rw [heq] at hem hlt hleast hshift
    have hcarry := isNearest_carry hc hr hpower (by omega) (by
      rwa [show x.scale - 1 + 53 = x.scale + 52 by omega] at hlt)
    have hlast := shift_carry hleast
    rw [← hem.roundedMantissa_eq hcarry] at hlast
    have hround := roundWithAccuracy_of_shifts sign hshift hlast (by decide)
    exact hround.trans (finite_congr hpower.symm (sub_add_cancel x.scale 1))

/-- The result of rounding a rational once, described by a mantissa that is no wider than the
format needs and by the bits after it. -/
def OnceRounded (q : ℚ) (sign : Sign) (u : UnpackedFloat) : Prop :=
  ∃ mantissa exponent accuracy,
    u = roundWithAccuracy Format.binary64 sign mantissa exponent accuracy ∧
      Describes (ExtendedMantissa.ofMantissaAndAccuracy mantissa accuracy) (q / 2 ^ exponent) ∧
      exponent ≤ target mantissa exponent

/-- What is rounded once becomes the number whose interval holds it. -/
theorem OnceRounded.eq_finite
    {sign : Sign} {u : UnpackedFloat}
    (h : OnceRounded q sign u)
    (hc : x.Canonical)
    (hr : x.Rounds q) :
    u = .finite sign x.mantissa x.scale hc.pos := by
  obtain ⟨mantissa, exponent, accuracy, rfl, hd, hexponent⟩ := h
  exact roundWithAccuracy_eq hc hr sign hd hexponent

end Round

section Arithmetic

variable {x : Binary} {m₁ m₂ : Nat} {e₁ e₂ : Int}

theorem describes_exact
    (mantissa : Nat) :
    Describes (ExtendedMantissa.ofMantissaAndAccuracy mantissa .exact) mantissa :=
  ⟨0, by simp, le_rfl, by norm_num, by norm_num [ExtendedMantissa.ofMantissaAndAccuracy],
    by norm_num [ExtendedMantissa.ofMantissaAndAccuracy]⟩

/-- A fraction below one is described by comparing it with one half. -/
theorem describes_accuracyOfFraction
    {mantissa numerator denominator : Nat}
    (hlt : numerator < denominator) :
    Describes
      (ExtendedMantissa.ofMantissaAndAccuracy mantissa (accuracyOfFraction numerator denominator))
      (mantissa + (numerator : ℚ) / denominator) := by
  have hden : (0 : ℚ) < denominator := by exact_mod_cast Nat.zero_lt_of_lt hlt
  have hltq : (numerator : ℚ) < denominator := by exact_mod_cast hlt
  have hhalf : (1 / 2 : ℚ) ≤ numerator / denominator ↔ denominator ≤ 2 * numerator := by
    rw [le_div_iff₀ hden, ← Nat.cast_le (α := ℚ)]
    push_cast
    constructor <;> intro h <;> linarith
  have hne : (numerator : ℚ) / denominator ≠ 1 / 2 ↔ 2 * numerator ≠ denominator := by
    rw [Ne, Ne, div_eq_iff hden.ne', ← Nat.cast_inj (R := ℚ)]
    push_cast
    constructor <;> intro h heq <;> exact h (by linarith)
  have hzero : (numerator : ℚ) / denominator ≠ 0 ↔ numerator ≠ 0 := by
    rw [Ne, Ne, div_eq_zero_iff, Nat.cast_eq_zero, Nat.cast_eq_zero]
    exact not_congr (or_iff_left (Nat.zero_lt_of_lt hlt).ne')
  refine ⟨numerator / denominator, by simp, by positivity, by rwa [div_lt_one hden], ?_, ?_⟩
  all_goals rw [accuracyOfFraction]
  · rw [hhalf]
    split
    · next h => simp [ExtendedMantissa.ofMantissaAndAccuracy, h]; omega
    · rcases Nat.lt_trichotomy (2 * numerator) denominator with h | h | h
      · rw [Nat.compare_eq_lt.2 h]
        simpa [ExtendedMantissa.ofMantissaAndAccuracy] using h
      · rw [Nat.compare_eq_eq.2 h]
        simpa [ExtendedMantissa.ofMantissaAndAccuracy] using h.ge
      · rw [Nat.compare_eq_gt.2 h]
        simpa [ExtendedMantissa.ofMantissaAndAccuracy] using h.le
  · rw [hne, hzero]
    split
    · next h => simp [ExtendedMantissa.ofMantissaAndAccuracy, h]
    · next hnum =>
      rcases Nat.lt_trichotomy (2 * numerator) denominator with h | h | h
      · rw [Nat.compare_eq_lt.2 h]
        simpa [ExtendedMantissa.ofMantissaAndAccuracy, hnum] using h.ne
      · rw [Nat.compare_eq_eq.2 h]
        simp [ExtendedMantissa.ofMantissaAndAccuracy, h]
      · rw [Nat.compare_eq_gt.2 h]
        simpa [ExtendedMantissa.ofMantissaAndAccuracy, hnum] using h.ne'

/-- A quotient is described by its whole part and its remainder. -/
theorem describes_quotient
    (numerator : Nat)
    {denominator : Nat}
    (hpos : 0 < denominator) :
    Describes
      (ExtendedMantissa.ofMantissaAndAccuracy (numerator / denominator)
        (accuracyOfFraction (numerator % denominator) denominator))
      ((numerator : ℚ) / denominator) := by
  have hden : (denominator : ℚ) ≠ 0 := by exact_mod_cast hpos.ne'
  have hsplit : (numerator : ℚ)
      = denominator * (numerator / denominator : Nat) + (numerator % denominator : Nat) := by
    exact_mod_cast (Nat.div_add_mod numerator denominator).symm
  have hvalue : (numerator : ℚ) / denominator
      = (numerator / denominator : Nat) + ((numerator % denominator : Nat) : ℚ) / denominator := by
    rw [eq_comm, ← sub_eq_zero]
    conv_lhs => rw [hsplit]
    field_simp
    ring
  rw [hvalue]
  exact describes_accuracyOfFraction (Nat.mod_lt numerator hpos)

/-- With 53 bits the mantissa need not be widened. -/
theorem le_target
    {mantissa : Nat} {exponent : Int}
    (h : 2 ^ 52 ≤ mantissa) :
    exponent ≤ target mantissa exponent := by
  have hlog : 52 ≤ mantissa.log2 := (Nat.le_log2 (by omega)).2 h
  rw [target_eq]
  omega

/-- Widening a mantissa does not change the exponent of the format. -/
theorem le_target_shiftLeft
    {mantissa n : Nat} {exponent : Int}
    (hpos : 0 < mantissa)
    (hn : n = (exponent - target mantissa exponent).toNat) :
    exponent - n ≤ target (mantissa <<< n) (exponent - n) := by
  have hlog : mantissa.log2 + n ≤ (mantissa <<< n).log2 := by
    have hnonzero : mantissa <<< n ≠ 0 := by
      rw [Nat.shiftLeft_eq]
      positivity
    rw [Nat.le_log2 hnonzero, Nat.shiftLeft_eq, Nat.pow_add]
    exact Nat.mul_le_mul_right _ (Nat.log2_self_le hpos.ne')
  rw [target_eq] at hn ⊢
  omega

/-- A scaled natural number is rounded once. -/
theorem onceRounded_round
    {mantissa : Nat}
    (exponent : Int)
    (sign : Sign)
    (hpos : 0 < mantissa) :
    OnceRounded (mantissa * 2 ^ exponent) sign
      (UnpackedFloat.round Format.binary64 sign mantissa exponent) := by
  obtain ⟨n, hn⟩ : ∃ n, n = (exponent - target mantissa exponent).toNat := ⟨_, rfl⟩
  have hvalue : (mantissa : ℚ) * 2 ^ exponent / 2 ^ (exponent - n) = (mantissa <<< n : Nat) := by
    rw [zpow_sub₀ (by norm_num), zpow_natCast, Nat.shiftLeft_eq]
    push_cast
    field_simp
  have hd := describes_exact (mantissa <<< n)
  rw [← hvalue] at hd
  refine ⟨mantissa <<< n, exponent - n, .exact, ?_, hd, le_target_shiftLeft hpos hn⟩
  rw [hn]
  rfl

/-- A product is rounded once. -/
theorem onceRounded_mul
    (e₁ e₂ : Int) (s₁ s₂ : Sign)
    (h₁ : 0 < m₁)
    (h₂ : 0 < m₂)
    (hwide : 2 ^ 52 ≤ m₁) :
    OnceRounded ((m₁ * 2 ^ e₁) * (m₂ * 2 ^ e₂)) (s₁ * s₂)
      (UnpackedFloat.mul Format.binary64 (.finite s₁ m₁ e₁ h₁) (.finite s₂ m₂ e₂ h₂)) := by
  have hproduct : ((m₁ : ℚ) * 2 ^ e₁) * (m₂ * 2 ^ e₂) / 2 ^ (e₁ + e₂) = (m₁ * m₂ : Nat) := by
    rw [zpow_add₀ (by norm_num)]
    push_cast
    field_simp
  have hd := describes_exact (m₁ * m₂)
  rw [← hproduct] at hd
  exact ⟨m₁ * m₂, e₁ + e₂, .exact, rfl, hd,
    le_target (hwide.trans (Nat.le_mul_of_pos_right m₁ h₂))⟩

/-- The numerator of a division is widened until the quotient has 53 bits. -/
theorem le_target_quotient
    (h₁ : 0 < m₁)
    (h₂ : 0 < m₂)
    {t : Int}
    (ht : t = min (e₁ - e₂)
      (Format.binary64.targetExponent (totalExponent m₁ e₁ - totalExponent m₂ e₂))) :
    t ≤ target (m₁ <<< (e₁ - e₂ - t).toNat / m₂) t := by
  by_cases hleast : t ≤ -1074
  · rw [target_eq]
    omega
  · refine le_target ?_
    have htarget : t ≤ e₁ - e₂ ∧ t ≤ totalExponent m₁ e₁ - totalExponent m₂ e₂ - 53 := by
      have hvalue : Format.binary64.targetExponent (totalExponent m₁ e₁ - totalExponent m₂ e₂)
          = max (totalExponent m₁ e₁ - totalExponent m₂ e₂ - 53) (-1074) := rfl
      rw [hvalue] at ht
      omega
    rcases htarget with ⟨hshift, hbits⟩
    unfold totalExponent at hbits
    rw [Nat.shiftLeft_eq, Nat.le_div_iff_mul_le h₂]
    calc 2 ^ 52 * m₂
        ≤ 2 ^ 52 * 2 ^ (m₂.log2 + 1) := Nat.mul_le_mul_left _ Nat.lt_log2_self.le
      _ = 2 ^ (52 + (m₂.log2 + 1)) := (Nat.pow_add ..).symm
      _ ≤ 2 ^ (m₁.log2 + (e₁ - e₂ - t).toNat) := Nat.pow_le_pow_right (by decide) (by omega)
      _ = 2 ^ m₁.log2 * 2 ^ (e₁ - e₂ - t).toNat := Nat.pow_add ..
      _ ≤ m₁ * 2 ^ (e₁ - e₂ - t).toNat := Nat.mul_le_mul_right _ (Nat.log2_self_le h₁.ne')

/-- A quotient is rounded once. -/
theorem onceRounded_div
    (e₁ e₂ : Int) (s₁ s₂ : Sign)
    (h₁ : 0 < m₁)
    (h₂ : 0 < m₂) :
    OnceRounded ((m₁ * 2 ^ e₁) / (m₂ * 2 ^ e₂)) (s₁ / s₂)
      (UnpackedFloat.div Format.binary64 (.finite s₁ m₁ e₁ h₁) (.finite s₂ m₂ e₂ h₂)) := by
  obtain ⟨t, ht⟩ : ∃ t, t = min (e₁ - e₂)
      (Format.binary64.targetExponent (totalExponent m₁ e₁ - totalExponent m₂ e₂)) := ⟨_, rfl⟩
  have hle : t ≤ e₁ - e₂ := by omega
  have hquotient : ((m₁ : ℚ) * 2 ^ e₁) / (m₂ * 2 ^ e₂) / 2 ^ t
      = (m₁ <<< (e₁ - e₂ - t).toNat : Nat) / m₂ := by
    have hpow : (2 : ℚ) ^ (e₁ - e₂ - t).toNat = 2 ^ (e₁ - e₂ - t) := by
      rw [← zpow_natCast, Int.toNat_of_nonneg (by omega)]
    rw [Nat.shiftLeft_eq]
    push_cast
    rw [hpow, zpow_sub₀ (by norm_num), zpow_sub₀ (by norm_num)]
    field_simp
  have hd := describes_quotient (m₁ <<< (e₁ - e₂ - t).toNat) h₂
  rw [← hquotient] at hd
  refine ⟨_, t, _, ?_, hd, le_target_quotient h₁ h₂ ht⟩
  rw [ht]
  rfl

end Arithmetic

section Decimals

variable {x : Binary} {q : ℚ}

/-- The rationals that round to a number of the format lie within its range. -/
theorem bounds_of_rounds
    (hc : x.Canonical)
    (hr : x.Rounds q) :
    2 ^ (-1075 : Int) ≤ q ∧ q < 2 ^ (1024 : Int) := by
  constructor
  · have habove : 2 ^ (x.scale + (0 : Nat)) ≤ 2 * q := zpow_le_of_rounds hr hc.pos
    have hpow : (2 : ℚ) * 2 ^ (-1075 : Int) ≤ 2 ^ (x.scale + (0 : Nat)) := by
      rw [← zpow_one_add₀ (by norm_num)]
      exact zpow_le_zpow_right₀ (by norm_num) (by have := hc.scale_ge; omega)
    linarith
  · have hpow : (2 : ℚ) ^ (x.scale + 53) ≤ 2 ^ (1024 : Int) :=
      zpow_le_zpow_right₀ (by norm_num) (by have := hc.scale_le; omega)
    exact (lt_zpow_of_rounds hr hc.mantissa_lt).trans_le hpow

variable {digits : Nat} {exponent : Int}

/-- A decimal with a huge exponent is out of the range of the format. -/
theorem le_of_exponent
    (hdigits : 0 < digits)
    (hexponent : 1024 ≤ exponent) :
    2 ^ (1024 : Int) ≤ (digits : ℚ) * 10 ^ exponent := by
  have hone : (1 : ℚ) ≤ digits := by exact_mod_cast hdigits
  calc (2 : ℚ) ^ (1024 : Int)
      ≤ 10 ^ (1024 : Int) := zpow_le_zpow_left₀ (by norm_num) (by norm_num) (by norm_num)
    _ ≤ 10 ^ exponent := zpow_le_zpow_right₀ (by norm_num) hexponent
    _ ≤ digits * 10 ^ exponent := le_mul_of_one_le_left (by positivity) hone

/-- So is one with a negative exponent that its digits cannot make up for. -/
theorem lt_of_exponent
    (hexponent : exponent < -(2048 + (digits.log2 : Int))) :
    (digits : ℚ) * 10 ^ exponent < 2 ^ (-1075 : Int) := by
  have hlog : (digits : ℚ) < 2 ^ ((digits.log2 : Int) + 1) := by
    exact_mod_cast (Nat.lt_log2_self : digits < 2 ^ (digits.log2 + 1))
  have hpow : (10 : ℚ) ^ exponent ≤ 2 ^ exponent := by
    have h := zpow_le_zpow_left₀ (by omega : 0 ≤ -exponent) (by norm_num : (0 : ℚ) ≤ 2)
      (by norm_num : (2 : ℚ) ≤ 10)
    rw [zpow_neg, zpow_neg] at h
    exact (inv_le_inv₀ (by positivity) (by positivity)).1 h
  calc (digits : ℚ) * 10 ^ exponent
      ≤ digits * 2 ^ exponent := mul_le_mul_of_nonneg_left hpow (by positivity)
    _ < 2 ^ ((digits.log2 : Int) + 1) * 2 ^ exponent :=
        mul_lt_mul_of_pos_right hlog (by positivity)
    _ = 2 ^ ((digits.log2 : Int) + 1 + exponent) := (zpow_add₀ (by norm_num) _ _).symm
    _ ≤ 2 ^ (-1075 : Int) := zpow_le_zpow_right₀ (by norm_num) (by omega)

/-- What a decimal is converted to: it is rounded once, or far out of the range of the format. -/
inductive Converted (q : ℚ) : UnpackedFloat → Prop
  | rounded {u : UnpackedFloat} (h : OnceRounded q .positive u) : Converted q u
  | large (h : 2 ^ (1024 : Int) ≤ q) : Converted q (.infinity .positive)
  | small (h : q < 2 ^ (-1075 : Int)) : Converted q (.zero .positive)

/-- A decimal is converted to the number whose interval holds it. -/
theorem Converted.eq_finite
    {u : UnpackedFloat}
    (h : Converted q u)
    (hc : x.Canonical)
    (hr : x.Rounds q) :
    u = .finite .positive x.mantissa x.scale hc.pos := by
  obtain ⟨hlow, hhigh⟩ := bounds_of_rounds hc hr
  cases h with
  | rounded h => exact h.eq_finite hc hr
  | large h => exact absurd hhigh (not_lt.2 h)
  | small h => exact absurd hlow (not_le.2 h)

theorem converted_ofScientific
    (hdigits : 0 < digits)
    (exponent : Int) :
    Converted (digits * 10 ^ exponent)
      (UnpackedFloat.ofScientific Format.binary64 digits exponent) := by
  rw [UnpackedFloat.ofScientific, dif_neg hdigits.ne']
  have hwidth : (2 : Int) ^ Format.binary64.exponentBits = 2048 := rfl
  by_cases hlarge : exponent > 2 ^ Format.binary64.exponentBits
  · rw [if_pos hlarge]
    exact .large (le_of_exponent hdigits (by omega))
  · rw [if_neg hlarge]
    by_cases hsmall : exponent < -(2 ^ Format.binary64.exponentBits + (digits.log2 : Int))
    · rw [if_pos hsmall]
      exact .small (lt_of_exponent (by omega))
    · rw [if_neg hsmall]
      refine .rounded ?_
      by_cases hexponent : 0 ≤ exponent
      · rw [if_pos hexponent]
        have hpow : ((10 ^ exponent.toNat : Nat) : ℚ) = (10 : ℚ) ^ exponent := by
          push_cast
          rw [← zpow_natCast, Int.toNat_of_nonneg hexponent]
        have hvalue : (digits : ℚ) * (10 : ℚ) ^ exponent
            = ((digits <<< 53 : Nat) * (2 : ℚ) ^ (-53 : Int))
              * ((10 ^ exponent.toNat : Nat) * (2 : ℚ) ^ (0 : Int)) := by
          rw [hpow, Nat.shiftLeft_eq, Nat.cast_mul, zpow_zero, mul_one, mul_assoc (digits : ℚ)]
          norm_num
        rw [hvalue]
        refine onceRounded_mul _ _ .positive .positive _ _ ?_
        rw [Nat.shiftLeft_eq]
        omega
      · rw [if_neg hexponent]
        have hpow : ((10 ^ (-exponent).toNat : Nat) : ℚ) = (10 : ℚ) ^ (-exponent) := by
          push_cast
          rw [← zpow_natCast, Int.toNat_of_nonneg (by omega)]
        have hvalue : (digits : ℚ) * (10 : ℚ) ^ exponent
            = (digits * (2 : ℚ) ^ (0 : Int))
              / ((10 ^ (-exponent).toNat : Nat) * (2 : ℚ) ^ (0 : Int)) := by
          rw [hpow, zpow_zero, mul_one, mul_one, zpow_neg, div_inv_eq_mul]
        rw [hvalue]
        exact onceRounded_div _ _ .positive .positive _ _

end Decimals

end Rounding

end TaskTree
