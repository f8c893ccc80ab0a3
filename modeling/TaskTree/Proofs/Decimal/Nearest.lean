import TaskTree.Proofs.Decimal.ReadBack

/-!
# Every numeral is rounded correctly

A rational rounds to the number of the format in whose interval it lies.  The intervals
of the finite numbers leave out what is at most half the least of them, which rounds to
zero, and what is at least half-way from the greatest to the next power of two, which
rounds to infinity.  `Numeral.nearest` follows this for every numeral, however many
digits it has and however large its power of ten is.

**Results.**
* `Rounding.OnceRounded.outcome`: what one rounding makes of any rational.
* `Binary.Rounds.abs_sub_le`: no number of the format is nearer than the one rounded to.
* `Numeral.nearest_eq_iff`: a numeral stands for the number that its value rounds to.
-/

namespace TaskTree

open Float.Model Float.Model.UnpackedFloat

/-- The number of the format with the given mantissa and scale. -/
def Binary.at (mantissa : Nat) (scale : Int) : Binary where
  mantissa := mantissa
  scale := scale
  narrowBelow := mantissa = 2 ^ 52 && -1074 < scale

namespace Rounding

section Mantissa

variable {em : ExtendedMantissa} {r : ℚ}

/-- Rounding by the two bits gives a nearest natural number. -/
theorem Describes.isNearest
    (h : Describes em r) :
    IsNearest em.roundedMantissa r := by
  rcases em with ⟨mantissa, roundBit, stickyBit⟩
  rcases h with ⟨f, rfl, hnonneg, hlt, hround, hsticky⟩
  simp only at hround hsticky
  cases roundBit with
  | false =>
      have hf : f < 1 / 2 := by simpa using hround
      have hdown :
          (⟨mantissa, false, stickyBit⟩ : ExtendedMantissa).roundedMantissa = mantissa := by
        cases stickyBit <;> rfl
      rw [hdown]
      exact ⟨.inl (by linarith), .inl (by linarith)⟩
  | true =>
      have hf : 1 / 2 ≤ f := by simpa using hround
      cases stickyBit with
      | false =>
          have hf : f = 1 / 2 := by
            by_contra hne
            cases hsticky.2 ⟨by linarith, hne⟩
          have htie : (⟨mantissa, true, false⟩ : ExtendedMantissa).roundedMantissa
              = mantissa + mantissa % 2 := rfl
          rw [htie, hf]
          rcases Nat.mod_two_eq_zero_or_one mantissa with hparity | hparity
          · rw [hparity]
            exact ⟨.inl (by push_cast; linarith), .inr ⟨hparity, by push_cast; ring⟩⟩
          · rw [hparity]
            exact ⟨.inr ⟨by omega, by push_cast; ring⟩, .inl (by push_cast; linarith)⟩
      | true =>
          have hf : 1 / 2 < f := lt_of_le_of_ne hf (Ne.symm (hsticky.1 rfl).2)
          have hup : (⟨mantissa, true, true⟩ : ExtendedMantissa).roundedMantissa
              = mantissa + 1 := rfl
          rw [hup]
          exact ⟨.inl (by push_cast; linarith), .inl (by push_cast; linarith)⟩

variable {m : Nat}

theorem IsNearest.le
    (h : IsNearest m r) :
    (m : ℚ) - 1 / 2 ≤ r ∧ r ≤ m + 1 / 2 :=
  ⟨h.1.elim le_of_lt fun h => h.2.le, h.2.elim le_of_lt fun h => h.2.le⟩

/-- The nearest natural number lies within the same bounds. -/
theorem IsNearest.le_of_lt
    (h : IsNearest m r)
    {n : Nat}
    (hr : r < n) :
    m ≤ n := by
  have hlt : (m : ℚ) < n + 1 := by linarith [h.le.1]
  have hlt : m < n + 1 := by exact_mod_cast hlt
  omega

theorem IsNearest.le_of_le
    (h : IsNearest m r)
    {n : Nat}
    (hr : n ≤ r) :
    n ≤ m := by
  have hlt : (n : ℚ) < m + 1 := by linarith [h.le.2]
  have hlt : n < m + 1 := by exact_mod_cast hlt
  omega

end Mantissa

section Interval

variable {q : ℚ} {m : Nat} {t : Int}

theorem canonical_at
    (hpos : 0 < m)
    (hlt : m < 2 ^ 53)
    (hleast : -1074 ≤ t)
    (hgreatest : t ≤ 971)
    (hnormal : t ≠ -1074 → 2 ^ 52 ≤ m) :
    (Binary.at m t).Canonical where
  pos := hpos
  mantissa_lt := hlt
  scale_ge := hleast
  scale_le := hgreatest
  normal := or_iff_not_imp_right.2 hnormal
  narrow := by simp [Binary.at]

/-- A rational is in the interval of the nearest mantissa. -/
theorem rounds_at
    (h : IsNearest m (q / 2 ^ t))
    (hnormal : t ≠ -1074 → 2 ^ (t + 52) ≤ q) :
    (Binary.at m t).Rounds q := by
  have hunit : (0 : ℚ) < 2 ^ (t - 2) := by positivity
  have hscale : (2 : ℚ) ^ t = 4 * 2 ^ (t - 2) := by
    rw [zpow_sub₀ (by norm_num)]
    ring
  have hdiv : (0 : ℚ) < 4 * 2 ^ (t - 2) := by positivity
  rw [IsNearest, hscale, lt_div_iff₀ hdiv, div_lt_iff₀ hdiv, eq_div_iff hdiv.ne',
    div_eq_iff hdiv.ne'] at h
  refine ⟨?low, ?high⟩
  case low =>
    rw [Binary.low]
    by_cases hnarrow : (Binary.at m t).narrowBelow = true
    · -- the number is a power of two, and the rational is not below it
      have hparts : m = 2 ^ 52 ∧ -1074 < t := by simpa [Binary.at] using hnarrow
      have hq := hnormal (by omega)
      rw [if_pos hnarrow, Binary.at, hparts.1]
      rw [zpow_add₀ (by norm_num), hscale] at hq
      refine .inl ?_
      push_cast
      norm_num at hq ⊢
      linarith
    · rw [if_neg hnarrow]
      exact h.1.imp (fun h => by simp only [Binary.at]; linarith)
        fun h => ⟨h.1, by simp only [Binary.at]; linarith⟩
  case high =>
    rw [Binary.high]
    exact h.2.imp (fun h => by simp only [Binary.at]; linarith)
      fun h => ⟨h.1, by simp only [Binary.at]; linarith⟩

/-- What is rounded up to 53 bits and one is in the interval of the next power of two. -/
theorem rounds_carry
    (h : IsNearest (2 ^ 53) (q / 2 ^ t))
    (hleast : -1074 ≤ t)
    (hlt : q < 2 ^ (t + 53)) :
    (Binary.at (2 ^ 52) (t + 1)).Rounds q := by
  have hscale : (2 : ℚ) ^ t = 2 * 2 ^ (t + 1 - 2) := by
    rw [show t + 1 - 2 = t - 1 by omega, zpow_sub_one₀ (by norm_num)]
    ring
  have hnarrow : (Binary.at (2 ^ 52) (t + 1)).narrowBelow = true := by
    simp [Binary.at]
    omega
  have hlow := h.le.1
  rw [le_div_iff₀ (by positivity), hscale] at hlow
  rw [zpow_add₀ (by norm_num), hscale] at hlt
  have hunit : (0 : ℚ) < 2 ^ (t + 1 - 2) := by positivity
  refine ⟨?low, .inl ?high⟩
  case low =>
    rw [Binary.low, if_pos hnarrow]
    simp only [Binary.at]
    push_cast at hlow ⊢
    rcases hlow.lt_or_eq with hlow | hlow
    · exact .inl (by linarith)
    · exact .inr ⟨by norm_num, by linarith⟩
  case high =>
    rw [Binary.high]
    simp only [Binary.at]
    push_cast
    norm_num at hlt ⊢
    linarith

end Interval

section Outcome

/-- What a rational is rounded to. -/
inductive Outcome (q : ℚ) (sign : Sign) : UnpackedFloat → Prop
  | zero (h : q ≤ 2 ^ (-1075 : Int)) : Outcome q sign (.zero sign)
  | finite {x : Binary} (hc : x.Canonical) (hr : x.Rounds q) :
      Outcome q sign (.finite sign x.mantissa x.scale hc.pos)
  | infinite {u : UnpackedFloat}
      (h : 2 ^ (1024 : Int) - 2 ^ (970 : Int) ≤ q)
      (hpack : Float.Model.pack u = Float.Model.pack (.infinity sign)) :
      Outcome q sign u

variable {q : ℚ} {sign : Sign}

/-- What exceeds the scales of the format is packed as infinity. -/
theorem pack_of_scale
    {m : Nat} {t : Int}
    (hpos : 0 < m)
    (hscale : 972 ≤ t) :
    Float.Model.pack (.finite sign m t hpos) = Float.Model.pack (.infinity sign) := by
  have hbiased : 2 ^ Format.binary64.exponentBits
      ≤ (t + Format.binary64.exponentBias
          + Format.binary64.mantissaBitsWithoutImplicit).toNat + 1 := by
    change 2048 ≤ (t + (1023 : Nat) + (52 : Nat)).toNat + 1
    omega
  unfold Float.Model.pack
  rw [Float.Model.mk.injEq]
  refine congrArg UInt64.ofBitVec ?_
  unfold UnpackedFloat.pack
  exact if_pos hbiased

/-- One rounding finds the number whose interval holds the rational, if there is one, and zero or
infinity otherwise. -/
theorem OnceRounded.outcome
    {u : UnpackedFloat}
    (h : OnceRounded q sign u) :
    Outcome q sign u := by
  obtain ⟨mantissa, exponent, accuracy, rfl, hd, hexponent⟩ := h
  obtain ⟨em, hshift, hem⟩ := describes_shift hd hexponent
  obtain ⟨hleast, hlt, hge⟩ := bounds_of_target hd hexponent
  generalize target mantissa exponent = t at *
  have hunit : (0 : ℚ) < 2 ^ t := by positivity
  have hnearest := hem.isNearest
  have hlast : em.roundedMantissa ≤ 2 ^ 53 := hnearest.le_of_lt (by
    rw [div_lt_iff₀ hunit]
    push_cast
    rw [zpow_add₀ (by norm_num)] at hlt
    norm_num at hlt ⊢
    linarith)
  have hfirst : t ≠ -1074 → 2 ^ 52 ≤ em.roundedMantissa := fun hne => hnearest.le_of_le (by
    rw [le_div_iff₀ hunit]
    push_cast
    have hge := hge hne
    rw [zpow_add₀ (by norm_num)] at hge
    norm_num at hge ⊢
    linarith)
  rcases Nat.eq_zero_or_pos em.roundedMantissa with hzero | hpos
  · have ht : t = -1074 := by
      by_contra hne
      have := hfirst hne
      omega
    subst ht
    have hround : roundWithAccuracy Format.binary64 sign mantissa exponent accuracy
        = .zero sign := by
      have hstays := @shift_of_lt 0 (-1074) (by norm_num) hleast
      unfold roundWithAccuracy
      rw [hshift]
      dsimp only
      rw [hzero, hstays]
      exact dif_pos rfl
    have hhalf := hnearest.le.2
    rw [hzero, div_le_iff₀ hunit] at hhalf
    rw [hround]
    refine .zero (hhalf.trans_eq ?_)
    rw [show (-1075 : Int) = -1074 - 1 by rfl, zpow_sub_one₀ (by norm_num)]
    generalize (2 : ℚ) ^ (-1074 : Int) = unit
    push_cast
    ring
  · rcases hlast.lt_or_eq with hlast | hlast
    · rw [roundWithAccuracy_of_shifts sign hshift (shift_of_lt hlast hleast) hpos]
      by_cases hgreatest : t ≤ 971
      · exact .finite (canonical_at hpos hlast hleast hgreatest hfirst) (rounds_at hnearest hge)
      · refine .infinite ?_ (pack_of_scale hpos (by omega))
        calc (2 : ℚ) ^ (1024 : Int) - 2 ^ (970 : Int)
            ≤ 2 ^ (1024 : Int) := sub_le_self _ (by positivity)
          _ ≤ 2 ^ (t + 52) := zpow_le_zpow_right₀ (by norm_num) (by omega)
          _ ≤ q := hge (by omega)
    · rw [hlast] at hnearest
      have hshift' := shift_carry hleast
      rw [← hlast] at hshift'
      rw [roundWithAccuracy_of_shifts sign hshift hshift' (by norm_num)]
      by_cases hgreatest : t ≤ 970
      · exact .finite
          (canonical_at (by norm_num) (by norm_num) (by omega) (by omega) fun _ => le_rfl)
          (rounds_carry hnearest hleast hlt)
      · refine .infinite ?_ (pack_of_scale (by norm_num) (by omega))
        have hlow := hnearest.le.1
        rw [le_div_iff₀ hunit] at hlow
        calc (2 : ℚ) ^ (1024 : Int) - 2 ^ (970 : Int)
            = ((2 ^ 53 : Nat) - 1 / 2) * 2 ^ (971 : Int) := by
              rw [show (1024 : Int) = 53 + 971 by rfl, show (971 : Int) = 1 + 970 by rfl,
                zpow_add₀ (by norm_num), zpow_add₀ (by norm_num)]
              generalize (2 : ℚ) ^ (970 : Int) = unit
              norm_num
              ring
          _ ≤ ((2 ^ 53 : Nat) - 1 / 2) * 2 ^ t :=
              mul_le_mul_of_nonneg_left (zpow_le_zpow_right₀ (by norm_num) (by omega)) (by norm_num)
          _ ≤ q := hlow

end Outcome

end Rounding

namespace Binary

section Neighbours

variable {x y : Binary} {q : ℚ}

/-- A number of the format with no smaller scale is a multiple of the same unit. -/
theorem toRat_eq_of_scale_le
    (h : x.scale ≤ y.scale) :
    ∃ k : Nat, y.toRat = k * 2 ^ x.scale := by
  refine ⟨y.mantissa * 2 ^ (y.scale - x.scale).toNat, ?_⟩
  rw [toRat, Nat.cast_mul, Nat.cast_pow, Nat.cast_ofNat, ← zpow_natCast,
    Int.toNat_of_nonneg (by omega), mul_assoc, ← zpow_add₀ (by norm_num)]
  exact congrArg _ (congrArg _ (by omega))

/-- A number of the format with a smaller scale stays below the power of two. -/
theorem toRat_le_of_scale_lt
    (hy : y.Canonical)
    (h : y.scale < x.scale) :
    y.toRat ≤ (2 ^ 52 - 1 / 2) * 2 ^ x.scale := by
  have hmantissa : (y.mantissa : ℚ) ≤ 2 ^ 53 - 1 := by
    have := hy.mantissa_lt
    exact_mod_cast (by omega : (y.mantissa : Int) ≤ 2 ^ 53 - 1)
  have hunit : (0 : ℚ) < 2 ^ (x.scale - 1) := by positivity
  calc y.toRat = y.mantissa * 2 ^ y.scale := rfl
    _ ≤ (2 ^ 53 - 1) * 2 ^ y.scale := mul_le_mul_of_nonneg_right hmantissa (by positivity)
    _ ≤ (2 ^ 53 - 1) * 2 ^ (x.scale - 1) :=
        mul_le_mul_of_nonneg_left (zpow_le_zpow_right₀ (by norm_num) (by omega)) (by norm_num)
    _ = (2 ^ 52 - 1 / 2) * 2 ^ x.scale := by
        rw [zpow_sub_one₀ (by norm_num)]
        ring

/-- The middle above is half-way to any greater number. -/
theorem two_mul_high_le
    (hx : x.Canonical)
    (hy : y.Canonical)
    (h : x.toRat < y.toRat) :
    2 * x.high ≤ x.toRat + y.toRat := by
  have hunit : (0 : ℚ) < 2 ^ x.scale := by positivity
  have hmiddle : 2 * x.high = (2 * x.mantissa + 1) * 2 ^ x.scale := by
    rw [high, zpow_sub₀ (by norm_num)]
    ring
  rcases le_or_gt x.scale y.scale with hscale | hscale
  · obtain ⟨k, hk⟩ := toRat_eq_of_scale_le hscale
    rw [hk, toRat, mul_lt_mul_iff_left₀ hunit, Nat.cast_lt] at h
    have hnext : (x.mantissa : ℚ) + 1 ≤ k := by exact_mod_cast h
    rw [hmiddle, hk, toRat]
    nlinarith
  · -- with a smaller scale the other number would be smaller
    have hnormal : 2 ^ 52 ≤ x.mantissa := hx.normal.resolve_right (by
      have := hy.scale_ge
      omega)
    have hmantissa : (2 : ℚ) ^ 52 ≤ x.mantissa := by exact_mod_cast hnormal
    have hbelow := toRat_le_of_scale_lt hy hscale
    rw [toRat] at h
    nlinarith

/-- The middle below is half-way to any smaller number. -/
theorem le_two_mul_low
    (hx : x.Canonical)
    (hy : y.Canonical)
    (h : y.toRat < x.toRat) :
    x.toRat + y.toRat ≤ 2 * x.low := by
  have hunit : (0 : ℚ) < 2 ^ x.scale := by positivity
  have hmiddle : 2 * x.low
      = (if x.narrowBelow then 2 * (x.mantissa : ℚ) - 1 / 2 else 2 * (x.mantissa : ℚ) - 1)
        * 2 ^ x.scale := by
    rw [low, zpow_sub₀ (by norm_num)]
    split <;> ring
  rcases le_or_gt x.scale y.scale with hscale | hscale
  · obtain ⟨k, hk⟩ := toRat_eq_of_scale_le hscale
    rw [hk, toRat, mul_lt_mul_iff_left₀ hunit, Nat.cast_lt] at h
    have hnext : (k : ℚ) + 1 ≤ x.mantissa := by exact_mod_cast h
    rw [hmiddle, hk, toRat]
    split <;> nlinarith
  · have hleast : -1074 < x.scale := lt_of_le_of_lt hy.scale_ge hscale
    have hnormal : 2 ^ 52 ≤ x.mantissa := hx.normal.resolve_right hleast.ne'
    have hbelow := toRat_le_of_scale_lt hy hscale
    rw [hmiddle, toRat]
    split
    · next hnarrow =>
      rw [(hx.narrow.1 hnarrow).1]
      push_cast
      linarith
    · next hwide =>
      have hne : x.mantissa ≠ 2 ^ 52 := fun h => hwide (hx.narrow.2 ⟨h, hleast⟩)
      have hmantissa : (2 : ℚ) ^ 52 + 1 ≤ x.mantissa := by
        exact_mod_cast (by omega : 2 ^ 52 + 1 ≤ x.mantissa)
      nlinarith

/-- No number of the format is nearer to a rational than the one that it rounds to. -/
theorem Rounds.abs_sub_le
    (hr : x.Rounds q)
    (hx : x.Canonical)
    (hy : y.Canonical) :
    |q - x.toRat| ≤ |q - y.toRat| := by
  obtain ⟨hlow, hhigh⟩ := Rounding.le_of_rounds hr
  rcases lt_trichotomy x.toRat y.toRat with h | h | h
  · have habove := two_mul_high_le hx hy h
    rw [abs_sub_comm q y.toRat, abs_of_nonneg (by linarith : 0 ≤ y.toRat - q), abs_le]
    constructor <;> linarith
  · rw [h]
  · have hbelow := le_two_mul_low hx hy h
    rw [abs_of_nonneg (by linarith : 0 ≤ q - y.toRat), abs_le]
    constructor <;> linarith

end Neighbours

section Range

variable {x y : Binary} {q : ℚ}

/-- What rounds to a finite number other than zero lies strictly between what rounds to zero and
what rounds to infinity. -/
theorem Rounds.bounds
    (hr : x.Rounds q)
    (hc : x.Canonical) :
    2 ^ (-1075 : Int) < q ∧ q < 2 ^ (1024 : Int) - 2 ^ (970 : Int) := by
  have hleast : (2 : ℚ) ^ (-1076 : Int) ≤ 2 ^ (x.scale - 2) :=
    zpow_le_zpow_right₀ (by norm_num) (by have := hc.scale_ge; omega)
  have hgreatest : (2 : ℚ) ^ (x.scale - 2) ≤ 2 ^ (969 : Int) :=
    zpow_le_zpow_right₀ (by norm_num) (by have := hc.scale_le; omega)
  have hpos : (0 : ℚ) < 2 ^ (x.scale - 2) := by positivity
  have hlow := Rounding.le_low x
  constructor
  · have hbound : (2 : ℚ) ^ (-1075 : Int) = 2 * 2 ^ (-1076 : Int) := by
      rw [show (-1075 : Int) = 1 + -1076 by rfl, zpow_add₀ (by norm_num), zpow_one]
    rw [hbound]
    have hmantissa : (1 : ℚ) ≤ x.mantissa := by exact_mod_cast hc.pos
    rcases hr.low with h | ⟨heven, h⟩
    · nlinarith
    · have htwo : (2 : ℚ) ≤ x.mantissa := by
        have := hc.pos
        exact_mod_cast (by omega : 2 ≤ x.mantissa)
      nlinarith
  · have hbound : (2 : ℚ) ^ (1024 : Int) - 2 ^ (970 : Int) = (2 ^ 55 - 2) * 2 ^ (969 : Int) := by
      rw [show (1024 : Int) = 55 + 969 by rfl, show (970 : Int) = 1 + 969 by rfl,
        zpow_add₀ (by norm_num), zpow_add₀ (by norm_num)]
      generalize (2 : ℚ) ^ (969 : Int) = unit
      norm_num
      ring
    rw [hbound]
    have hhigh := hr.high
    have hlt := hc.mantissa_lt
    have hunit : (0 : ℚ) < 2 ^ (969 : Int) := zpow_pos (by norm_num) _
    generalize (2 : ℚ) ^ (969 : Int) = unit at hgreatest hunit ⊢
    have hscaled : x.high ≤ (4 * x.mantissa + 2) * unit :=
      mul_le_mul_of_nonneg_left hgreatest (by positivity)
    -- the greatest mantissa is odd, so that its interval leaves out the bound
    rcases hhigh with h | ⟨heven, h⟩
    · have hmantissa : (x.mantissa : ℚ) + 1 ≤ 2 ^ 53 := by exact_mod_cast hlt
      nlinarith
    · have hmantissa : (x.mantissa : ℚ) + 2 ≤ 2 ^ 53 := by
        exact_mod_cast (by omega : x.mantissa + 2 ≤ 2 ^ 53)
      nlinarith

/-- A rational rounds to one number only. -/
theorem Rounds.float_eq
    (hr : x.Rounds q)
    (hr' : y.Rounds q)
    (hx : x.Canonical)
    (hy : y.Canonical)
    (sign : Sign) :
    x.float hx sign = y.float hy sign := by
  have hpos : 0 < q := lt_trans (by positivity) (hr.bounds hx).1
  have hnum : 0 < q.num.toNat := by
    have := Rat.num_pos.2 hpos
    omega
  have hvalue : ((q.num.toNat : ℚ) * 2 ^ (0 : Int)) / (q.den * 2 ^ (0 : Int)) = q := by
    have hcast : (q.num.toNat : ℚ) = q.num := by
      exact_mod_cast Int.toNat_of_nonneg (Rat.num_nonneg.2 hpos.le)
    rw [hcast, zpow_zero, mul_one, mul_one, Rat.num_div_den]
  have hround := Rounding.onceRounded_div 0 0 sign .positive hnum q.den_pos
  rw [hvalue] at hround
  have hsame := (hround.eq_finite hx hr).symm.trans (hround.eq_finite hy hr')
  rw [show sign / .positive = sign by cases sign <;> rfl] at hsame
  exact congrArg (fun u => Float.ofModel (Float.Model.pack u)) hsame

end Range

end Binary

namespace Numeral

/-- The number that a numeral is written for, apart from its sign. -/
def magnitude (n : Numeral) : ℚ :=
  (digitsValue n.whole + digitsValue n.fraction / 10 ^ n.fraction.length)
    * 10 ^ n.exponent.getD 0

/-- The number of the format that a magnitude with a sign rounds to.  The bounds are half the
least number of the format, and the middle between the greatest one and the next power of two. -/
inductive Rounded (negative : Bool) (q : ℚ) : Float → Prop
  | zero (h : q ≤ 2 ^ (-1075 : Int)) : Rounded negative q (signed negative 0)
  | finite {x : Binary} (hc : x.Canonical) (hr : x.Rounds q) :
      Rounded negative q (signed negative (x.float hc .positive))
  | infinite (h : 2 ^ (1024 : Int) - 2 ^ (970 : Int) ≤ q) :
      Rounded negative q (signed negative infinity)

/-- A magnitude with a sign rounds to one number only. -/
theorem Rounded.unique
    {negative : Bool} {q : ℚ} {x y : Float}
    (h : Rounded negative q x)
    (h' : Rounded negative q y) :
    x = y := by
  have hrange : (2 : ℚ) ^ (-1075 : Int) < 2 ^ (1024 : Int) - 2 ^ (970 : Int) := by
    have hsmall : (2 : ℚ) ^ (-1075 : Int) ≤ 1 := zpow_le_one_of_nonpos₀ (by norm_num) (by norm_num)
    have hunit : (1 : ℚ) ≤ 2 ^ (970 : Int) := one_le_zpow₀ (by norm_num) (by norm_num)
    have hnext : (2 : ℚ) * (2 * 2 ^ (970 : Int)) ≤ 2 ^ (1024 : Int) := by
      rw [← zpow_one_add₀ (by norm_num), ← zpow_one_add₀ (by norm_num)]
      exact zpow_le_zpow_right₀ (by norm_num) (by norm_num)
    generalize (2 : ℚ) ^ (-1075 : Int) = least at hsmall ⊢
    generalize (2 : ℚ) ^ (970 : Int) = unit at hunit hnext ⊢
    generalize (2 : ℚ) ^ (1024 : Int) = next at hnext ⊢
    linarith
  cases h with
  | zero h =>
      cases h' with
      | zero => rfl
      | finite hc hr => exact absurd (hr.bounds hc).1 (not_lt.2 h)
      | infinite h' => exact absurd hrange (not_lt.2 (h'.trans h))
  | finite hc hr =>
      cases h' with
      | zero h' => exact absurd (hr.bounds hc).1 (not_lt.2 h')
      | finite hc' hr' => rw [hr.float_eq hr' hc hc']
      | infinite h' => exact absurd (hr.bounds hc).2 (not_lt.2 h')
  | infinite h =>
      cases h' with
      | zero h' => exact absurd hrange (not_lt.2 (h.trans h'))
      | finite hc hr => exact absurd (hr.bounds hc).2 (not_lt.2 h)
      | infinite => rfl

/-- What a decimal is converted to is what it rounds to. -/
theorem rounded_of_converted
    {negative : Bool} {q : ℚ} {u : UnpackedFloat}
    (h : Rounding.Converted q u) :
    Rounded negative q (signed negative (.ofModel (Float.Model.pack u))) := by
  cases h with
  | rounded h =>
      cases h.outcome with
      | zero hq => exact .zero hq
      | finite hc hr => exact .finite hc hr
      | infinite hq hpack => exact hpack ▸ .infinite hq
  | large h => exact .infinite ((sub_le_self _ (by positivity)).trans h)
  | small h => exact .zero h.le

/-- The digits on both sides of the point make up the decimal. -/
theorem decimal_eq_magnitude
    (n : Numeral) :
    (n.decimal.1 : ℚ) * 10 ^ n.decimal.2 = n.magnitude := by
  have hdigits : digitsValue (n.whole ++ n.fraction)
      = 10 ^ n.fraction.length * digitsValue n.whole + digitsValue n.fraction := by
    rw [digitsValue, Nat.ofDigitChars_append, Nat.ofDigitChars_eq_ofDigitChars_zero]
    rfl
  rw [decimal, magnitude, hdigits, zpow_sub₀ (by norm_num), zpow_natCast]
  push_cast
  field_simp

/-- Every numeral stands for what its value rounds to. -/
theorem rounded_nearest
    (n : Numeral) :
    Rounded n.negative n.magnitude n.nearest := by
  have hvalue := n.decimal_eq_magnitude
  simp only [decimal] at hvalue
  unfold nearest
  dsimp only
  split
  · next hzero =>
    rw [hzero, Nat.cast_zero, zero_mul] at hvalue
    exact .zero (hvalue ▸ by positivity)
  · next hdigits =>
    have hpos := Nat.pos_of_ne_zero hdigits
    rw [← hvalue]
    split
    · next hlarge =>
      exact .infinite ((sub_le_self _ (by positivity)).trans (le_of_length hpos hlarge))
    · split
      · next hsmall => exact .zero (lt_of_length hsmall).le
      · obtain ⟨u, hu, hconverted⟩ := Binary.exists_converted hpos
          (n.exponent.getD 0 - n.fraction.length)
        rw [hu]
        exact rounded_of_converted hconverted

/-- A numeral stands for the number that its value rounds to, and for no other. -/
theorem nearest_eq_iff
    {n : Numeral} {x : Float} :
    n.nearest = x ↔ Rounded n.negative n.magnitude x := by
  constructor
  · rintro rfl
    exact n.rounded_nearest
  · exact n.rounded_nearest.unique

end Numeral
end TaskTree
