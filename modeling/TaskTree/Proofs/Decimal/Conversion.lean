import TaskTree.Proofs.Decimal.Bits

/-!
# Decimals converted to floating-point numbers

The conversion of a decimal takes a short way for few digits and small powers of
ten, where both are numbers of the format and one operation rounds their product
or quotient.  On either way the result is the number whose interval holds the
decimal.

**Results.**
* `Binary.float_eq`: a finite number is made of its sign, mantissa and scale.
* `Binary.ofScientific_eq_float`: a decimal is converted to the number it rounds to.
-/

namespace TaskTree

open Float.Model Float.Model.UnpackedFloat

namespace Binary

/-- The number of the format with the given sign and magnitude. -/
def float (x : Binary) (hc : x.Canonical) (sign : Sign) : Float :=
  .ofModel (Float.Model.pack (.finite sign x.mantissa x.scale hc.pos))

/-- The zero with the given sign. -/
def zero (sign : Sign) : Float :=
  .ofModel (Float.Model.pack (.zero sign))

section Floats

variable {x : Binary} (hc : x.Canonical)

@[simp] theorem unpack_float
    (sign : Sign) :
    (x.float hc sign).toModel.unpack = .finite sign x.mantissa x.scale hc.pos :=
  Bits.unpack_pack hc sign

theorem neg_float
    (sign : Sign) :
    -(x.float hc sign) = x.float hc (-sign) := by
  change Float.ofModel (Float.Model.pack (x.float hc sign).toModel.unpack.neg) = _
  rw [unpack_float]
  rfl

end Floats

theorem exponentField_of_isFinite
    {x : Float}
    (h : x.isFinite = true) :
    Bits.exponentField x.toBits ≠ 2047 := by
  intro hmax
  have hfield := (Bits.unpackExponent_eq_max_iff x.toBits).2 hmax
  change (UnpackedFloat.unpack Format.binary64 x.toBits.toBitVec).isFinite = true at h
  unfold UnpackedFloat.unpack at h
  rw [if_pos hfield] at h
  split at h <;> cases h

/-- A finite number is packed from what it is unpacked to. -/
theorem pack_unpack
    {x : Float}
    (h : x.isFinite = true) :
    Float.ofModel (Float.Model.pack (UnpackedFloat.unpack Format.binary64 x.toBits.toBitVec))
      = x := by
  have hpack := Bits.pack_unpack (exponentField_of_isFinite h)
  obtain ⟨⟨bits, valid⟩⟩ := x
  refine congrArg Float.ofModel ?_
  rw [Float.Model.pack, Float.Model.mk.injEq]
  exact congrArg UInt64.ofBitVec hpack

theorem canonical_of_isFinite
    {x : Float}
    (h : x.isFinite = true)
    (hpos : 0 < (Binary.ofBits x.toBits).mantissa) :
    (Binary.ofBits x.toBits).Canonical :=
  Bits.canonical_ofBits x.toBits (exponentField_of_isFinite h) hpos

/-- A finite number is made of its sign, mantissa and scale. -/
theorem float_eq
    {x : Float}
    (h : x.isFinite = true)
    (hpos : 0 < (Binary.ofBits x.toBits).mantissa) :
    (Binary.ofBits x.toBits).float (canonical_of_isFinite h hpos) (Bits.signOf x.toBits) = x := by
  conv_rhs => rw [← pack_unpack h, Bits.unpack_eq _ (exponentField_of_isFinite h)]
  rw [dif_neg hpos.ne']
  rfl

/-- A zero is made of its sign. -/
theorem zero_eq
    {x : Float}
    (h : x.isFinite = true)
    (hzero : (Binary.ofBits x.toBits).mantissa = 0) :
    zero (Bits.signOf x.toBits) = x := by
  conv_rhs => rw [← pack_unpack h, Bits.unpack_eq _ (exponentField_of_isFinite h)]
  rw [dif_pos hzero]
  rfl

section Short

/-- A natural number of at most 53 bits as a number of the format. -/
def ofNat (n : Nat) : Binary where
  mantissa := n <<< (52 - n.log2)
  scale := (n.log2 : Int) - 52
  narrowBelow := n <<< (52 - n.log2) = 2 ^ 52

variable {n : Nat}

theorem canonical_ofNat
    (hpos : 0 < n)
    (hlt : n < 2 ^ 53) :
    (ofNat n).Canonical := by
  have hlog : n.log2 < 53 := (Nat.log2_lt hpos.ne').2 hlt
  have hself : 2 ^ n.log2 ≤ n := Nat.log2_self_le hpos.ne'
  have hnext : n < 2 ^ (n.log2 + 1) := Nat.lt_log2_self
  have hlow : 2 ^ 52 ≤ n <<< (52 - n.log2) := by
    calc 2 ^ 52 = 2 ^ n.log2 * 2 ^ (52 - n.log2) := by
          rw [← Nat.pow_add]
          exact congrArg _ (by omega)
      _ ≤ n * 2 ^ (52 - n.log2) := Nat.mul_le_mul_right _ hself
      _ = n <<< (52 - n.log2) := (Nat.shiftLeft_eq ..).symm
  have hhigh : n <<< (52 - n.log2) < 2 ^ 53 := by
    calc n <<< (52 - n.log2) = n * 2 ^ (52 - n.log2) := Nat.shiftLeft_eq ..
      _ < 2 ^ (n.log2 + 1) * 2 ^ (52 - n.log2) :=
          Nat.mul_lt_mul_of_pos_right hnext (by positivity)
      _ = 2 ^ 53 := by
          rw [← Nat.pow_add]
          exact congrArg _ (by omega)
  refine ⟨lt_of_lt_of_le (by positivity) hlow, hhigh, ?_, ?_, .inl hlow, ?_⟩
  all_goals simp only [ofNat, decide_eq_true_eq]
  · omega
  · omega
  · omega

theorem toRat_ofNat
    (hpos : 0 < n)
    (hlt : n < 2 ^ 53) :
    (ofNat n).toRat = n := by
  have hlog : n.log2 < 53 := (Nat.log2_lt hpos.ne').2 hlt
  have hpow : (2 : ℚ) ^ (52 - n.log2) * 2 ^ ((n.log2 : Int) - 52) = 1 := by
    rw [← zpow_natCast, ← zpow_add₀ (by norm_num), Nat.cast_sub (by omega)]
    norm_num
  rw [toRat, ofNat, Nat.shiftLeft_eq]
  push_cast
  rw [mul_assoc, hpow, mul_one]

/-- A natural number of at most 53 bits is converted exactly. -/
theorem toFloat_eq
    (hpos : 0 < n)
    (hlt : n < 2 ^ 53) :
    n.toUInt64.toFloat = (ofNat n).float (canonical_ofNat hpos hlt) .positive := by
  have hc := canonical_ofNat hpos hlt
  have hr := rounds_toRat (ofNat n)
  rw [toRat_ofNat hpos hlt] at hr
  have hround := (Rounding.onceRounded_round 0 .positive hpos).eq_finite hc (by simpa using hr)
  have hn : n.toUInt64.toNat = n := UInt64.toNat_ofNat_of_lt' (hlt.trans (by decide))
  have hcompare : compare (n : Int) 0 = .gt := by
    rw [Int.compare_eq_gt]
    omega
  refine congrArg (fun u => Float.ofModel (Float.Model.pack u)) ?_
  change UnpackedFloat.normalize Format.binary64 (n.toUInt64.toNat : Int) 0 .positive = _
  rw [hn, UnpackedFloat.normalize, hcompare]
  exact hround

/-- Whether what was unpacked is the given natural number. -/
def isNatural (n : Nat) : UnpackedFloat → Bool
  | .finite sign mantissa scale _ =>
    match sign with
    | .positive => mantissa * 2 ^ scale.toNat == n * 2 ^ (-scale).toNat
    | .negative => false
  | _ => false

theorem exists_of_isNatural
    {u : UnpackedFloat}
    (h : isNatural n u = true) :
    ∃ mantissa scale hpos, u = .finite .positive mantissa scale hpos ∧
      (mantissa : ℚ) * 2 ^ scale = n := by
  cases u with
  | finite sign mantissa scale hpos =>
      cases sign with
      | positive =>
          refine ⟨mantissa, scale, hpos, rfl, ?_⟩
          have hscaled : (mantissa : ℚ) * 2 ^ scale.toNat = n * 2 ^ (-scale).toNat := by
            exact_mod_cast beq_iff_eq.1 h
          rw [pow_toNat_eq (by norm_num), ← mul_assoc] at hscaled
          exact mul_right_cancel₀ (by positivity) hscaled
      | negative => cases h
  | notANumber => cases h
  | infinity => cases h
  | zero => cases h

/-- The small powers of ten are exact. -/
theorem isNatural_powerOfTen :
    ∀ k (h : k < Float.exactlyRepresentablePowersOfTen.size),
      isNatural (10 ^ k) Float.exactlyRepresentablePowersOfTen[k].toModel.unpack = true := by
  decide +kernel

end Short

/-- A whole number is its size with its sign. -/
theorem negOfNat_natAbs
    (i : Int) :
    (if decide (i < 0) = true then Int.negOfNat i.natAbs else Int.ofNat i.natAbs) = i := by
  by_cases h : i < 0
  · rw [if_pos (decide_eq_true h), Int.negOfNat_eq]
    change -(i.natAbs : Int) = i
    omega
  · rw [if_neg (by simpa using h)]
    change (i.natAbs : Int) = i
    omega

/-- On either way a decimal is rounded once, unless it is far out of range. -/
theorem exists_converted
    {digits : Nat}
    (hdigits : 0 < digits)
    (exponent : Int) :
    ∃ u, Float.ofScientific digits (exponent < 0) exponent.natAbs
        = .ofModel (Float.Model.pack u) ∧
      Rounding.Converted (digits * 10 ^ exponent) u := by
  unfold Float.ofScientific
  split
  · next hshort =>
    rcases hshort with ⟨hlt, hsmall⟩
    obtain ⟨m, k, hpos, hunpack, hpower⟩ :=
      exists_of_isNatural (isNatural_powerOfTen exponent.natAbs (Nat.lt_succ_of_le hsmall))
    have hwhole : ((ofNat digits).mantissa : ℚ) * 2 ^ (ofNat digits).scale = digits :=
      toRat_ofNat hdigits hlt
    have hshort := canonical_ofNat hdigits hlt
    have hwide : 2 ^ 52 ≤ (ofNat digits).mantissa := hshort.normal.resolve_right (by
      simp only [ofNat]
      omega)
    dsimp only
    rw [toFloat_eq hdigits hlt]
    split
    · next h =>
      rw [decide_eq_true_eq] at h
      have hquotient : (digits : ℚ) * 10 ^ exponent
          = ((ofNat digits).mantissa * 2 ^ (ofNat digits).scale) / (m * 2 ^ k) := by
        rw [hwhole, hpower, div_eq_mul_inv]
        push_cast
        rw [← zpow_natCast, ← zpow_neg]
        exact congrArg _ (congrArg _ (by omega))
      have hdiv :=
        Rounding.onceRounded_div (ofNat digits).scale k .positive .positive hshort.pos hpos
      rw [← hunpack, ← unpack_float hshort, ← hquotient] at hdiv
      exact ⟨_, rfl, .rounded hdiv⟩
    · next h =>
      rw [decide_eq_true_eq] at h
      have hproduct : (digits : ℚ) * 10 ^ exponent
          = ((ofNat digits).mantissa * 2 ^ (ofNat digits).scale) * (m * 2 ^ k) := by
        rw [hwhole, hpower]
        push_cast
        rw [← zpow_natCast]
        exact congrArg _ (congrArg _ (by omega))
      have hmul :=
        Rounding.onceRounded_mul (ofNat digits).scale k .positive .positive hshort.pos hpos hwide
      rw [← hunpack, ← unpack_float hshort, ← hproduct] at hmul
      exact ⟨_, rfl, .rounded hmul⟩
  · simp only [negOfNat_natAbs]
    exact ⟨_, rfl, Rounding.converted_ofScientific hdigits exponent⟩

/-- A decimal is converted to the number that it rounds to. -/
theorem ofScientific_eq_float
    {x : Binary}
    (hc : x.Canonical)
    {digits : Nat} {exponent : Int}
    (hr : x.Rounds (digits * 10 ^ exponent))
    (hdigits : 0 < digits) :
    Float.ofScientific digits (exponent < 0) exponent.natAbs = x.float hc .positive := by
  obtain ⟨u, hu, hconverted⟩ := exists_converted hdigits exponent
  rw [hu, hconverted.eq_finite hc hr]
  rfl

end Binary

end TaskTree
