import TaskTree.Proofs.Decimal.Rounding

/-!
# The bits of a floating-point number

The 64 bits of a number are its sign, an exponent of eleven bits and a fraction
of 52 bits.  A number that is not none is determined by what its bits are
unpacked to, and the numbers of the format keep their mantissa and scale when
they are packed.

**Results.**
* `Bits.pack_unpack`: packing what was unpacked gives the bits again.
* `Bits.unpack_pack`: a number of the format is unpacked as it was packed.
* `Bits.unpack_eq`: what bits are unpacked to, by the mantissa and scale of `Binary.ofBits`.
-/

namespace TaskTree
namespace Bits

open Float.Model Float.Model.UnpackedFloat

section Fields

variable (b : BitVec Format.binary64.numBits)

theorem toNat_unpackMantissa :
    (unpackMantissa b).toNat = b.toNat % 2 ^ 52 := by
  simp [unpackMantissa]

theorem toNat_unpackExponent :
    (unpackExponent b).toNat = b.toNat / 2 ^ 52 % 2 ^ 11 := by
  simp [unpackExponent, Nat.shiftRight_eq_div_pow]

theorem toNat_unpackSign :
    (unpackSign b).toNat = b.toNat / 2 ^ 63 := by
  have hlt : b.toNat < 2 ^ 64 := b.isLt
  unfold unpackSign
  simp [Nat.shiftRight_eq_div_pow]
  omega

theorem toNat_packComponents
    (sign : Sign)
    (exponent : BitVec Format.binary64.exponentBits)
    (mantissa : BitVec Format.binary64.mantissaBitsWithoutImplicit) :
    (packComponents Format.binary64 sign exponent mantissa).toNat
      = sign.toBitVec.toNat * 2 ^ 63 + exponent.toNat * 2 ^ 52 + mantissa.toNat := by
  have hexponent : exponent.toNat < 2 ^ 11 := exponent.isLt
  have hmantissa : mantissa.toNat < 2 ^ 52 := mantissa.isLt
  rw [packComponents, BitVec.toNat_append, BitVec.toNat_append,
    ← Nat.shiftLeft_add_eq_or_of_lt hexponent, ← Nat.shiftLeft_add_eq_or_of_lt hmantissa,
    Nat.shiftLeft_eq, Nat.shiftLeft_eq]
  omega

end Fields

/-- The exponent and the fraction of some bits. -/
def exponentField (bits : UInt64) : Nat :=
  bits.toNat / 2 ^ 52 % 2 ^ 11

def fractionField (bits : UInt64) : Nat :=
  bits.toNat % 2 ^ 52

theorem exponentField_lt
    (bits : UInt64) :
    exponentField bits < 2 ^ 11 :=
  Nat.mod_lt _ (by decide)

theorem fractionField_lt
    (bits : UInt64) :
    fractionField bits < 2 ^ 52 :=
  Nat.mod_lt _ (by decide)

section OfBits

variable (bits : UInt64)

theorem ofBits_eq :
    Binary.ofBits bits =
      if exponentField bits = 0 then
        { mantissa := fractionField bits, scale := -1074, narrowBelow := false }
      else
        { mantissa := 2 ^ 52 + fractionField bits
          scale := (exponentField bits : Int) - 1075
          narrowBelow := fractionField bits = 0 && 1 < exponentField bits } := by
  have hexponent : ((bits >>> 52) &&& 0x7FF).toNat = exponentField bits := by
    rw [UInt64.toNat_and, UInt64.toNat_shiftRight, exponentField, ← Nat.and_two_pow_sub_one_eq_mod,
      Nat.shiftRight_eq_div_pow]
    rfl
  have hfraction : (bits &&& 0xFFFFFFFFFFFFF).toNat = fractionField bits := by
    rw [UInt64.toNat_and, fractionField, ← Nat.and_two_pow_sub_one_eq_mod]
    rfl
  simp only [Binary.ofBits, hexponent, hfraction]
  rfl

/-- A finite number other than zero is one of the format. -/
theorem canonical_ofBits
    (hfinite : exponentField bits ≠ 2047)
    (hpos : 0 < (Binary.ofBits bits).mantissa) :
    (Binary.ofBits bits).Canonical := by
  have hexponent := exponentField_lt bits
  have hfraction := fractionField_lt bits
  rw [ofBits_eq] at hpos ⊢
  split at hpos
  · next hzero =>
    rw [if_pos hzero]
    exact ⟨hpos, by dsimp only; omega, le_rfl, by norm_num, .inr rfl, by simp⟩
  · next hnonzero =>
    rw [if_neg hnonzero]
    refine ⟨hpos, by dsimp only; omega, by dsimp only; omega, by dsimp only; omega,
      .inl (Nat.le_add_right _ _), ?_⟩
    simp only [Bool.and_eq_true, decide_eq_true_eq]
    omega

end OfBits

section Unpack

variable (bits : UInt64)

/-- The sign that the first bit stands for. -/
def signOf : Sign :=
  Sign.ofBitVec (@unpackSign Format.binary64 bits.toBitVec)

theorem unpackExponent_eq_iff
    (n : Nat)
    (hn : n < 2 ^ 11) :
    @unpackExponent Format.binary64 bits.toBitVec = BitVec.ofNat 11 n
      ↔ exponentField bits = n := by
  rw [← BitVec.toNat_inj, toNat_unpackExponent, BitVec.toNat_ofNat, Nat.mod_eq_of_lt hn]
  rfl

theorem unpackExponent_eq_max_iff :
    @unpackExponent Format.binary64 bits.toBitVec = -1#11 ↔ exponentField bits = 2047 :=
  unpackExponent_eq_iff bits 2047 (by decide)

theorem unpackMantissa_eq_zero_iff :
    @unpackMantissa Format.binary64 bits.toBitVec = 0#52 ↔ fractionField bits = 0 := by
  rw [← BitVec.toNat_inj, toNat_unpackMantissa]
  rfl

theorem toNat_one_append
    (fraction : BitVec 52) :
    (1#1 ++ fraction).toNat = 2 ^ 52 + fraction.toNat := by
  rw [BitVec.toNat_append, ← Nat.shiftLeft_add_eq_or_of_lt fraction.isLt]
  rfl

/-- The bits of a finite number are unpacked to its sign, mantissa and scale. -/
theorem unpack_eq
    (hfinite : exponentField bits ≠ 2047) :
    unpack Format.binary64 bits.toBitVec =
      if h : (Binary.ofBits bits).mantissa = 0 then .zero (signOf bits)
      else .finite (signOf bits) (Binary.ofBits bits).mantissa (Binary.ofBits bits).scale
        (Nat.pos_of_ne_zero h) := by
  have hmax : @unpackExponent Format.binary64 bits.toBitVec ≠ -1#11 :=
    fun h => hfinite ((unpackExponent_eq_max_iff bits).1 h)
  have hzero := unpackExponent_eq_iff bits 0 (by decide)
  have hfraction := unpackMantissa_eq_zero_iff bits
  have hexponent := toNat_unpackExponent bits.toBitVec
  have hmantissa := toNat_unpackMantissa bits.toBitVec
  unfold UnpackedFloat.unpack
  dsimp only
  rw [if_neg hmax]
  by_cases hsub : @unpackExponent Format.binary64 bits.toBitVec = 0#11
  · rw [if_pos hsub]
    have hfield := hzero.1 hsub
    have hx := ofBits_eq bits
    rw [if_pos hfield] at hx
    by_cases hm : @unpackMantissa Format.binary64 bits.toBitVec = 0#52
    · rw [dif_pos hm, dif_pos (by rw [hx]; exact hfraction.1 hm)]
      rfl
    · rw [dif_neg hm, dif_neg (by rw [hx]; exact fun h => hm (hfraction.2 h))]
      refine Rounding.finite_congr ?_ ?_
      · rw [hx]
        exact hmantissa
      · rw [hx, hsub]
        rfl
  · rw [if_neg hsub]
    have hfield : exponentField bits ≠ 0 := fun h => hsub (hzero.2 h)
    have hx := ofBits_eq bits
    rw [if_neg hfield] at hx
    rw [dif_neg (by rw [hx]; dsimp only; omega)]
    refine Rounding.finite_congr ?_ ?_
    · rw [hx, toNat_one_append]
      exact congrArg _ hmantissa
    · rw [hx, hexponent]
      rfl

end Unpack

section Sign

theorem ofBitVec_toBitVec
    (sign : Sign) :
    Sign.ofBitVec sign.toBitVec = sign := by
  cases sign <;> rfl

theorem toBitVec_ofBitVec
    (b : BitVec 1) :
    (Sign.ofBitVec b).toBitVec = b := by
  rcases BitVec.eq_zero_or_eq_one b with rfl | rfl <;> rfl

/-- The sign is negative when the first bit is set. -/
theorem signOf_eq
    (bits : UInt64) :
    signOf bits = if bits >>> 63 = 1 then .negative else .positive := by
  have hbit : bits >>> 63 = 1 ↔ bits.toNat / 2 ^ 63 = 1 := by
    rw [← UInt64.toNat_inj, UInt64.toNat_shiftRight, ← Nat.shiftRight_eq_div_pow]
    rfl
  have hzero : @unpackSign Format.binary64 bits.toBitVec = 0#1 ↔ bits.toNat / 2 ^ 63 = 0 := by
    rw [← BitVec.toNat_inj, toNat_unpackSign]
    rfl
  have hlt : bits.toNat < 2 ^ 64 := bits.toNat_lt
  unfold signOf Sign.ofBitVec
  split
  · next h => rw [if_neg (by rw [hbit]; have := hzero.1 h; omega)]
  · next h =>
    rw [if_pos (hbit.2 ?_)]
    have := mt hzero.2 h
    omega

end Sign

section Pack

/-- The fields of some bits make up the bits. -/
theorem packComponents_unpack
    (b : BitVec Format.binary64.numBits) :
    packComponents Format.binary64 (Sign.ofBitVec (unpackSign b)) (unpackExponent b)
      (unpackMantissa b) = b := by
  have hlt : b.toNat < 2 ^ 64 := b.isLt
  rw [← BitVec.toNat_inj, toNat_packComponents, toBitVec_ofBitVec, toNat_unpackSign,
    toNat_unpackExponent, toNat_unpackMantissa]
  omega

/-- So do an exponent and a fraction that are those of the bits, as numbers. -/
theorem packComponents_of_fields
    (bits : UInt64)
    (exponent : BitVec 11)
    (fraction : BitVec 52)
    (hexponent : exponent.toNat = exponentField bits)
    (hfraction : fraction.toNat = fractionField bits) :
    packComponents Format.binary64 (signOf bits) exponent fraction = bits.toBitVec := by
  obtain rfl : exponent = @unpackExponent Format.binary64 bits.toBitVec :=
    BitVec.toNat_inj.1 (hexponent.trans (toNat_unpackExponent bits.toBitVec).symm)
  obtain rfl : fraction = @unpackMantissa Format.binary64 bits.toBitVec :=
    BitVec.toNat_inj.1 (hfraction.trans (toNat_unpackMantissa bits.toBitVec).symm)
  exact packComponents_unpack bits.toBitVec

theorem unpackSign_packComponents
    (sign : Sign)
    (exponent : BitVec Format.binary64.exponentBits)
    (mantissa : BitVec Format.binary64.mantissaBitsWithoutImplicit) :
    unpackSign (packComponents Format.binary64 sign exponent mantissa) = sign.toBitVec := by
  have hexponent : exponent.toNat < 2 ^ 11 := exponent.isLt
  have hmantissa : mantissa.toNat < 2 ^ 52 := mantissa.isLt
  rw [← BitVec.toNat_inj, toNat_unpackSign, toNat_packComponents]
  omega

theorem ofNat_ne_ofNat
    {width m n : Nat}
    (hm : m < 2 ^ width)
    (hn : n < 2 ^ width)
    (hne : m ≠ n) :
    BitVec.ofNat width m ≠ BitVec.ofNat width n := by
  intro h
  have hvalue := congrArg BitVec.toNat h
  rw [BitVec.toNat_ofNat, BitVec.toNat_ofNat, Nat.mod_eq_of_lt hm, Nat.mod_eq_of_lt hn] at hvalue
  exact hne hvalue

variable {x : Binary}

/-- The exponent field and the fraction that a number of the format is packed into. -/
theorem pack_eq
    (hc : x.Canonical)
    (sign : Sign) :
    UnpackedFloat.pack Format.binary64 (.finite sign x.mantissa x.scale hc.pos)
      = packComponents Format.binary64 sign
          (if 2 ^ 52 ≤ x.mantissa then BitVec.ofNat _ (x.scale + 1075).toNat else 0#_)
          (BitVec.ofNat _ x.mantissa) := by
  have hge := hc.scale_ge
  have hle := hc.scale_le
  have hbiased : (x.scale + Format.binary64.exponentBias
      + Format.binary64.mantissaBitsWithoutImplicit).toNat = (x.scale + 1075).toNat := by
    change (x.scale + (1023 : Nat) + (52 : Nat)).toNat = _
    omega
  have hbits : x.mantissa.log2 + 1 = Format.binary64.mantissaBits ↔ 2 ^ 52 ≤ x.mantissa := by
    change x.mantissa.log2 + 1 = 53 ↔ _
    have hlt : x.mantissa.log2 < 53 := (Nat.log2_lt hc.pos.ne').2 hc.mantissa_lt
    rw [← Nat.le_log2 hc.pos.ne']
    omega
  unfold UnpackedFloat.pack
  simp only [hbiased, hbits]
  rw [if_neg (by omega)]
  split <;> rfl

/-- A number of the format is unpacked as it was packed. -/
theorem unpack_pack
    (hc : x.Canonical)
    (sign : Sign) :
    UnpackedFloat.unpack Format.binary64
        (UnpackedFloat.pack Format.binary64 (.finite sign x.mantissa x.scale hc.pos))
      = .finite sign x.mantissa x.scale hc.pos := by
  have hge := hc.scale_ge
  have hle := hc.scale_le
  have hpos := hc.pos
  have hlt := hc.mantissa_lt
  rw [pack_eq hc]
  by_cases hnormal : 2 ^ 52 ≤ x.mantissa
  · rw [if_pos hnormal]
    have hexponent : (BitVec.ofNat 11 (x.scale + 1075).toNat).toNat = (x.scale + 1075).toNat := by
      rw [BitVec.toNat_ofNat]
      omega
    have hmax : BitVec.ofNat 11 (x.scale + 1075).toNat ≠ -1#11 :=
      @ofNat_ne_ofNat 11 _ 2047 (by omega) (by norm_num) (by omega)
    have hzero : BitVec.ofNat 11 (x.scale + 1075).toNat ≠ 0#11 :=
      ofNat_ne_ofNat (by omega) (by norm_num) (by omega)
    unfold UnpackedFloat.unpack
    dsimp only
    rw [unpackSign_packComponents, ofBitVec_toBitVec, unpackExponent_packComponents,
      if_neg hmax, if_neg hzero]
    refine Rounding.finite_congr ?_ ?_
    · rw [toNat_one_append, unpackMantissa_packComponents, BitVec.toNat_ofNat]
      omega
    · change (((BitVec.ofNat 11 (x.scale + 1075).toNat).toNat : Int)
        - ((1023 : Nat) + (52 : Nat))) = x.scale
      rw [hexponent]
      omega
  · rw [if_neg hnormal]
    have hmantissa : (BitVec.ofNat 52 x.mantissa).toNat = x.mantissa := by
      rw [BitVec.toNat_ofNat]
      omega
    have hnonzero : unpackMantissa (packComponents Format.binary64 sign 0#11
        (BitVec.ofNat 52 x.mantissa)) ≠ 0#52 := by
      rw [unpackMantissa_packComponents]
      exact ofNat_ne_ofNat (by omega) (by norm_num) hpos.ne'
    unfold UnpackedFloat.unpack
    dsimp only
    rw [unpackSign_packComponents, ofBitVec_toBitVec, unpackExponent_packComponents,
      if_neg (by decide), if_pos rfl, dif_neg hnonzero]
    refine Rounding.finite_congr ?_ ?_
    · rw [unpackMantissa_packComponents, hmantissa]
    · rw [hc.normal.resolve_left hnormal]
      rfl

/-- The bits of a finite number are packed again from what they are unpacked to. -/
theorem pack_unpack
    {bits : UInt64}
    (hfinite : exponentField bits ≠ 2047) :
    UnpackedFloat.pack Format.binary64 (UnpackedFloat.unpack Format.binary64 bits.toBitVec)
      = bits.toBitVec := by
  have hfraction := fractionField_lt bits
  have hfield := exponentField_lt bits
  have hx := ofBits_eq bits
  rw [unpack_eq bits hfinite]
  by_cases hzero : (Binary.ofBits bits).mantissa = 0
  · rw [dif_pos hzero]
    have hfields : exponentField bits = 0 ∧ fractionField bits = 0 := by
      rw [hx] at hzero
      split at hzero
      · next he => exact ⟨he, hzero⟩
      · dsimp only at hzero
        omega
    exact packComponents_of_fields bits 0#11 0#52 hfields.1.symm hfields.2.symm
  · rw [dif_neg hzero]
    have hpos := Nat.pos_of_ne_zero hzero
    rw [pack_eq (canonical_ofBits bits hfinite hpos)]
    refine packComponents_of_fields bits _ _ ?_ ?_
    · rw [hx]
      split
      · next he =>
        rw [if_neg (by dsimp only; omega)]
        exact he.symm
      · rw [if_pos (Nat.le_add_right _ _), BitVec.toNat_ofNat]
        dsimp only
        omega
    · rw [hx, BitVec.toNat_ofNat]
      split
      · dsimp only
        omega
      · dsimp only
        omega

end Pack

end Bits
end TaskTree
