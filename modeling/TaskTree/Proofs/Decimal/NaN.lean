import TaskTree.Decimal.Rounding
import TaskTree.Proofs.Decimal.Conversion

/-!
# The number that is none

One number of the 64-bit format is none.  It is the only one that does not equal
itself; among the others equality is an equivalence, and the two zeros are equal.
Neither way of reading a numeral ends in it: the digits are converted to a number,
which is multiplied with or divided by a power of ten, and that is neither zero
nor infinite.

**Results.**
* `Number.beq_iff`: two numbers are equal when they are some number and the same up to the sign of
  zero.
* `Numeral.isNaN_nearest`, `Numeral.isNaN_of_stepwise?`: a numeral stands for some number.
-/

namespace TaskTree

open Float.Model Float.Model.UnpackedFloat

namespace Number

section Equality

/-- An unpacked number, its sign dropped if it is zero. -/
def unsignedZero : UnpackedFloat → UnpackedFloat
  | .zero _ => .zero .positive
  | u => u

theorem compare_notANumber
    (u : UnpackedFloat) :
    u.compare .notANumber = none := by
  cases u with
  | infinity s => cases s <;> rfl
  | finite s m e h => cases s <;> rfl
  | _ => rfl

theorem compare_infinity_eq_iff
    {s s' : Sign} :
    UnpackedFloat.compare (.infinity s) (.infinity s') = some .eq ↔
      UnpackedFloat.infinity s = .infinity s' := by
  cases s with
  | positive =>
      cases s' with
      | positive => exact ⟨fun _ => rfl, fun _ => rfl⟩
      | negative => exact ⟨nofun, nofun⟩
  | negative =>
      cases s' with
      | positive => exact ⟨nofun, nofun⟩
      | negative => exact ⟨fun _ => rfl, fun _ => rfl⟩

theorem compare_finite_eq_iff
    {s s' : Sign} {m m' : Nat} {e e' : Int} {h : 0 < m} {h' : 0 < m'} :
    UnpackedFloat.compare (.finite s m e h) (.finite s' m' e' h') = some .eq ↔
      UnpackedFloat.finite s m e h = .finite s' m' e' h' := by
  rw [UnpackedFloat.finite.injEq]
  cases s with
  | positive =>
      cases s' with
      | positive =>
          change some ((compare e e').then (compare m m')) = some .eq ↔ _
          simp [Ordering.then_eq_eq, and_comm]
      | negative => exact ⟨nofun, nofun⟩
  | negative =>
      cases s' with
      | positive => exact ⟨nofun, nofun⟩
      | negative =>
          change some ((compare e e').then (compare m m')).swap = some .eq ↔ _
          simp [Ordering.then_eq_eq, and_comm]

/-- Numbers compare as equal when they are some number and the same up to the sign of zero. -/
theorem compare_eq_iff
    {u v : UnpackedFloat} :
    u.compare v = some .eq ↔ u.isNaN = false ∧ unsignedZero u = unsignedZero v := by
  -- numbers of different kinds are unequal on both sides, once the signs say how they compare
  cases v with
  | notANumber =>
      rw [compare_notANumber]
      cases u <;> exact ⟨nofun, nofun⟩
  | infinity s' =>
      cases u with
      | infinity s =>
          rw [compare_infinity_eq_iff]
          exact (and_iff_right rfl).symm
      | notANumber => exact ⟨nofun, nofun⟩
      | zero s => cases s' <;> exact ⟨nofun, nofun⟩
      | finite s m e h => cases s <;> cases s' <;> exact ⟨nofun, nofun⟩
  | zero s' =>
      cases u with
      | infinity s => cases s <;> exact ⟨nofun, nofun⟩
      | notANumber => exact ⟨nofun, nofun⟩
      | zero s => exact ⟨fun _ => ⟨rfl, rfl⟩, fun _ => rfl⟩
      | finite s m e h => cases s <;> exact ⟨nofun, nofun⟩
  | finite s' m' e' h' =>
      cases u with
      | infinity s => cases s <;> exact ⟨nofun, nofun⟩
      | notANumber => exact ⟨nofun, nofun⟩
      | zero s => cases s' <;> exact ⟨nofun, nofun⟩
      | finite s m e h =>
          rw [compare_finite_eq_iff]
          exact (and_iff_right rfl).symm

variable {x y z : Float}

theorem beq_iff :
    (x == y) = true ↔
      x.isNaN = false ∧ unsignedZero x.toModel.unpack = unsignedZero y.toModel.unpack := by
  have hmodel : (x == y) = (x.toModel.unpack.compare y.toModel.unpack == some .eq) := rfl
  rw [hmodel, beq_iff_eq, compare_eq_iff]
  rfl

theorem isNaN_eq_of_unsignedZero
    (h : unsignedZero x.toModel.unpack = unsignedZero y.toModel.unpack) :
    x.isNaN = y.isNaN := by
  have hunsigned : ∀ u : UnpackedFloat, (unsignedZero u).isNaN = u.isNaN := by
    intro u
    cases u <;> rfl
  have hcongr := congrArg UnpackedFloat.isNaN h
  rwa [hunsigned, hunsigned] at hcongr

theorem beq_self
    (h : x.isNaN = false) :
    (x == x) = true :=
  beq_iff.2 ⟨h, rfl⟩

theorem beq_symm
    (h : (x == y) = true) :
    (y == x) = true := by
  obtain ⟨hnumber, hsame⟩ := beq_iff.1 h
  exact beq_iff.2 ⟨isNaN_eq_of_unsignedZero hsame ▸ hnumber, hsame.symm⟩

theorem beq_trans
    (hxy : (x == y) = true)
    (hyz : (y == z) = true) :
    (x == z) = true := by
  obtain ⟨hnumber, hsame⟩ := beq_iff.1 hxy
  exact beq_iff.2 ⟨hnumber, hsame.trans (beq_iff.1 hyz).2⟩

end Equality

section Arithmetic

/-- An unpacked number that is neither zero nor infinite nor none. -/
def IsNonzero (u : UnpackedFloat) : Prop :=
  ∃ s m e h, u = .finite s m e h

variable {u v : UnpackedFloat}

/-- A choice between two numbers is some number if both are. -/
theorem isNaN_dite
    {c : Prop} [Decidable c]
    {t : c → UnpackedFloat} {f : ¬c → UnpackedFloat}
    (ht : ∀ h, (t h).isNaN = false)
    (hf : ∀ h, (f h).isNaN = false) :
    (dite c t f).isNaN = false := by
  by_cases h : c
  · rw [dif_pos h]
    exact ht h
  · rw [dif_neg h]
    exact hf h

theorem isNaN_ite
    {c : Prop} [Decidable c]
    (hu : u.isNaN = false)
    (hv : v.isNaN = false) :
    (if c then u else v).isNaN = false :=
  isNaN_dite (fun _ => hu) (fun _ => hv)

theorem isNaN_roundWithAccuracy
    (sign : Sign) (mantissa : Nat) (exponent : Int) (accuracy : Accuracy) :
    (roundWithAccuracy Format.binary64 sign mantissa exponent accuracy).isNaN = false :=
  isNaN_dite (fun _ => rfl) (fun _ => rfl)

theorem isNaN_ofNat
    (n : Nat) :
    (UnpackedFloat.ofNat Format.binary64 n).isNaN = false := by
  simp only [UnpackedFloat.ofNat, UnpackedFloat.ofInt, UnpackedFloat.normalize]
  split
  · exact isNaN_roundWithAccuracy _ _ _ _
  · rfl
  · exact isNaN_roundWithAccuracy _ _ _ _

theorem isNaN_mul
    (hu : u.isNaN = false)
    (hv : IsNonzero v) :
    (UnpackedFloat.mul Format.binary64 u v).isNaN = false := by
  rcases hv with ⟨s', m', e', h', rfl⟩
  cases u with
  | notANumber => cases hu
  | finite s m e h => exact isNaN_roundWithAccuracy _ _ _ _
  | _ => rfl

theorem isNaN_div
    (hu : u.isNaN = false)
    (hv : IsNonzero v) :
    (UnpackedFloat.div Format.binary64 u v).isNaN = false := by
  rcases hv with ⟨s', m', e', h', rfl⟩
  cases u with
  | notANumber => cases hu
  | finite s m e h => exact isNaN_roundWithAccuracy _ _ _ _
  | _ => rfl

theorem isNaN_ofScientific
    (digits : Nat) (exponent : Int) :
    (UnpackedFloat.ofScientific Format.binary64 digits exponent).isNaN = false := by
  refine isNaN_dite (fun _ => rfl) fun _ => isNaN_ite rfl (isNaN_ite rfl (isNaN_ite ?_ ?_))
  · exact isNaN_mul rfl ⟨_, _, _, _, rfl⟩
  · exact isNaN_div rfl ⟨_, _, _, _, rfl⟩

/-- Bits whose exponent is not the greatest are those of some number. -/
theorem isNaN_unpack_packComponents
    {sign : Sign} {exponent : BitVec 11} {mantissa : BitVec 52}
    (h : exponent ≠ -1#11) :
    (UnpackedFloat.unpack Format.binary64
      (packComponents Format.binary64 sign exponent mantissa)).isNaN = false := by
  unfold UnpackedFloat.unpack
  rw [unpackExponent_packComponents, if_neg h]
  exact isNaN_ite (isNaN_dite (fun _ => rfl) fun _ => rfl) rfl

/-- Packing does not lose a number. -/
theorem isNaN_pack
    (hu : u.isNaN = false) :
    (Float.ofModel (Float.Model.pack u)).isNaN = false := by
  change (UnpackedFloat.unpack Format.binary64 (UnpackedFloat.pack Format.binary64 u)).isNaN = _
  fun_cases UnpackedFloat.pack Format.binary64 u with
  | case1 => cases hu
  | case2 s => cases s <;> rfl
  | case3 s => cases s <;> rfl
  | case4 s m e h biased hlarge => cases s <;> rfl
  | case5 s m e h _ biased hsmall _ =>
      have hlt : biased + 1 < 2 ^ 11 := Nat.lt_of_not_le hsmall
      have hne : BitVec.ofNat 11 biased ≠ -1#11 :=
        Bits.ofNat_ne_ofNat (m := biased) (n := 2047) (by omega) (by decide) (by omega)
      exact isNaN_unpack_packComponents hne
  | case6 s m e h _ biased hsmall _ => exact isNaN_unpack_packComponents (by decide)

variable {x y : Float}

theorem isNaN_float_mul
    (hx : x.isNaN = false)
    (hy : IsNonzero y.toModel.unpack) :
    (x * y).isNaN = false :=
  isNaN_pack (isNaN_mul hx hy)

theorem isNaN_float_div
    (hx : x.isNaN = false)
    (hy : IsNonzero y.toModel.unpack) :
    (x / y).isNaN = false :=
  isNaN_pack (isNaN_div hx hy)

theorem isNaN_neg
    (hx : x.isNaN = false) :
    (-x).isNaN = false := by
  refine isNaN_pack ?_
  change x.toModel.unpack.isNaN = false at hx
  cases hunpack : x.toModel.unpack with
  | notANumber =>
      rw [hunpack] at hx
      cases hx
  | _ => rfl

theorem isNaN_toFloat
    (n : UInt64) :
    n.toFloat.isNaN = false :=
  isNaN_pack (isNaN_ofNat _)

theorem isNaN_float_ofScientific
    (digits : Nat) (negative : Bool) (exponent : Nat) :
    (Float.ofScientific digits negative exponent).isNaN = false := by
  unfold Float.ofScientific
  split
  · next hshort =>
    obtain ⟨m, k, hpos, hunpack, -⟩ := Binary.exists_of_isNatural
      (Binary.isNatural_powerOfTen exponent (Nat.lt_succ_of_le hshort.2))
    have hpower : IsNonzero _ := ⟨_, _, _, _, hunpack⟩
    dsimp only
    split
    · exact isNaN_float_div (isNaN_toFloat _) hpower
    · exact isNaN_float_mul (isNaN_toFloat _) hpower
  · exact isNaN_pack (isNaN_ofScientific _ _)

end Arithmetic

section Powers

/-- The power of ten, cut to the bits of a mantissa; of the two numbers next to it the greater,
if it does not fit. -/
def powerOfTen (n : Nat) : Binary :=
  let size := (10 ^ n).log2
  let mantissa :=
    if size < 53 then 10 ^ n <<< (52 - size)
    else (10 ^ n + 2 ^ (size - 53) - 1) >>> (size - 52)
  { mantissa, scale := size - 52, narrowBelow := mantissa = 2 ^ 52 }

/-- The powers of ten that a numeral is scaled with are in the range of the format. -/
theorem contains_powerOfTen :
    ∀ n, n ≤ 308 →
      (powerOfTen n).contains 1 n = true ∧ 2 ^ 52 ≤ (powerOfTen n).mantissa ∧
        (powerOfTen n).mantissa < 2 ^ 53 ∧ (powerOfTen n).scale ≤ 971 := by
  decide +kernel

theorem canonical_powerOfTen
    {n : Nat}
    (hn : n ≤ 308) :
    (powerOfTen n).Canonical := by
  obtain ⟨-, hlow, hhigh, hscale⟩ := contains_powerOfTen n hn
  refine ⟨lt_of_lt_of_le (by positivity) hlow, hhigh, ?_, hscale, .inl hlow, ?_⟩
  · simp only [powerOfTen]
    omega
  · simp only [powerOfTen, decide_eq_true_eq]
    omega

theorem isNonzero_powerOfTen
    {n : Nat}
    (hn : n ≤ 308) :
    IsNonzero (Numeral.powerOfTen n).toModel.unpack := by
  have hc := canonical_powerOfTen hn
  have hrounds := (Binary.contains_iff hc.pos).1 (contains_powerOfTen n hn).1
  have hfloat : Numeral.powerOfTen n = (powerOfTen n).float hc .positive := by
    have hdecimal := Binary.ofScientific_eq_float hc hrounds Nat.one_pos
    rwa [decide_eq_false (Int.not_lt.2 (Int.natCast_nonneg n)), Int.natAbs_natCast] at hdecimal
  rw [hfloat, Binary.unpack_float]
  exact ⟨_, _, _, _, rfl⟩

end Powers

end Number

namespace Numeral

theorem isNaN_signed
    {x : Float}
    (negative : Bool)
    (hx : x.isNaN = false) :
    (signed negative x).isNaN = false := by
  cases negative with
  | true => exact Number.isNaN_neg hx
  | false => exact hx

/-- The number nearest to a numeral is some number. -/
theorem isNaN_nearest
    (n : Numeral) :
    n.nearest.isNaN = false := by
  refine isNaN_signed n.negative ?_
  split
  · decide
  · split
    · decide
    · split
      · decide
      · exact Number.isNaN_float_ofScientific _ _ _

theorem isNaN_of_rescale?
    {x y : Float} {exponent : Int}
    (hx : x.isNaN = false)
    (h : rescale? x exponent = some y) :
    y.isNaN = false := by
  fun_induction rescale? x exponent with
  | case1 x exponent hsmall hsign product hinfinite => cases h
  | case2 x exponent hsmall hsign product hfinite =>
      rw [← Option.some.inj h]
      exact Number.isNaN_float_mul hx (Number.isNonzero_powerOfTen hsmall)
  | case3 x exponent hsmall hsign =>
      cases h
      exact Number.isNaN_float_div hx (Number.isNonzero_powerOfTen hsmall)
  | case4 x exponent hlarge hzero =>
      cases h
      exact hx
  | case5 x exponent hlarge hzero hsign => cases h
  | case6 x exponent hlarge hzero hsign ih =>
      exact ih (Number.isNaN_float_div hx (Number.isNonzero_powerOfTen (Nat.le_refl _))) h

/-- A numeral that is read digit by digit stands for some number. -/
theorem isNaN_of_stepwise?
    {n : Numeral} {x : Float}
    (h : n.stepwise? = some x) :
    x.isNaN = false := by
  obtain ⟨y, hscaled, rfl⟩ := Option.map_eq_some_iff.1 h
  exact isNaN_signed n.negative (isNaN_of_rescale? (Number.isNaN_toFloat _) hscaled)

end Numeral

end TaskTree
