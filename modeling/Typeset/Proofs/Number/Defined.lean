import Typeset.Number.Numeral
import Typeset.Proofs.Number.Arithmetic

/-!
# Floats that are numbers or infinite

Which operations give an undefined float, and what numerals give.

* `IsDefined`: the float is a number or infinite.
* `isDefined_div`, `isDefined_mul`, `isDefined_neg`: operations of which the second operand is a
  number that is not zero.
* `IsDefined.of_mul`, `IsDefined.of_add`, `IsDefined.of_div`: no operation on an undefined float
  gives a defined one.
* `IsDefined.zero_le`, `not_lt_of_not_isDefined`: comparisons.
* `isDefined_ofScientific`: the float nearest to a decimal.
* `Numeral.isDefined_toFloat_iff`: the undefined numeral is the only one that gives an undefined
  float.
-/

namespace Typeset

open Float.Model (UnpackedFloat Format)
open Float.Model.UnpackedFloat

/-- The float is a number or infinite. -/
def IsDefined (x : Float) : Prop := x.toModel.unpack ≠ .notANumber

variable {x y : Float}

/-! ## Operations -/

/-- What has no more than the last exponent of numbers is a number. -/
theorem unpack_packComponents_ne {e : BitVec 11} (he : e.toNat ≠ 2047) (s : Sign)
    (m : BitVec 52) :
    UnpackedFloat.unpack Format.binary64 (packComponents Format.binary64 s e m) ≠
      .notANumber := by
  have h := unpacks_packComponents s e m
  generalize UnpackedFloat.unpack Format.binary64 _ = u at h ⊢
  cases h with
  | notANumber he' => exact absurd he' he
  | infinity | zero | subnormal | normal => exact nofun

/-- Packing makes no float undefined. -/
theorem isDefined_packed {u : UnpackedFloat} (h : u ≠ .notANumber) : IsDefined (packed u) := by
  show UnpackedFloat.unpack Format.binary64 (UnpackedFloat.pack Format.binary64 u) ≠ .notANumber
  have hinfinite (s : Sign) : UnpackedFloat.unpack Format.binary64
      (UnpackedFloat.pack Format.binary64 (.infinity s)) ≠ .notANumber := by
    rw [unpack_pack (u := .infinity s) trivial]
    exact nofun
  cases u with
  | notANumber => exact absurd rfl h
  | infinity s => exact hinfinite s
  | zero s =>
    rw [unpack_pack (u := .zero s) trivial]
    exact nofun
  | finite s m e hm =>
    rw [pack_finite]
    split
    · exact hinfinite s
    · rename_i hlarge
      split
      · refine unpack_packComponents_ne ?_ s _
        rw [BitVec.toNat_ofNat]
        omega
      · exact unpack_packComponents_ne (by decide) s _

theorem roundWithAccuracy_ne (s : Sign) (m : ℕ) (e : ℤ) (a : Accuracy) :
    roundWithAccuracy Format.binary64 s m e a ≠ .notANumber := by
  let first := shiftToTargetExponent Format.binary64 m e a
  let last := shiftToTargetExponent Format.binary64 first.1.roundedMantissa first.2 .exact
  have hround : roundWithAccuracy Format.binary64 s m e a =
      if h : last.1.mantissa = 0 then .zero s
      else .finite s last.1.mantissa last.2 (Nat.pos_of_ne_zero h) :=
    roundWithAccuracy_eq rfl rfl rfl
  rw [hround]
  by_cases h : last.1.mantissa = 0
  · rw [dif_pos h]
    exact nofun
  · rw [dif_neg h]
    exact nofun

/-- The float is a number, and not zero. -/
def isNonzero (x : Float) : Bool :=
  match x.toModel.unpack with
  | .finite .. => true
  | .zero _ | .infinity _ | .notANumber => false

theorem exists_of_isNonzero (h : isNonzero x = true) :
    ∃ s m e hm, x.toModel.unpack = .finite s m e hm := by
  unfold isNonzero at h
  generalize x.toModel.unpack = u at h
  cases u with
  | finite s m e hm => exact ⟨s, m, e, hm, rfl⟩
  | notANumber | infinity | zero => cases h

/-- An operation is defined where it is defined for the second operands that are numbers and not
zero. -/
theorem isDefined_of_isNonzero {f : UnpackedFloat → UnpackedFloat → UnpackedFloat}
    (hf : ∀ {u s m e hm}, u ≠ .notANumber → f u (.finite s m e hm) ≠ .notANumber)
    (hx : IsDefined x) (hy : isNonzero y = true) :
    IsDefined (packed (f x.toModel.unpack y.toModel.unpack)) := by
  obtain ⟨s, m, e, hm, hy⟩ := exists_of_isNonzero hy
  rw [hy]
  exact isDefined_packed (hf hx)

theorem isDefined_div (hx : IsDefined x) (hy : isNonzero y = true) : IsDefined (x / y) := by
  refine isDefined_of_isNonzero (f := UnpackedFloat.div Format.binary64) ?_ hx hy
  intro u s m e hm hu
  cases u with
  | notANumber => exact absurd rfl hu
  | infinity | zero => exact nofun
  | finite => exact roundWithAccuracy_ne _ _ _ _

theorem isDefined_mul (hx : IsDefined x) (hy : isNonzero y = true) : IsDefined (x * y) := by
  refine isDefined_of_isNonzero (f := UnpackedFloat.mul Format.binary64) ?_ hx hy
  intro u s m e hm hu
  cases u with
  | notANumber => exact absurd rfl hu
  | infinity | zero => exact nofun
  | finite => exact roundWithAccuracy_ne _ _ _ _

theorem isDefined_neg (hx : IsDefined x) : IsDefined (-x) := by
  show IsDefined (packed x.toModel.unpack.neg)
  refine isDefined_packed ?_
  unfold IsDefined at hx
  generalize x.toModel.unpack = u at hx
  cases u with
  | notANumber => exact absurd rfl hx
  | infinity | zero | finite => exact nofun

/-- A packed float is undefined only if it was before. -/
theorem ne_of_isDefined_packed {u : UnpackedFloat} (h : IsDefined (packed u)) :
    u ≠ .notANumber := by
  rintro rfl
  exact h rfl

namespace IsDefined

/-- An operation that keeps what is no number is defined for defined operands only. -/
theorem of_packed {f : UnpackedFloat → UnpackedFloat → UnpackedFloat}
    (hleft : ∀ v, f .notANumber v = .notANumber) (hright : ∀ u, f u .notANumber = .notANumber)
    (h : IsDefined (packed (f x.toModel.unpack y.toModel.unpack))) :
    IsDefined x ∧ IsDefined y := by
  have hne := ne_of_isDefined_packed h
  refine ⟨fun hx => hne ?_, fun hy => hne ?_⟩
  · rw [hx, hleft]
  · rw [hy, hright]

theorem of_mul (h : IsDefined (x * y)) : IsDefined x ∧ IsDefined y :=
  of_packed (f := UnpackedFloat.mul Format.binary64) (by rintro ⟨⟩ <;> rfl)
    (by rintro ⟨⟩ <;> rfl) h

theorem of_add (h : IsDefined (x + y)) : IsDefined x ∧ IsDefined y :=
  of_packed (f := UnpackedFloat.add Format.binary64) (by rintro ⟨⟩ <;> rfl)
    (by rintro ⟨⟩ <;> rfl) h

theorem of_div (h : IsDefined (x / y)) : IsDefined x ∧ IsDefined y :=
  of_packed (f := UnpackedFloat.div Format.binary64) (by rintro ⟨⟩ <;> rfl)
    (by rintro ⟨⟩ <;> rfl) h

/-! ## Order -/

/-- Only an undefined float is neither below zero nor at least zero. -/
theorem zero_le (h : IsDefined x) (hx : ¬x < 0.0) : 0.0 ≤ x := by
  rw [float_lt_iff, unpack_zero] at hx
  rw [float_le_iff, unpack_zero]
  unfold IsDefined at h
  generalize x.toModel.unpack = u at *
  cases u with
  | notANumber => exact absurd rfl h
  | zero s => rfl
  | infinity s | finite s =>
    cases s with
    | negative => exact absurd rfl hx
    | positive => rfl

end IsDefined

theorem HasValue.isDefined {q : ℚ} (h : HasValue x q) : IsDefined x := by
  unfold HasValue at h
  unfold IsDefined
  generalize x.toModel.unpack = u at h
  cases h <;> exact nofun

theorem not_lt_of_not_isDefined (h : ¬IsDefined x) : ¬x < y ∧ ¬y < x := by
  rw [IsDefined, not_not] at h
  rw [float_lt_iff, float_lt_iff, h]
  refine ⟨nofun, ?_⟩
  cases y.toModel.unpack <;> exact nofun

/-! ## Numerals -/

theorem isDefined_ofNat (n : UInt64) : IsDefined n.toFloat := by
  show IsDefined (packed (UnpackedFloat.ofUInt64 Format.binary64 n))
  refine isDefined_packed ?_
  unfold UnpackedFloat.ofUInt64 UnpackedFloat.ofNat UnpackedFloat.ofInt UnpackedFloat.normalize
  split
  · exact roundWithAccuracy_ne _ _ _ _
  · exact nofun
  · exact roundWithAccuracy_ne _ _ _ _

theorem isNonzero_powerOfTen : ∀ x ∈ Float.exactlyRepresentablePowersOfTen.toList,
    isNonzero x = true := by
  decide

theorem ofScientific_ne (m : ℕ) (e : ℤ) :
    UnpackedFloat.ofScientific Format.binary64 m e ≠ .notANumber := by
  unfold UnpackedFloat.ofScientific
  by_cases hm : m = 0
  · rw [dif_pos hm]
    exact nofun
  rw [dif_neg hm]
  by_cases hlarge : e > 2 ^ Format.binary64.exponentBits
  · rw [if_pos hlarge]
    exact nofun
  rw [if_neg hlarge]
  by_cases hsmall : e < -(2 ^ Format.binary64.exponentBits + m.log2)
  · rw [if_pos hsmall]
    exact nofun
  rw [if_neg hsmall]
  by_cases hwhole : 0 ≤ e
  · rw [if_pos hwhole]
    exact roundWithAccuracy_ne _ _ _ _
  · rw [if_neg hwhole]
    exact roundWithAccuracy_ne _ _ _ _

/-- A decimal is a number, or infinite if it is beyond the largest one. -/
theorem isDefined_ofScientific (m : ℕ) (s : Bool) (e : ℕ) :
    IsDefined (Float.ofScientific m s e) := by
  unfold Float.ofScientific
  split
  · rename_i h
    simp only
    have he : e < Float.exactlyRepresentablePowersOfTen.size := Nat.lt_succ_of_le h.2
    have hpower := isNonzero_powerOfTen Float.exactlyRepresentablePowersOfTen[e] (by simp)
    split
    · exact isDefined_div (isDefined_ofNat _) hpower
    · exact isDefined_mul (isDefined_ofNat _) hpower
  · refine isDefined_packed ?_
    exact ofScientific_ne m _

theorem Decimal.isDefined_value (d : Decimal) : IsDefined (d.value : Float) := by
  unfold Decimal.value
  simp only
  split
  · exact isDefined_neg (isDefined_ofScientific _ _ _)
  · exact isDefined_ofScientific _ _ _

namespace Numeral

theorem isDefined_infinite (negative : Bool) : IsDefined (infinite negative).value := by
  have hpositive : (1.0 / 0.0 : Float).toModel.unpack = .infinity .positive := rfl
  have h : IsDefined (1.0 / 0.0) := by
    rw [IsDefined, hpositive]
    exact nofun
  cases negative with
  | false => exact h
  | true => exact isDefined_neg h

/-- Only the undefined numeral gives an undefined float. -/
theorem isDefined_toFloat_iff (n : Numeral) : IsDefined n.toFloat ↔ n ≠ .undefined := by
  cases n with
  | undefined =>
    have h : (0.0 / 0.0 : Float).toModel.unpack = .notANumber := rfl
    exact iff_of_false (fun hdefined => hdefined h) (fun hne => hne rfl)
  | infinite negative => exact iff_of_true (isDefined_infinite negative) nofun
  | finite d =>
    refine iff_of_true ?_ nofun
    unfold toFloat
    simp only
    split
    · exact Decimal.isDefined_value _
    · split
      · exact isDefined_infinite d.negative
      · exact d.isDefined_value

end Numeral

end Typeset
