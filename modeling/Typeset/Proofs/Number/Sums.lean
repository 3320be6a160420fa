import Typeset.Proofs.Box.Padded
import Typeset.Proofs.Number.Defined

/-!
# Sums and largest of floats

Adding zero to a float gives the same float, unless that is the zero with a minus. A sum that starts
from zero is never that one: what cancels is the zero without a sign, and no other sum is rounded to
a zero. The largest of floats that starts from zero is never below it.

* `IsTotal`: what a sum can be before it is packed.
* `IsTotal.add`: one more addition gives such a float again.
* `isSum_sum`, `zero_le_largest`: all sums are such floats, and the largest are not below zero.
* `Scalar.neutralZero_float`: so zero changes neither a sum of floats nor the largest of them.
-/

namespace Typeset

open Float.Model (UnpackedFloat Format)
open Float.Model.UnpackedFloat

variable {u v : UnpackedFloat} {x y : Float}

/-! ## Sums before they are packed -/

/-- What a sum can be before it is packed. The zero with a minus is left out. -/
inductive IsTotal : UnpackedFloat → Prop
  | notANumber : IsTotal .notANumber
  | infinity (s : Sign) : IsTotal (.infinity s)
  | zero : IsTotal (.zero .positive)
  | finite (s : Sign) {m : ℕ} {e : ℤ} (hc : Canonical m e) : IsTotal (.finite s m e hc.pos)

/-- No number from the least one on is rounded to zero. -/
theorem not_rounds_zero {m : ℕ} (hm : 0 < m) {e : ℤ} (he : -1074 ≤ e) :
    ¬Rounds (m * 2 ^ e) 0 := by
  intro h
  have hleast : Canonical 1 (-1074) := ⟨one_pos, by norm_num, le_rfl, .inr rfl⟩
  have hle : ((1 : ℕ) * 2 ^ (-1074 : ℤ) : ℚ) ≤ m * 2 ^ e :=
    mul_le_mul (by exact_mod_cast hm) (two_zpow_le he) (two_zpow_pos _).le (Nat.cast_nonneg m)
  exact absurd (hleast.rounds.mono h hleast.value_pos.le hle) (not_le.mpr hleast.value_pos)

theorem isTotal_round (s : Sign) {m : ℕ} (hm : 0 < m) {e : ℤ} (he : -1074 ≤ e) :
    IsTotal (UnpackedFloat.round Format.binary64 s m e) := by
  have h := roundsTo_round s hm e
  generalize UnpackedFloat.round Format.binary64 s m e = u at h ⊢
  cases h with
  | zero h => exact absurd h (not_rounds_zero hm he)
  | finite hc => exact .finite s hc

theorem isTotal_normalize (n : ℤ) {e : ℤ} (he : -1074 ≤ e) :
    IsTotal (UnpackedFloat.normalize Format.binary64 n e .positive) := by
  rw [UnpackedFloat.normalize]
  rcases lt_trichotomy n 0 with hn | rfl | hn
  · rw [Int.compare_eq_lt.mpr hn]
    exact isTotal_round .negative (by omega) he
  · exact .zero
  · rw [Int.compare_eq_gt.mpr hn]
    exact isTotal_round .positive (by omega) he

/-- A sum of what is no zero with a minus is none either. -/
theorem IsTotal.add (h : IsTotal u) (hv : IsUnpacked v) :
    IsTotal (u.add Format.binary64 v) := by
  cases h with
  | notANumber => cases v <;> exact .notANumber
  | infinity s =>
    cases v with
    | notANumber => exact .notANumber
    | infinity s' =>
      show IsTotal (if s == s' then .infinity s else .notANumber)
      split
      · exact .infinity s
      · exact .notANumber
    | zero | finite => exact .infinity s
  | zero =>
    cases v with
    | notANumber => exact .notANumber
    | infinity s' => exact .infinity s'
    | zero s' => cases s' <;> exact .zero
    | finite s' m' e' hm' => exact .finite s' hv.1
  | finite s hc =>
    cases v with
    | notANumber => exact .notANumber
    | infinity s' => exact .infinity s'
    | zero s' => exact .finite s hc
    | finite s' m' e' hm' =>
      exact isTotal_normalize _ (le_min hc.exponent_ge hv.1.exponent_ge)

/-- Adding zero changes nothing of this kind. -/
theorem IsTotal.add_zero (h : IsTotal u) : u.add Format.binary64 (.zero .positive) = u := by
  cases h <;> rfl

/-! ## Packed sums -/

theorem packed_congr
    (h : UnpackedFloat.pack Format.binary64 u = UnpackedFloat.pack Format.binary64 v) :
    packed u = packed v := by
  have hbits {a b : Float.Model} (h : a.toBits = b.toBits) : a = b := by
    cases a
    cases b
    cases h
    rfl
  exact congrArg Float.ofModel (hbits (congrArg UInt64.ofBitVec h))

namespace IsTotal

theorem unpack_packed (h : IsTotal u) : (packed u).toModel.unpack = clipped u := by
  cases h with
  | notANumber | zero => rfl
  | infinity s => cases s <;> rfl
  | finite s hc => exact unpack_pack_finite hc

theorem clipped (h : IsTotal u) : IsTotal (clipped u) := by
  cases h with
  | notANumber => exact .notANumber
  | infinity s => exact .infinity s
  | zero => exact .zero
  | @finite s m e hc =>
    rw [clipped_finite]
    by_cases he : 971 < e
    · rw [if_pos he]
      exact .infinity s
    · rw [if_neg he]
      exact .finite s hc

/-- What is too large is packed as an infinite float anyway. -/
theorem packed_clipped (h : IsTotal u) : packed (Typeset.clipped u) = packed u := by
  cases h with
  | notANumber | zero | infinity s => rfl
  | @finite s m e hc =>
    rw [clipped_finite]
    by_cases he : 971 < e
    · rw [if_pos he]
      refine packed_congr ?_
      rw [pack_finite, if_pos (by omega)]
      rfl
    · rw [if_neg he]

end IsTotal

/-- The float is one that a sum can be, and packing what it is unpacked to gives it back. -/
def IsSum (x : Float) : Prop := IsTotal x.toModel.unpack ∧ packed x.toModel.unpack = x

theorem IsTotal.isSum (h : IsTotal u) : IsSum (packed u) := by
  rw [IsSum, h.unpack_packed]
  exact ⟨h.clipped, h.packed_clipped⟩

namespace IsSum

theorem zero : IsSum 0.0 := IsTotal.zero.isSum

theorem add (h : IsSum x) (y : Float) : IsSum (x + y) := (h.1.add (isUnpacked y)).isSum

/-- Adding zero changes no sum. -/
theorem add_zero (h : IsSum x) : x + 0.0 = x := by
  have hadd : x + 0.0 = packed (x.toModel.unpack.add Format.binary64 (.zero .positive)) := rfl
  rw [hadd, h.1.add_zero, h.2]

end IsSum

/-- Lengths that are added up from zero give a float that a sum can be. -/
theorem isSum_sum (xs : List Float) : IsSum (Scalar.sum xs) :=
  List.foldlRecOn xs _ IsSum.zero fun _ h y _ => h.add y

/-! ## Largest floats -/

/-- What is above a float that is not below zero is not below zero. -/
theorem float_zero_le_of_lt (hx : 0.0 ≤ x) (h : x < y) : 0.0 ≤ y := by
  rw [float_le_iff, unpack_zero] at hx ⊢
  rw [float_lt_iff] at h
  generalize x.toModel.unpack = u at hx h
  generalize y.toModel.unpack = v at h ⊢
  cases v with
  | notANumber => cases u <;> cases h
  | zero s => rfl
  | infinity s | finite s =>
    cases s with
    | positive => rfl
    | negative =>
      -- What is below a negative float is negative as well.
      cases u with
      | notANumber => cases h
      | zero => cases h
      | infinity s | finite s =>
        cases s with
        | negative => cases hx
        | positive => cases h

theorem float_not_lt_zero (hx : 0.0 ≤ x) : ¬x < 0.0 := by
  rcases zero_le_iff.mp hx with ⟨q, hq⟩ | hinfinite
  · rw [hq.lt_iff hasValue_zero]
    exact not_lt.mpr hq.nonneg
  · rw [float_lt_iff, hinfinite, unpack_zero]
    exact nofun

theorem isNaN_of_zero_le (hx : 0.0 ≤ x) : x.isNaN = false := by
  show x.toModel.unpack.isNaN = false
  rcases zero_le_iff.mp hx with ⟨q, hq⟩ | hinfinite
  · unfold HasValue at hq
    generalize x.toModel.unpack = u at hq ⊢
    cases hq <;> rfl
  · rw [hinfinite]
    rfl

theorem larger_float (x y : Float) :
    Scalar.larger x y = if x < y then y else if x.isNaN then y else x := rfl

theorem zero_le_larger (hx : 0.0 ≤ x) (y : Float) : 0.0 ≤ Scalar.larger x y := by
  rw [larger_float, isNaN_of_zero_le hx]
  split
  · exact float_zero_le_of_lt hx ‹x < y›
  · exact hx

/-- The largest of lengths and zero is not below zero. -/
theorem zero_le_largest (xs : List Float) : (0.0 : Float) ≤ Scalar.largest 0.0 xs :=
  List.foldlRecOn xs _ (by decide) fun _ h y _ => zero_le_larger h y

/-- Comparing with zero changes no float that is not below it. -/
theorem larger_zero (hx : 0.0 ≤ x) : Scalar.larger x 0.0 = x := by
  rw [larger_float, if_neg (float_not_lt_zero hx), isNaN_of_zero_le hx]
  rfl

/-- Zero is neutral among the lengths of the program. -/
theorem Scalar.neutralZero_float : Scalar.NeutralZero Float where
  sum_add xs := (isSum_sum xs).add_zero
  -- The difference and the sum of two zeros are the same zero.
  larger_sub xs := larger_zero (zero_le_largest xs)
  larger_add xs := larger_zero (zero_le_largest xs)

end Typeset
