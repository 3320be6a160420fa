import Typeset.Proofs.Number.Rounding

/-!
# Unpacked floats

Floats taken apart into sign, mantissa and exponent, as their arithmetic works on them: what the
rounding of a mantissa and an exponent gives.

* `Represents`: the number that a mantissa with two more bits stands for.
* `Canonical`: the form of a mantissa and an exponent that comparisons rely on.
* `RoundsTo`: an unpacked float in that form, with the magnitude that a number is rounded to.
* `roundsTo_roundWithAccuracy`, `roundsTo_round`: the roundings of arithmetic give it.
-/

namespace Typeset

open Float.Model (UnpackedFloat Format totalExponent)
open Float.Model.UnpackedFloat

/-! ## Mantissas with two more bits -/

/-- The mantissa stands for the number, as far as the round bit and the sticky bit tell. -/
inductive Represents : ExtendedMantissa → ℚ → Prop
  | exact (m : ℕ) : Represents ⟨m, false, false⟩ m
  | below {m : ℕ} {x : ℚ} (hl : m < x) (hr : x < m + 1 / 2) : Represents ⟨m, false, true⟩ x
  | half (m : ℕ) : Represents ⟨m, true, false⟩ (m + 1 / 2)
  | above {m : ℕ} {x : ℚ} (hl : m + 1 / 2 < x) (hr : x < m + 1) : Represents ⟨m, true, true⟩ x

namespace Represents

variable {em : ExtendedMantissa} {x : ℚ}

/-- The lowest bit of the mantissa becomes the round bit. -/
theorem shiftRightOne (h : Represents em x) : Represents em.shiftRightOne (x / 2) := by
  obtain ⟨m, round, sticky⟩ := em
  obtain ⟨k, rfl | rfl⟩ := Nat.even_or_odd' m
  · have hshift : (⟨2 * k, round, sticky⟩ : ExtendedMantissa).shiftRightOne =
        ⟨k, false, round || sticky⟩ := by
      simp [ExtendedMantissa.shiftRightOne]
    rw [hshift]
    cases h with
    | exact =>
      rw [Nat.cast_mul, Nat.cast_ofNat, mul_div_cancel_left₀ _ two_ne_zero]
      exact .exact k
    | below hl hr | above hl hr => push_cast at hl hr; exact .below (by linarith) (by linarith)
    | half => push_cast; exact .below (by linarith) (by linarith)
  · have hshift : (⟨2 * k + 1, round, sticky⟩ : ExtendedMantissa).shiftRightOne =
        ⟨k, true, round || sticky⟩ := by
      simp [ExtendedMantissa.shiftRightOne, Nat.add_mod, Nat.add_div]
    rw [hshift]
    cases h with
    | exact =>
      rw [show (((2 * k + 1 : ℕ) : ℚ)) / 2 = k + 1 / 2 by push_cast; ring]
      exact .half k
    | below hl hr | above hl hr => push_cast at hl hr; exact .above (by linarith) (by linarith)
    | half => push_cast; exact .above (by linarith) (by linarith)

theorem shiftRight (h : Represents em x) (k : ℕ) : Represents (em >>> k) (x / 2 ^ k) := by
  induction k with
  | zero =>
    rw [pow_zero, div_one]
    exact h
  | succ k ih =>
    rw [pow_succ, ← div_div]
    exact ih.shiftRightOne

/-- A mantissa is rounded to the nearest whole number. -/
theorem isNearestEven (h : Represents em x) : IsNearestEven x em.roundedMantissa := by
  cases h with
  | exact m => exact .natCast m
  | @below m x hl hr =>
    show IsNearestEven x m
    constructor <;> intros <;> linarith
  | half m =>
    show IsNearestEven (m + 1 / 2) (m + m % 2 : ℕ)
    have heven : Even (m + m % 2) := by
      rw [Nat.even_iff]
      omega
    have hle : ((m % 2 : ℕ) : ℚ) ≤ 1 := by exact_mod_cast Nat.le_of_lt_succ (Nat.mod_lt m two_pos)
    have hge : (0 : ℚ) ≤ (m % 2 : ℕ) := Nat.cast_nonneg _
    exact ⟨by push_cast; linarith, by push_cast; linarith, fun _ => heven, fun _ => heven⟩
  | @above m x hl hr =>
    show IsNearestEven x (m + 1 : ℕ)
    constructor <;> intros <;> push_cast at * <;> linarith

end Represents

/-! ## Exponents -/

/-- A mantissa and an exponent in the form that comparisons rely on: 53 binary digits, or fewer at
the least exponent. -/
structure Canonical (m : ℕ) (e : ℤ) : Prop where
  pos : 0 < m
  lt : m < 2 ^ 53
  exponent_ge : -1074 ≤ e
  full : 2 ^ 52 ≤ m ∨ e = -1074

theorem log_mul_two_zpow {m : ℕ} (hm : 0 < m) (e : ℤ) :
    Int.log 2 ((m : ℚ) * 2 ^ e) = m.log2 + e := by
  have hpos : (0 : ℚ) < m * 2 ^ e := mul_pos (by exact_mod_cast hm) (two_zpow_pos e)
  have hle : ((2 ^ m.log2 : ℕ) : ℚ) ≤ m := by exact_mod_cast Nat.log2_self_le hm.ne'
  have hlt : (m : ℚ) < (2 ^ (m.log2 + 1) : ℕ) := by exact_mod_cast Nat.lt_log2_self
  push_cast at hle hlt
  refine le_antisymm (Int.lt_add_one_iff.mp ?_) ?_
  · rw [← Int.lt_zpow_iff_log_lt (by norm_num) hpos, add_right_comm]
    push_cast
    rw [two_zpow_add]
    exact mul_lt_mul_of_pos_right (by exact_mod_cast hlt) (two_zpow_pos e)
  · rw [← Int.zpow_le_iff_le_log (by norm_num) hpos]
    push_cast
    rw [two_zpow_add]
    exact mul_le_mul_of_nonneg_right (by exact_mod_cast hle) (two_zpow_pos e).le

/-- The exponent that a mantissa is brought to is that of the grid. -/
theorem targetExponent_eq {m : ℕ} (hm : 0 < m) (e : ℤ) :
    Format.binary64.targetExponent (totalExponent m e) = gridExponent (m * 2 ^ e) := by
  rw [gridExponent, log_mul_two_zpow hm]
  show max ((m.log2 + 1 + e : ℤ) - 53) (-1074) = _
  congr 1
  ring

theorem Canonical.gridExponent_eq {m : ℕ} {e : ℤ} (h : Canonical m e) :
    gridExponent (m * 2 ^ e) = e := by
  rw [gridExponent, log_mul_two_zpow h.pos]
  have hlt : m.log2 < 53 := (Nat.log2_lt h.pos.ne').mpr h.lt
  have hge := h.exponent_ge
  rcases h.full with hm | rfl
  · have hle : 52 ≤ m.log2 := (Nat.le_log2 h.pos.ne').mpr hm
    omega
  · omega

/-! ## Rounding a mantissa -/

/-- The unpacked float with the sign and with the magnitude that a number is rounded to. -/
inductive RoundsTo (s : Sign) (q : ℚ) : UnpackedFloat → Prop
  | zero (h : Rounds q 0) : RoundsTo s q (.zero s)
  | finite {m : ℕ} {e : ℤ} (hc : Canonical m e) (h : Rounds q (m * 2 ^ e)) :
    RoundsTo s q (.finite s m e hc.pos)

/-- A mantissa on the grid, with the power of two where it stands, is in canonical form, or the
power of two above. -/
theorem exists_canonical {n : ℕ} {g : ℤ} (hpos : 0 < n) (hle : n ≤ 2 ^ 53) (hg : -1074 ≤ g)
    (hfull : 2 ^ 52 ≤ n ∨ g = -1074) :
    ∃ m e, Canonical m e ∧ (m * 2 ^ e : ℚ) = n * 2 ^ g ∧
      ∃ k : ℕ, e = g + k ∧ (ExtendedMantissa.mk n false false >>> k).mantissa = m := by
  rcases hle.lt_or_eq with hlt | rfl
  · exact ⟨n, g, ⟨hpos, hlt, hg, hfull⟩, rfl, 0, by simp, rfl⟩
  · refine ⟨2 ^ 52, g + 1, ⟨by norm_num, by norm_num, by omega, .inl le_rfl⟩, ?_, 1, rfl, rfl⟩
    rw [two_zpow_add, zpow_one]
    push_cast
    ring

theorem shiftToTargetExponent_eq {m : ℕ} (hm : 0 < m) {e : ℤ} {k : ℕ}
    (hk : gridExponent (m * 2 ^ e) = e + k) :
    shiftToTargetExponent Format.binary64 m e .exact =
      (ExtendedMantissa.mk m false false >>> k, e + k) := by
  rw [shiftToTargetExponent, targetExponent_eq hm, hk, shiftToExponent, add_sub_cancel_left,
    Int.toNat_natCast]
  rfl

theorem shiftToTargetExponent_zero {e : ℤ} (he : -1074 ≤ e) :
    shiftToTargetExponent Format.binary64 0 e .exact = (ExtendedMantissa.mk 0 false false, e) := by
  have htarget : Format.binary64.targetExponent (totalExponent 0 e) ≤ e := by
    show max ((((0 : ℕ).log2 : ℕ) : ℤ) + 1 + e - 53) (-1074) ≤ e
    rw [Nat.log2_zero]
    omega
  rw [shiftToTargetExponent, shiftToExponent, Int.toNat_of_nonpos (by omega)]
  simp only [Nat.cast_zero, add_zero]
  rfl

/-- A mantissa is shifted and rounded, and shifted again if it has become too long. -/
theorem roundWithAccuracy_eq {s : Sign} {m n : ℕ} {e d c : ℤ} {a : Accuracy}
    {em final : ExtendedMantissa} (hshift : shiftToTargetExponent Format.binary64 m e a = (em, d))
    (hround : em.roundedMantissa = n)
    (hagain : shiftToTargetExponent Format.binary64 n d .exact = (final, c)) :
    roundWithAccuracy Format.binary64 s m e a =
      if h : final.mantissa = 0 then .zero s
      else .finite s final.mantissa c (Nat.pos_of_ne_zero h) := by
  subst hround
  rw [roundWithAccuracy, hshift]
  dsimp only
  rw [hagain]

/-- The rounding of a mantissa and an exponent drops digits only. -/
theorem roundsTo_roundWithAccuracy (s : Sign) {m : ℕ} {e : ℤ} (hm : 0 < m)
    (he : e ≤ gridExponent (m * 2 ^ e)) :
    RoundsTo s (m * 2 ^ e) (roundWithAccuracy Format.binary64 s m e .exact) := by
  have hq : (0 : ℚ) < m * 2 ^ e := mul_pos (by exact_mod_cast hm) (two_zpow_pos e)
  obtain ⟨k, hk⟩ := Int.eq_ofNat_of_zero_le (Int.sub_nonneg.mpr he)
  have hg : gridExponent (m * 2 ^ e) = e + k := by omega
  have hgrid : -1074 ≤ e + k := hg ▸ le_max_right _ _
  -- The digits that are kept are the whole part of the number in units of the grid.
  have hn := ((Represents.exact m).shiftRight k).isNearestEven
  generalize hem : (ExtendedMantissa.mk m false false >>> k).roundedMantissa = n at hn
  have hx : (m : ℚ) / 2 ^ k = m * 2 ^ e / 2 ^ (e + k) := by
    rw [two_zpow_add, zpow_natCast, mul_comm, mul_div_mul_left _ _ (two_zpow_pos e).ne']
  have hrounds : Rounds (m * 2 ^ e) (n * 2 ^ (e + k)) := ⟨n, by rwa [hg, ← hx], by rw [hg]⟩
  have hle : n ≤ 2 ^ 53 := hn.le_of_le_natCast (by
    have hlt := lt_two_zpow_gridExponent (m * 2 ^ e)
    rw [hg, add_comm, two_zpow_add] at hlt
    rw [hx, div_le_iff₀ (two_zpow_pos _)]
    exact_mod_cast hlt.le)
  have hfull : 2 ^ 52 ≤ n ∨ e + k = -1074 := by
    refine or_iff_not_imp_right.mpr fun hne => hn.le_of_natCast_le ?_
    have hge := two_zpow_gridExponent_le hq (hg ▸ hne)
    rw [hg, add_comm, two_zpow_add] at hge
    rw [hx, le_div_iff₀ (two_zpow_pos _)]
    exact_mod_cast hge
  have hshift := shiftToTargetExponent_eq hm hg
  rcases Nat.eq_zero_or_pos n with rfl | hpos
  · rw [roundWithAccuracy_eq hshift hem (shiftToTargetExponent_zero hgrid), dif_pos rfl]
    exact .zero (by simpa using hrounds)
  · -- If rounding has reached the next power of two, one more digit is dropped.
    obtain ⟨m', e', hc, hvalue, j, rfl, hmantissa⟩ := exists_canonical hpos hle hgrid hfull
    have hgrid' : gridExponent (n * 2 ^ (e + k)) = e + k + j := hvalue ▸ hc.gridExponent_eq
    subst hmantissa
    rw [roundWithAccuracy_eq hshift hem (shiftToTargetExponent_eq hpos hgrid'),
      dif_neg hc.pos.ne']
    exact .finite hc (hvalue ▸ hrounds)

/-- Digits are added where the exponent is above that of the grid. -/
theorem roundsTo_round (s : Sign) {m : ℕ} (hm : 0 < m) (e : ℤ) :
    RoundsTo s (m * 2 ^ e) (UnpackedFloat.round Format.binary64 s m e) := by
  rw [UnpackedFloat.round, targetExponent_eq hm, decreaseExponent]
  generalize hk : (e - gridExponent (m * 2 ^ e)).toNat = k
  simp only [Nat.shiftLeft_eq]
  have hvalue : ((m * 2 ^ k : ℕ) : ℚ) * 2 ^ (e - k) = m * 2 ^ e := by
    rw [Nat.cast_mul, mul_assoc, Nat.cast_pow, Nat.cast_ofNat, ← zpow_natCast, ← two_zpow_add,
      add_sub_cancel]
  have h := roundsTo_roundWithAccuracy s (Nat.mul_pos hm (Nat.two_pow_pos k))
    (e := e - k) (by rw [hvalue]; omega)
  rwa [hvalue] at h

/-- A whole number of units is rounded with its sign. -/
theorem normalize_natCast {n : ℕ} (hn : 0 < n) (e : ℤ) (s : Sign) :
    UnpackedFloat.normalize Format.binary64 n e s =
      UnpackedFloat.round Format.binary64 .positive n e := by
  have hcompare : compare (n : ℤ) 0 = .gt := Int.compare_eq_gt.mpr (by omega)
  rw [UnpackedFloat.normalize, hcompare]
  rfl

end Typeset
