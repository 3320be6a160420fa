import Typeset.Proofs.Number.Packing

/-!
# Arithmetic of floats

What the operations on floats give for numbers that are not negative: the exact result, rounded.

* `HasValue`: the number that a float is, if it is not negative.
* `Nears`: the float that a number is rounded to, infinite beyond the largest one.
* `nears_mul`, `nears_add`, `nears_sub`: products, sums and differences.
* `Nears.exists_hasValue`, `hasValue_ofNat`: how far rounding goes, and whole numbers.
* `HasValue.le_iff`, `HasValue.lt_iff`, `Nears.le`: the order of floats is that of their numbers,
  and rounding keeps it.
-/

namespace Typeset

open Float.Model (UnpackedFloat Format)
open Float.Model.UnpackedFloat

/-- The unpacked float is the number, which is not negative. -/
inductive IsMagnitude : UnpackedFloat → ℚ → Prop
  | zero (s : Sign) : IsMagnitude (.zero s) 0
  | finite {m : ℕ} {e : ℤ} (hm : 0 < m) : IsMagnitude (.finite .positive m e hm) (m * 2 ^ e)

/-- The float is the number, which is not negative. -/
def HasValue (x : Float) (q : ℚ) : Prop := IsMagnitude x.toModel.unpack q

/-- The float is the one that a number is rounded to. -/
inductive Nears (q : ℚ) (x : Float) : Prop
  | finite {r : ℚ} (h : Rounds q r) (hx : HasValue x r)
  | infinite {r : ℚ} (h : Rounds q r) (hr : 2 ^ (1024 : ℤ) ≤ r)
    (hx : x.toModel.unpack = .infinity .positive)

/-- The float of an unpacked one. -/
def packed (u : UnpackedFloat) : Float := .ofModel (.pack u)

variable {x y z : Float} {u v : UnpackedFloat} {p q r : ℚ}

theorem unpack_packed (h : IsUnpacked u) : (packed u).toModel.unpack = u :=
  unpack_pack h

/-! ## Numbers of floats -/

namespace Canonical

variable {m m' : ℕ} {e e' : ℤ}

theorem value_pos (h : Canonical m e) : (0 : ℚ) < m * 2 ^ e :=
  mul_pos (by exact_mod_cast h.pos) (two_zpow_pos e)

theorem rounds (h : Canonical m e) : Rounds (m * 2 ^ e) (m * 2 ^ e) :=
  rounds_self h.gridExponent_eq.le

/-- The exponent tells whether a number is beyond the largest float. -/
theorem value_lt_two_zpow_iff (h : Canonical m e) :
    (m * 2 ^ e : ℚ) < 2 ^ (1024 : ℤ) ↔ e ≤ 971 := by
  refine ⟨fun hlt => ?_, fun he => ?_⟩
  · have hgrid := gridExponent_le h.value_pos hlt (by norm_num)
    rwa [h.gridExponent_eq] at hgrid
  · have hlt := lt_two_zpow_gridExponent (m * 2 ^ e)
    rw [h.gridExponent_eq] at hlt
    exact hlt.trans_le (two_zpow_le (by omega))

/-- Numbers in canonical form are compared by their exponents first. -/
theorem value_lt_iff (h : Canonical m e) (h' : Canonical m' e') :
    (m * 2 ^ e : ℚ) < m' * 2 ^ e' ↔ e < e' ∨ e = e' ∧ m < m' := by
  have hgrid := h.gridExponent_eq
  have hgrid' := h'.gridExponent_eq
  rcases lt_trichotomy e e' with he | rfl | he
  · refine iff_of_true (lt_of_not_ge fun hle => ?_) (.inl he)
    have := gridExponent_mono h'.value_pos hle
    omega
  · rw [mul_lt_mul_iff_left₀ (two_zpow_pos e), Nat.cast_lt]
    simp
  · refine iff_of_false (fun hlt => ?_) (by omega)
    have := gridExponent_mono h.value_pos hlt.le
    omega

end Canonical

namespace IsMagnitude

theorem nonneg (h : IsMagnitude u q) : 0 ≤ q := by
  cases h with
  | zero => exact le_rfl
  | finite => exact mul_nonneg (Nat.cast_nonneg _) (two_zpow_pos _).le

/-- A number that a float is stays as it is in rounding. -/
theorem rounds (h : IsMagnitude u q) (hu : IsUnpacked u) : Rounds q q := by
  cases h with
  | zero => exact rounds_zero
  | finite => exact hu.1.rounds

theorem lt_two_zpow (h : IsMagnitude u q) (hu : IsUnpacked u) : q < 2 ^ (1024 : ℤ) := by
  cases h with
  | zero => exact two_zpow_pos _
  | finite => exact hu.1.value_lt_two_zpow_iff.mpr hu.2

/-- Packing keeps a number. -/
theorem nears_packed (h : IsMagnitude u q) (hu : IsUnpacked u) : Nears q (packed u) := by
  refine .finite (h.rounds hu) ?_
  rwa [HasValue, unpack_packed hu]

end IsMagnitude

theorem isUnpacked (x : Float) : IsUnpacked x.toModel.unpack := isUnpacked_unpack _

theorem HasValue.nears (h : HasValue x q) : Nears q x := .finite (h.rounds (isUnpacked x)) h

/-- The number of a float from its exact form. -/
theorem hasValue_of_ofFloat {m : ℕ} {e : ℤ} (h : Binary.ofFloat x = .finite false m e)
    (hq : (m * 2 ^ e : ℚ) = q) : HasValue x q := by
  rw [Binary.ofFloat_eq] at h
  subst hq
  unfold HasValue
  generalize x.toModel.unpack = u at h
  cases u with
  | notANumber | infinity s => cases h
  | zero s =>
    cases s with
    | negative => cases h
    | positive =>
      cases h
      rw [Nat.cast_zero, zero_mul]
      exact .zero .positive
  | finite s m e hm =>
    cases s with
    | negative => cases h
    | positive =>
      cases h
      exact .finite hm

/-- The exact form of a float that is a number. A minus stands before zero only. -/
theorem HasValue.ofFloat_eq (h : HasValue x q) : ∃ negative m e,
    Binary.ofFloat x = .finite negative m e ∧ (m * 2 ^ e : ℚ) = q ∧ (negative = true → m = 0) := by
  rw [Binary.ofFloat_eq]
  unfold HasValue at h
  generalize x.toModel.unpack = u at h
  cases h with
  | zero s => exact ⟨isNegative s, 0, -1074, rfl, by simp, fun _ => rfl⟩
  | @finite m e hm => exact ⟨false, m, e, rfl, rfl, nofun⟩

/-- A magnitude that is rounded and packed. -/
theorem RoundsTo.nears (h : RoundsTo .positive q u) : Nears q (packed u) := by
  cases h with
  | zero h => exact .finite h (.zero .positive)
  | @finite m e hc h =>
    have hpacked : (packed (.finite .positive m e hc.pos)).toModel.unpack =
        clipped (.finite .positive m e hc.pos) := unpack_pack_finite hc
    by_cases he : 971 < e
    · rw [clipped_finite, if_pos he] at hpacked
      exact .infinite h (not_lt.mp (hc.value_lt_two_zpow_iff.not.mpr (not_le.mpr he))) hpacked
    · rw [clipped_finite, if_neg he] at hpacked
      refine .finite h ?_
      rw [HasValue, hpacked]
      exact .finite hc.pos

theorem nears_packed_zero (s : Sign) : Nears 0 (packed (.zero s)) :=
  (IsMagnitude.zero s).nears_packed trivial

/-- The float that a number is rounded to is near it. -/
theorem Nears.exists_hasValue {e : ℤ} (h : Nears q x) (hq : 0 ≤ q) (hlt : q < 2 ^ e)
    (he : -1021 ≤ e) (he' : e ≤ 1023) : ∃ r, HasValue x r ∧ |r - q| ≤ 2 ^ (e - 54) := by
  cases h with
  | @finite r hr hx => exact ⟨r, hx, hr.dist_le_of_lt hq hlt he⟩
  | @infinite r hr hlarge hx =>
    -- What is rounded is less than half of the least number beyond the floats.
    have hclose := (abs_le.mp (hr.dist_le_of_lt hq hlt he)).2
    have hunit : (2 : ℚ) ^ (e - 54) ≤ 2 ^ e := two_zpow_le (by omega)
    have hdouble : (2 : ℚ) ^ (e + 1) = 2 ^ e * 2 := by rw [two_zpow_add, zpow_one]
    have hfar : (2 : ℚ) ^ (e + 1) ≤ 2 ^ (1024 : ℤ) := two_zpow_le (by omega)
    linarith

/-- A number that rounding leaves as it is. -/
theorem Nears.hasValue (h : Nears q x) (hq : Rounds q q) (hlt : q < 2 ^ (1024 : ℤ)) :
    HasValue x q := by
  cases h with
  | finite hr hx => rwa [hq.unique hr]
  | infinite hr hlarge hx => exact absurd (hq.unique hr ▸ hlt) (not_lt.mpr hlarge)

/-! ## Operations -/

/-- A product of mantissas has no fewer digits than the grid asks for. -/
theorem Canonical.add_le_gridExponent {m m' : ℕ} {e e' : ℤ} (h : Canonical m e)
    (h' : Canonical m' e') : e + e' ≤ gridExponent ((m * m' : ℕ) * 2 ^ (e + e')) := by
  have hpos := Nat.mul_pos h.pos h'.pos
  rw [gridExponent, log_mul_two_zpow hpos]
  have hge := h.exponent_ge
  have hge' := h'.exponent_ge
  have hfull {n k : ℕ} (hn : 2 ^ 52 ≤ n) (hk : 0 < k) : 52 ≤ (n * k).log2 :=
    (Nat.le_log2 (by positivity)).mpr (hn.trans (Nat.le_mul_of_pos_right n hk))
  rcases h.full with hm | rfl
  · have := hfull hm h'.pos
    omega
  · rcases h'.full with hm | rfl
    · have := hfull hm h.pos
      rw [Nat.mul_comm] at this
      omega
    · omega

theorem IsMagnitude.nears_mul (hp : IsMagnitude u p) (hq : IsMagnitude v q) (hu : IsUnpacked u)
    (hv : IsUnpacked v) : Nears (p * q) (packed (u.mul Format.binary64 v)) := by
  cases hp with
  | zero s =>
    rw [zero_mul]
    cases hq with
    | zero s' => exact nears_packed_zero (s * s')
    | @finite m' e' hm' =>
      have hzero : UnpackedFloat.mul Format.binary64 (.zero s) (.finite .positive m' e' hm') =
          .zero (s * .positive) := rfl
      rw [hzero]
      exact nears_packed_zero _
  | @finite m e hm =>
    cases hq with
    | zero s' =>
      have hzero : UnpackedFloat.mul Format.binary64 (.finite .positive m e hm) (.zero s') =
          .zero (.positive * s') := rfl
      rw [mul_zero, hzero]
      exact nears_packed_zero _
    | @finite m' e' hm' =>
      have h := roundsTo_roundWithAccuracy .positive (Nat.mul_pos hm hm')
        (hu.1.add_le_gridExponent hv.1)
      have hvalue : ((m * m' : ℕ) : ℚ) * 2 ^ (e + e') = m * 2 ^ e * (m' * 2 ^ e') := by
        rw [two_zpow_add]
        push_cast
        ring
      rw [hvalue] at h
      exact h.nears

theorem nears_mul (hx : HasValue x p) (hy : HasValue y q) : Nears (p * q) (x * y) :=
  IsMagnitude.nears_mul hx hy (isUnpacked x) (isUnpacked y)

/-- Two numbers in units of the smaller one of their exponents. -/
theorem exists_units (m m' : ℕ) (e e' : ℤ) :
    ∃ n n' : ℕ, (n * 2 ^ min e e' : ℚ) = m * 2 ^ e ∧ (n' * 2 ^ min e e' : ℚ) = m' * 2 ^ e' ∧
      (decreaseExponent m e (min e e')).1 = n ∧ (decreaseExponent m' e' (min e e')).1 = n' := by
  have hvalue (m : ℕ) {e d : ℤ} (hd : d ≤ e) :
      (((decreaseExponent m e d).1 : ℕ) : ℚ) * 2 ^ d = m * 2 ^ e := by
    obtain ⟨k, hk⟩ := Int.eq_ofNat_of_zero_le (Int.sub_nonneg.mpr hd)
    obtain rfl : e = d + k := by omega
    rw [decreaseExponent, add_sub_cancel_left, Int.toNat_natCast, Nat.shiftLeft_eq, two_zpow_add,
      zpow_natCast]
    push_cast
    ring
  exact ⟨_, _, hvalue m (min_le_left e e'), hvalue m' (min_le_right e e'), rfl, rfl⟩

theorem IsMagnitude.nears_add (hp : IsMagnitude u p) (hq : IsMagnitude v q) (hu : IsUnpacked u)
    (hv : IsUnpacked v) : Nears (p + q) (packed (u.add Format.binary64 v)) := by
  cases hp with
  | zero s =>
    rw [zero_add]
    cases hq with
    | zero s' => cases s <;> cases s' <;> exact nears_packed_zero _
    | finite hm => exact (IsMagnitude.finite hm).nears_packed hv
  | @finite m e hm =>
    cases hq with
    | zero s' =>
      rw [add_zero]
      exact (IsMagnitude.finite hm).nears_packed hu
    | @finite m' e' hm' =>
      obtain ⟨n, n', hn, hn', hd, hd'⟩ := exists_units m m' e e'
      have hpos : 0 < n + n' := by
        have h : (0 : ℚ) < n * 2 ^ min e e' := hn ▸ hu.1.value_pos
        have : n ≠ 0 := fun h0 => by simp [h0] at h
        omega
      have h := roundsTo_round .positive hpos (min e e')
      rw [Nat.cast_add, add_mul, hn, hn', ← normalize_natCast hpos _ .positive, Nat.cast_add,
        ← hd, ← hd'] at h
      exact h.nears

theorem nears_add (hx : HasValue x p) (hy : HasValue y q) : Nears (p + q) (x + y) :=
  IsMagnitude.nears_add hx hy (isUnpacked x) (isUnpacked y)

theorem IsMagnitude.nears_sub (hp : IsMagnitude u p) (hq : IsMagnitude v q) (hu : IsUnpacked u)
    (hv : IsUnpacked v) (hle : q ≤ p) : Nears (p - q) (packed (u.sub Format.binary64 v)) := by
  cases hp with
  | zero s =>
    cases hq with
    | zero s' =>
      rw [sub_zero]
      cases s <;> cases s' <;> exact nears_packed_zero _
    | finite hm => exact absurd hle (not_le.mpr hv.1.value_pos)
  | @finite m e hm =>
    cases hq with
    | zero s' =>
      rw [sub_zero]
      exact (IsMagnitude.finite hm).nears_packed hu
    | @finite m' e' hm' =>
      obtain ⟨n, n', hn, hn', hd, hd'⟩ := exists_units m m' e e'
      have hnle : n' ≤ n := by
        rw [← hn, ← hn'] at hle
        exact_mod_cast le_of_mul_le_mul_right hle (two_zpow_pos _)
      obtain ⟨k, rfl⟩ := Nat.exists_eq_add_of_le hnle
      have hvalue : (m * 2 ^ e - m' * 2 ^ e' : ℚ) = k * 2 ^ min e e' := by
        rw [← hn, ← hn']
        push_cast
        ring
      have hdifference : UnpackedFloat.sub Format.binary64 (.finite .positive m e hm)
          (.finite .positive m' e' hm') =
            UnpackedFloat.normalize Format.binary64 k (min e e') .positive := by
        show UnpackedFloat.normalize Format.binary64 (((decreaseExponent m e (min e e')).1 : ℤ) -
          ((decreaseExponent m' e' (min e e')).1 : ℤ)) (min e e') .positive = _
        rw [hd, hd', Nat.cast_add, add_sub_cancel_left]
      rw [hdifference, hvalue]
      rcases Nat.eq_zero_or_pos k with rfl | hpos
      · rw [Nat.cast_zero, zero_mul]
        exact nears_packed_zero .positive
      · rw [normalize_natCast hpos]
        exact (roundsTo_round .positive hpos _).nears

/-- The difference of a number and one that is not larger. -/
theorem nears_sub (hx : HasValue x p) (hy : HasValue y q) (hle : q ≤ p) :
    Nears (p - q) (x - y) :=
  IsMagnitude.nears_sub hx hy (isUnpacked x) (isUnpacked y) hle

/-! ## Whole numbers -/

theorem nears_toFloat (n : UInt64) : Nears n.toNat n.toFloat := by
  have hpacked : n.toFloat =
      packed (UnpackedFloat.normalize Format.binary64 n.toNat 0 .positive) := rfl
  rw [hpacked]
  rcases Nat.eq_zero_or_pos n.toNat with hzero | hpos
  · rw [hzero, Nat.cast_zero]
    exact nears_packed_zero .positive
  · have h := roundsTo_round .positive hpos 0
    rw [zpow_zero, mul_one] at h
    rw [normalize_natCast hpos]
    exact h.nears

/-- A whole number of 53 binary digits is a float. -/
theorem rounds_natCast {n : ℕ} (h : n < 2 ^ 53) : Rounds n n := by
  rcases Nat.eq_zero_or_pos n with rfl | hpos
  · exact_mod_cast rounds_zero
  · have hgrid : gridExponent (n * 2 ^ (0 : ℤ)) ≤ 0 := by
      rw [zpow_zero, mul_one]
      exact gridExponent_le (e := 53) (by exact_mod_cast hpos) (by exact_mod_cast h) (by norm_num)
    simpa using rounds_self hgrid

theorem hasValue_ofNat {n : ℕ} (h : n < 2 ^ 53) : HasValue (Float.ofNat n) n := by
  have hone : HasValue 1.0 1 :=
    hasValue_of_ofFloat (m := 2 ^ 52) (e := -52) (by decide) (by norm_num)
  have hfloat : Float.ofNat n = n.toUInt64.toFloat * 1.0 := by
    show Float.ofScientific n false 0 = _
    rw [Float.ofScientific, dif_pos ⟨h, Nat.zero_le _⟩]
    rfl
  have hlt : (n : ℚ) < 2 ^ (1024 : ℤ) :=
    lt_of_lt_of_le (b := 2 ^ (53 : ℤ)) (by exact_mod_cast h) (two_zpow_le (by norm_num))
  have hn : n.toUInt64.toNat = n := by
    rw [Nat.toUInt64_eq, UInt64.toNat_ofNat', Nat.mod_eq_of_lt (by omega)]
  have hvalue := (nears_toFloat n.toUInt64).hasValue
    (by rw [hn]; exact rounds_natCast h) (by rwa [hn])
  have hproduct := nears_mul hvalue hone
  rw [hn, mul_one] at hproduct
  rw [hfloat]
  exact hproduct.hasValue (rounds_natCast h) hlt

/-! ## Order -/

theorem float_le_iff (x y : Float) : x ≤ y ↔ x.toModel.unpack.le y.toModel.unpack = true := by
  show Float.le x y = true ↔ _
  unfold Float.le
  rw [decide_eq_true_iff]
  rfl

theorem float_lt_iff (x y : Float) : x < y ↔ x.toModel.unpack.lt y.toModel.unpack = true := by
  show Float.lt x y = true ↔ _
  unfold Float.lt
  rw [decide_eq_true_iff]
  rfl

theorem float_le_of_lt (h : x < y) : x ≤ y := by
  rw [float_lt_iff, UnpackedFloat.lt, beq_iff_eq] at h
  rw [float_le_iff, UnpackedFloat.le, h]
  rfl

/-- Floats are compared as the numbers that they are. -/
theorem IsMagnitude.compare_eq (hp : IsMagnitude u p) (hq : IsMagnitude v q) (hu : IsUnpacked u)
    (hv : IsUnpacked v) : u.compare v = some (compare p q) := by
  cases hp with
  | zero s =>
    cases hq with
    | zero s' => rw [compare_eq_iff_eq.mpr rfl]; rfl
    | finite => rw [compare_lt_iff_lt.mpr hv.1.value_pos]; rfl
  | @finite m e hm =>
    cases hq with
    | zero s' => rw [compare_gt_iff_gt.mpr hu.1.value_pos]; rfl
    | @finite m' e' hm' =>
      show some ((compare e e').then (compare m m')) = _
      congr 1
      rcases lt_trichotomy (m * 2 ^ e : ℚ) (m' * 2 ^ e') with h | h | h
      · rw [compare_lt_iff_lt.mpr h]
        rcases (hu.1.value_lt_iff hv.1).mp h with he | ⟨rfl, hm⟩
        · rw [compare_lt_iff_lt.mpr he]; rfl
        · rw [compare_eq_iff_eq.mpr rfl, compare_lt_iff_lt.mpr hm]; rfl
      · have he : e = e' := by rw [← hu.1.gridExponent_eq, h, hv.1.gridExponent_eq]
        subst he
        have hm : m = m' := by
          exact_mod_cast mul_right_cancel₀ (two_zpow_pos e).ne' h
        subst hm
        rw [compare_eq_iff_eq.mpr rfl, compare_eq_iff_eq.mpr rfl, compare_eq_iff_eq.mpr rfl]; rfl
      · rw [compare_gt_iff_gt.mpr h]
        rcases (hv.1.value_lt_iff hu.1).mp h with he | ⟨rfl, hm⟩
        · rw [compare_gt_iff_gt.mpr he]; rfl
        · rw [compare_eq_iff_eq.mpr rfl, compare_gt_iff_gt.mpr hm]; rfl

theorem HasValue.compare_eq (hx : HasValue x p) (hy : HasValue y q) :
    x.toModel.unpack.compare y.toModel.unpack = some (compare p q) :=
  IsMagnitude.compare_eq hx hy (isUnpacked x) (isUnpacked y)

theorem HasValue.le_iff (hx : HasValue x p) (hy : HasValue y q) : x ≤ y ↔ p ≤ q := by
  rw [float_le_iff, UnpackedFloat.le, hx.compare_eq hy]
  exact Std.LawfulBCmp.isLE_iff_le

theorem HasValue.lt_iff (hx : HasValue x p) (hy : HasValue y q) : x < y ↔ p < q := by
  rw [float_lt_iff, UnpackedFloat.lt, hx.compare_eq hy, ← compare_lt_iff_lt]
  simp

namespace IsMagnitude

theorem le_infinity (h : IsMagnitude u q) : u.le (.infinity .positive) = true := by
  cases h <;> rfl

theorem lt_infinity (h : IsMagnitude u q) : u.lt (.infinity .positive) = true := by
  cases h <;> rfl

theorem not_infinity_le (h : IsMagnitude u q) :
    ¬UnpackedFloat.le (.infinity .positive) u = true := by
  cases h <;> exact Bool.false_ne_true

end IsMagnitude

/-- A number that is rounded keeps its place in the order. -/
theorem Nears.le (hx : Nears p x) (hy : Nears q y) (hp : 0 ≤ p) (hle : p ≤ q) : x ≤ y := by
  cases hx with
  | @finite r hr hx =>
    cases hy with
    | finite hr' hy => exact (hx.le_iff hy).mpr (hr.mono hr' hp hle)
    | infinite hr' hlarge hy =>
      rw [float_le_iff, hy]
      exact IsMagnitude.le_infinity hx
  | infinite hr hlarge hx =>
    cases hy with
    | finite hr' hy =>
      exact absurd (hlarge.trans (hr.mono hr' hp hle)) (not_le.mpr (hy.lt_two_zpow (isUnpacked y)))
    | infinite hr' hlarge' hy =>
      rw [float_le_iff, hx, hy]
      rfl

/-! ## Floats that are not below zero -/

/-- The float is positive and infinite. -/
def IsInfinite (x : Float) : Prop := x.toModel.unpack = .infinity .positive

theorem unpack_zero : (0.0 : Float).toModel.unpack = .zero .positive := rfl

theorem hasValue_zero : HasValue 0.0 0 := .zero .positive

/-- A float that is not below zero is a number or infinite. -/
theorem zero_le_iff : 0.0 ≤ x ↔ (∃ q, HasValue x q) ∨ IsInfinite x := by
  rw [float_le_iff, unpack_zero]
  unfold HasValue IsInfinite
  generalize x.toModel.unpack = u
  cases u with
  | notANumber =>
    refine iff_of_false Bool.false_ne_true ?_
    rintro (⟨q, h⟩ | h) <;> cases h
  | infinity s =>
    cases s with
    | negative =>
      refine iff_of_false Bool.false_ne_true ?_
      rintro (⟨q, h⟩ | h) <;> cases h
    | positive => exact iff_of_true rfl (.inr rfl)
  | zero s => exact iff_of_true rfl (.inl ⟨0, .zero s⟩)
  | finite s m e hm =>
    cases s with
    | negative =>
      refine iff_of_false Bool.false_ne_true ?_
      rintro (⟨q, h⟩ | h) <;> cases h
    | positive => exact iff_of_true rfl (.inl ⟨_, .finite hm⟩)

theorem HasValue.nonneg (h : HasValue x q) : 0 ≤ q := IsMagnitude.nonneg h

theorem HasValue.zero_le (h : HasValue x q) : 0.0 ≤ x := zero_le_iff.mpr (.inl ⟨q, h⟩)

/-- Nothing is above an infinite float. -/
theorem IsInfinite.le (hy : IsInfinite y) (hx : 0.0 ≤ x) : x ≤ y := by
  rw [float_le_iff, hy]
  rcases zero_le_iff.mp hx with ⟨q, hx⟩ | hx
  · exact IsMagnitude.le_infinity hx
  · rw [hx]
    rfl

/-- An infinite float is above infinite ones only. -/
theorem IsInfinite.not_le (hx : IsInfinite x) (hy : HasValue y q) : ¬x ≤ y := by
  rw [float_le_iff, hx]
  exact IsMagnitude.not_infinity_le hy

theorem IsInfinite.lt (hy : IsInfinite y) (hx : HasValue x p) : x < y := by
  rw [float_lt_iff, hy]
  exact IsMagnitude.lt_infinity hx

theorem IsInfinite.mul (hx : IsInfinite x) (hy : HasValue y q) (hq : 0 < q) :
    IsInfinite (x * y) := by
  have hmul : x * y = packed (x.toModel.unpack.mul Format.binary64 y.toModel.unpack) := rfl
  have hinfinite : (packed (.infinity .positive)).toModel.unpack = .infinity .positive := rfl
  unfold HasValue at hy
  rw [IsInfinite] at hx
  rw [hmul, hx]
  generalize y.toModel.unpack = v at hy
  cases hy with
  | zero => exact absurd hq (lt_irrefl 0)
  | finite hm => exact hinfinite

theorem Nears.zero_le (h : Nears q x) : 0.0 ≤ x := by
  cases h with
  | finite h hx => exact hx.zero_le
  | infinite h hr hx => exact zero_le_iff.mpr (.inr hx)

theorem zero_le_mul (hx : 0.0 ≤ x) (hy : HasValue y q) (hq : 0 < q) : 0.0 ≤ x * y := by
  rcases zero_le_iff.mp hx with ⟨p, hx⟩ | hx
  · exact (nears_mul hx hy).zero_le
  · exact zero_le_iff.mpr (.inr (hx.mul hy hq))

theorem float_le_refl (hx : 0.0 ≤ x) : x ≤ x := by
  rcases zero_le_iff.mp hx with ⟨p, hp⟩ | hp
  · exact (hp.le_iff hp).mpr le_rfl
  · exact hp.le hx

theorem float_le_trans (hx : 0.0 ≤ x) (hy : 0.0 ≤ y) (hz : 0.0 ≤ z) (hxy : x ≤ y) (hyz : y ≤ z) :
    x ≤ z := by
  rcases zero_le_iff.mp hz with ⟨r, hz⟩ | hz
  · rcases zero_le_iff.mp hy with ⟨q, hy⟩ | hy
    · rcases zero_le_iff.mp hx with ⟨p, hx⟩ | hx
      · exact (hx.le_iff hz).mpr (((hx.le_iff hy).mp hxy).trans ((hy.le_iff hz).mp hyz))
      · exact absurd hxy (hx.not_le hy)
    · exact absurd hyz (hy.not_le hz)
  · exact hz.le hx

/-- Products keep the order of their factors. -/
theorem float_mul_le_mul (hx : 0.0 ≤ x) (hy : 0.0 ≤ y) (hxy : x ≤ y) {c d : Float}
    (hc : HasValue c p) (hd : HasValue d q) (hp : 0 < p) (hpq : p ≤ q) : x * c ≤ y * d := by
  rcases zero_le_iff.mp hy with ⟨b, hy⟩ | hy
  · rcases zero_le_iff.mp hx with ⟨a, hx⟩ | hx
    · have hab : a ≤ b := (hx.le_iff hy).mp hxy
      have ha : 0 ≤ a := hx.nonneg
      exact (nears_mul hx hc).le (nears_mul hy hd) (mul_nonneg ha hp.le)
        (mul_le_mul hab hpq hp.le (ha.trans hab))
    · exact absurd hxy (hx.not_le hy)
  · exact (hy.mul hd (hp.trans_le hpq)).le (zero_le_mul hx hc hp)

/-- A factor that is not below one makes nothing smaller. -/
theorem float_le_mul (hx : 0.0 ≤ x) (hy : HasValue y q) (hq : 1 ≤ q) : x ≤ x * y := by
  rcases zero_le_iff.mp hx with ⟨p, hx⟩ | hx'
  · exact hx.nears.le (nears_mul hx hy) hx.nonneg (le_mul_of_one_le_right hx.nonneg hq)
  · exact (hx'.mul hy (zero_lt_one.trans_le hq)).le hx

end Typeset
