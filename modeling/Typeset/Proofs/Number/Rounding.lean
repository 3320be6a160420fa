import Mathlib.Algebra.Order.Round
import Mathlib.Algebra.Order.Field.Power
import Mathlib.Data.Int.Log
import Mathlib.Data.Rat.Floor
import Mathlib.Tactic.Linarith
import Mathlib.Tactic.NormNum
import Mathlib.Tactic.Positivity
import Mathlib.Tactic.Ring

/-!
# Rounding to binary64

The number that binary64 has for an exact one that is not negative: the nearest multiple of a power
of two, the even one of two that are as near. The power leaves 53 binary digits, and is never below
`2 ^ -1074`. What is beyond the largest number of the format is not looked at here.

* `IsNearestEven`: the whole number nearest to a fraction; a half goes to the even neighbour.
* `gridExponent`: the power of two whose multiples a number is rounded to.
* `Rounds`: a number is rounded to another one.
* `Rounds.mono`, `Rounds.dist_le`, `rounds_self`: rounding keeps the order, moves a number by half
  a unit at most, and leaves the numbers of the format as they are.
-/

namespace Typeset

/-! ## Whole numbers -/

/-- The whole number is the nearest one to `x`, and even if it is a half away. -/
structure IsNearestEven (x : ℚ) (n : ℕ) : Prop where
  le_add : (n : ℚ) ≤ x + 1 / 2
  sub_le : x - 1 / 2 ≤ n
  even_of_add : (n : ℚ) = x + 1 / 2 → Even n
  even_of_sub : (n : ℚ) = x - 1 / 2 → Even n

namespace IsNearestEven

variable {x y : ℚ} {n m : ℕ}

theorem natCast (n : ℕ) : IsNearestEven n n where
  le_add := by linarith
  sub_le := by linarith
  even_of_add h := by linarith
  even_of_sub h := by linarith

theorem mono (hn : IsNearestEven x n) (hm : IsNearestEven y m) (h : x ≤ y) : n ≤ m := by
  by_contra hlt
  have hle : (m : ℚ) + 1 ≤ n := by exact_mod_cast Nat.lt_of_not_le hlt
  have hn' := hn.le_add
  have hm' := hm.sub_le
  -- Both are a half away from the same number, so both are even, and they are neighbours.
  have hnm : n = m + 1 := by
    have : (n : ℚ) = m + 1 := by linarith
    exact_mod_cast this
  have heven : Even n := hn.even_of_add (by linarith)
  have heven' : Even m := hm.even_of_sub (by linarith)
  rw [hnm, Nat.even_add_one] at heven
  exact heven heven'

theorem unique (hn : IsNearestEven x n) (hm : IsNearestEven x m) : n = m :=
  Nat.le_antisymm (hn.mono hm le_rfl) (hm.mono hn le_rfl)

/-- A whole number below `x` is not above the nearest one. -/
theorem le_of_natCast_le (hn : IsNearestEven x n) (h : (m : ℚ) ≤ x) : m ≤ n :=
  (natCast m).mono hn h

theorem le_of_le_natCast (hn : IsNearestEven x n) (h : x ≤ m) : n ≤ m := hn.mono (natCast m) h

end IsNearestEven

/-! ## The grid -/

/-- The power of two whose multiples a number is rounded to. -/
def gridExponent (q : ℚ) : ℤ := max (Int.log 2 q - 52) (-1074)

section

variable {q r : ℚ}

theorem two_zpow_pos (e : ℤ) : (0 : ℚ) < 2 ^ e := zpow_pos (by norm_num) e

theorem two_zpow_le {d e : ℤ} (h : d ≤ e) : (2 : ℚ) ^ d ≤ 2 ^ e :=
  zpow_le_zpow_right₀ (by norm_num) h

theorem two_zpow_add (d e : ℤ) : (2 : ℚ) ^ (d + e) = 2 ^ d * 2 ^ e := zpow_add₀ (by norm_num) d e

theorem exists_two_zpow_eq_mul {d e : ℤ} (h : d ≤ e) :
    ∃ k : ℕ, (2 : ℚ) ^ e = (2 ^ k : ℕ) * 2 ^ d := by
  obtain ⟨k, hk⟩ := Int.eq_ofNat_of_zero_le (Int.sub_nonneg.mpr h)
  refine ⟨k, ?_⟩
  rw [Nat.cast_pow, Nat.cast_ofNat, ← zpow_natCast, ← two_zpow_add]
  congr 1
  omega

theorem gridExponent_mono (hq : 0 < q) (h : q ≤ r) : gridExponent q ≤ gridExponent r :=
  max_le_max_right _ (by have := Int.log_mono_right (b := 2) hq h; omega)

/-- There are at most 53 binary digits before the grid. -/
theorem lt_two_zpow_gridExponent (q : ℚ) : q < 2 ^ (gridExponent q + 53) := by
  have h := Int.lt_zpow_succ_log_self (b := 2) (by norm_num) q
  refine lt_of_lt_of_le (by exact_mod_cast h) (two_zpow_le ?_)
  have := le_max_left (Int.log 2 q - 52) (-1074)
  rw [gridExponent]
  omega

/-- Above the least exponent there are 53 binary digits before the grid. -/
theorem two_zpow_gridExponent_le (hq : 0 < q) (h : gridExponent q ≠ -1074) :
    2 ^ (gridExponent q + 52) ≤ q := by
  have hlog : gridExponent q = Int.log 2 q - 52 := by
    rw [gridExponent] at h ⊢
    omega
  rw [hlog, Int.sub_add_cancel]
  exact_mod_cast Int.zpow_log_le_self (b := 2) (by norm_num) hq

/-- The grid of a number that lies below a power of two. -/
theorem gridExponent_le {e : ℤ} (hq : 0 < q) (h : q < 2 ^ e) (he : -1021 ≤ e) :
    gridExponent q ≤ e - 53 := by
  have hlog : Int.log 2 q < e := (Int.lt_zpow_iff_log_lt (by norm_num) hq).mp (by exact_mod_cast h)
  rw [gridExponent]
  omega

/-! ## Rounding -/

/-- The number `q`, which is not negative, is rounded to `r`. -/
def Rounds (q r : ℚ) : Prop :=
  ∃ n : ℕ, IsNearestEven (q / 2 ^ gridExponent q) n ∧ r = n * 2 ^ gridExponent q

theorem Rounds.nonneg (h : Rounds q r) : 0 ≤ r := by
  obtain ⟨n, -, rfl⟩ := h
  have := two_zpow_pos (gridExponent q)
  positivity

/-- No power of two at or above the grid lies between a number and what it is rounded to. -/
theorem Rounds.le_two_zpow {e : ℤ} (h : Rounds q r) (hq : q ≤ 2 ^ e) (he : gridExponent q ≤ e) :
    r ≤ 2 ^ e := by
  obtain ⟨n, hn, rfl⟩ := h
  obtain ⟨k, hk⟩ := exists_two_zpow_eq_mul he
  have hpos := two_zpow_pos (gridExponent q)
  rw [hk] at hq ⊢
  have hle : n ≤ 2 ^ k := hn.le_of_le_natCast ((div_le_iff₀ hpos).mpr hq)
  exact mul_le_mul_of_nonneg_right (by exact_mod_cast hle) hpos.le

theorem Rounds.two_zpow_le {e : ℤ} (h : Rounds q r) (hq : 2 ^ e ≤ q) (he : gridExponent q ≤ e) :
    2 ^ e ≤ r := by
  obtain ⟨n, hn, rfl⟩ := h
  obtain ⟨k, hk⟩ := exists_two_zpow_eq_mul he
  have hpos := two_zpow_pos (gridExponent q)
  rw [hk] at hq ⊢
  have hle : 2 ^ k ≤ n := hn.le_of_natCast_le ((le_div_iff₀ hpos).mpr hq)
  exact mul_le_mul_of_nonneg_right (by exact_mod_cast hle) hpos.le

theorem rounds_zero : Rounds 0 0 := ⟨0, by simpa using IsNearestEven.natCast 0, by simp⟩

theorem Rounds.unique {r' : ℚ} (h : Rounds q r) (h' : Rounds q r') : r = r' := by
  obtain ⟨n, hn, rfl⟩ := h
  obtain ⟨n', hn', rfl⟩ := h'
  rw [hn.unique hn']

/-- Rounding keeps the order. -/
theorem Rounds.mono {q' r' : ℚ} (h : Rounds q r) (h' : Rounds q' r') (hq : 0 ≤ q) (hle : q ≤ q') :
    r ≤ r' := by
  rcases hq.eq_or_lt with rfl | hq
  · rw [h.unique rounds_zero]
    exact h'.nonneg
  rcases (gridExponent_mono hq hle).eq_or_lt with he | hlt
  · obtain ⟨n, hn, rfl⟩ := h
    obtain ⟨n', hn', rfl⟩ := h'
    rw [← he] at hn' ⊢
    have hpos := two_zpow_pos (gridExponent q)
    have : n ≤ n' := hn.mono hn' (div_le_div_of_nonneg_right hle hpos.le)
    exact mul_le_mul_of_nonneg_right (by exact_mod_cast this) hpos.le
  · -- A power of two separates numbers that are rounded to different grids.
    have hge : -1074 ≤ gridExponent q := le_max_right _ _
    calc r ≤ 2 ^ (gridExponent q + 53) :=
          h.le_two_zpow (lt_two_zpow_gridExponent q).le (by omega)
      _ ≤ 2 ^ (gridExponent q' + 52) := Typeset.two_zpow_le (by omega)
      _ ≤ r' := h'.two_zpow_le (two_zpow_gridExponent_le (hq.trans_le hle) (by omega)) (by omega)

/-- Rounding moves a number by half a unit of the grid at most. -/
theorem Rounds.dist_le (h : Rounds q r) : |r - q| ≤ 2 ^ gridExponent q / 2 := by
  obtain ⟨n, hn, rfl⟩ := h
  have hpos := two_zpow_pos (gridExponent q)
  have hq : q = q / 2 ^ gridExponent q * 2 ^ gridExponent q := by field_simp
  have hle := mul_le_mul_of_nonneg_right hn.le_add hpos.le
  have hge := mul_le_mul_of_nonneg_right hn.sub_le hpos.le
  rw [abs_le]
  constructor <;> linarith

/-- A number below `2 ^ e` is moved by at most `2 ^ (e - 54)`. -/
theorem Rounds.dist_le_of_lt {e : ℤ} (h : Rounds q r) (hq : 0 ≤ q) (hlt : q < 2 ^ e)
    (he : -1021 ≤ e) : |r - q| ≤ 2 ^ (e - 54) := by
  rcases hq.eq_or_lt with rfl | hpos
  · rw [h.unique rounds_zero, sub_zero, abs_zero]
    exact (two_zpow_pos _).le
  · refine h.dist_le.trans ?_
    have hgrid : (2 : ℚ) ^ gridExponent q ≤ 2 ^ (e - 53) :=
      Typeset.two_zpow_le (gridExponent_le hpos hlt he)
    have hhalf : (2 : ℚ) ^ (e - 53) = 2 ^ (e - 54) * 2 := by
      rw [show e - 53 = e - 54 + 1 by ring, two_zpow_add, zpow_one]
    linarith

/-- A multiple of the grid stays as it is. -/
theorem rounds_self {n : ℕ} {e : ℤ} (h : gridExponent (n * 2 ^ e) ≤ e) :
    Rounds (n * 2 ^ e) (n * 2 ^ e) := by
  obtain ⟨k, hk⟩ := exists_two_zpow_eq_mul h
  have hne := (two_zpow_pos (gridExponent (n * 2 ^ e))).ne'
  have hq : (n * 2 ^ e : ℚ) / 2 ^ gridExponent (n * 2 ^ e) = (n * 2 ^ k : ℕ) := by
    rw [div_eq_iff hne, Nat.cast_mul, mul_assoc, ← hk]
  refine ⟨n * 2 ^ k, hq ▸ .natCast _, ?_⟩
  rw [← hq, div_mul_cancel₀ _ hne]

end

end Typeset
