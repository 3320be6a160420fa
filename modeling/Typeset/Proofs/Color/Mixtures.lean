import Typeset.Color.Basic
import Typeset.Proofs.Number.Defined

/-!
# Mixtures

The channels of a mixture are computed in binary64 and rounded to bytes.

* `Color.hasValue_clamp`: the share of a color is a number from zero to one, unless it is undefined.
* `Color.byte_eq_of_hasValue`: a number near a byte is rounded to it.
* `Color.mixChannel_self`: the errors of a mixture of two equal channels do not reach the byte.
* `Color.mix_of_not_isDefined`: a mixture by an undefined percentage has no color and no opacity.
* `Color.isOpaque_mix`: any other mixture of two opaque colors is opaque.
-/

namespace Typeset

/-- The nearest whole number of an exact binary fraction. -/
theorem Binary.nearest_eq {m n : ℕ} {e : ℤ} (h : |(m * 2 ^ e : ℚ) - n| < 1 / 2) :
    nearest m e = n := by
  rw [abs_lt] at h
  unfold nearest
  simp only [Nat.pow_eq]
  split
  · rename_i he
    obtain ⟨k, rfl⟩ := Int.eq_ofNat_of_zero_le he
    rw [zpow_natCast] at h
    have hlow : m * 2 ^ k < n + 1 := by
      have : ((m * 2 ^ k : ℕ) : ℚ) < (n + 1 : ℕ) := by push_cast; linarith
      exact_mod_cast this
    have hhigh : n < m * 2 ^ k + 1 := by
      have : (n : ℚ) < (m * 2 ^ k + 1 : ℕ) := by push_cast; linarith
      exact_mod_cast this
    rw [Int.toNat_natCast]
    omega
  · rename_i he
    obtain ⟨k, hk⟩ : ∃ k : ℕ, e = -(k + 1 : ℕ) := ⟨(-e).toNat - 1, by omega⟩
    subst hk
    have hpos : (0 : ℚ) < 2 ^ (k + 1) := by positivity
    have hq : (m : ℚ) = m * 2 ^ (-((k + 1 : ℕ) : ℤ)) * 2 ^ (k + 1) := by
      rw [zpow_neg, zpow_natCast, inv_mul_cancel_right₀ hpos.ne']
    have hhalf : (2 : ℚ) ^ (k + 1) = 2 * 2 ^ k := pow_succ' 2 k
    have hlow := mul_lt_mul_of_pos_right h.1 hpos
    have hhigh := mul_lt_mul_of_pos_right h.2 hpos
    rw [sub_mul, ← hq] at hlow hhigh
    rw [neg_neg, Int.toNat_natCast, Nat.add_sub_cancel]
    refine Nat.div_eq_of_lt_le ?_ ?_
    · have : ((n * 2 ^ (k + 1) : ℕ) : ℚ) < (m + 2 ^ k : ℕ) := by push_cast; linarith
      exact_mod_cast this.le
    · have : ((m + 2 ^ k : ℕ) : ℚ) < ((n + 1) * 2 ^ (k + 1) : ℕ) := by push_cast; linarith
      exact_mod_cast this

namespace Color

variable {v t : Float} {q : ℚ}

/-! ## Ranges and bytes -/

theorem hasValue_one : HasValue 1.0 1 := by exact_mod_cast hasValue_ofNat (n := 1) (by norm_num)

/-- A defined float is brought into the range from zero to one. -/
theorem hasValue_clamp (h : IsDefined v) : ∃ q, HasValue (clamp 0.0 1.0 v) q ∧ 0 ≤ q ∧ q ≤ 1 := by
  unfold clamp
  split
  · exact ⟨0, hasValue_zero, le_rfl, zero_le_one⟩
  · rename_i hlow
    split
    · exact ⟨1, hasValue_one, zero_le_one, le_rfl⟩
    · rename_i hhigh
      rcases zero_le_iff.mp (h.zero_le hlow) with ⟨q, hq⟩ | hinfinite
      · exact ⟨q, hq, hq.nonneg, not_lt.mp fun hlt => hhigh ((hasValue_one.lt_iff hq).mpr hlt)⟩
      · exact absurd (hinfinite.lt hasValue_one) hhigh

/-- An undefined float stays undefined. -/
theorem clamp_of_not_isDefined {low high : Float} (h : ¬IsDefined v) : clamp low high v = v := by
  rw [clamp, if_neg (not_lt_of_not_isDefined h).1, if_neg (not_lt_of_not_isDefined h).2]

/-- A number near a byte is rounded to it. -/
theorem byte_eq_of_hasValue (h : HasValue v q) {a : UInt8} (hq : |q - a.toNat| < 1 / 2) :
    byte v = a := by
  obtain ⟨negative, m, e, hfloat, rfl, hsign⟩ := h.ofFloat_eq
  have hnearest := Binary.nearest_eq hq
  rw [byte, hfloat]
  cases negative with
  | false =>
    have ha : a.toNat ≤ 255 := Nat.le_of_lt_succ a.toNat_lt
    simp only [hnearest, min_eq_right ha, UInt8.ofNat_toNat]
  | true =>
    -- A minus stands before zero only.
    obtain rfl := hsign rfl
    have hzero : a.toNat = 0 := by
      rw [Nat.cast_zero, zero_mul, zero_sub, abs_neg, Nat.abs_cast] at hq
      have : (a.toNat : ℚ) < (1 : ℕ) := by push_cast; linarith
      exact Nat.lt_one_iff.mp (by exact_mod_cast this)
    exact (UInt8.toNat_inj.mp hzero).symm

theorem byte_of_not_isDefined (h : ¬IsDefined v) : byte v = 0 := by
  rw [IsDefined, not_not] at h
  rw [byte, Binary.ofFloat_eq, h]
  rfl

/-! ## Mixtures of channels -/

/-- A mixture of two equal channels is the channel, whatever the share: the errors of the four
operations together are less than half. -/
theorem mixChannel_self (ht : HasValue t q) (h0 : 0 ≤ q) (h1 : q ≤ 1) (a : UInt8) :
    mixChannel t a a = a := by
  have ha : (a.toNat : ℚ) ≤ 255 := by exact_mod_cast Nat.le_of_lt_succ a.toNat_lt
  have ha0 : (0 : ℚ) ≤ a.toNat := Nat.cast_nonneg _
  have hchannel : HasValue (Float.ofNat a.toNat) a.toNat :=
    hasValue_ofNat (a.toNat_lt.trans (by norm_num))
  have hshare0 : 0 ≤ (a.toNat : ℚ) * q := mul_nonneg ha0 h0
  have hshare : (a.toNat : ℚ) * q ≤ 255 := (mul_le_of_le_one_right ha0 h1).trans ha
  obtain ⟨x, hx, hxerror⟩ := (nears_mul hchannel ht).exists_hasValue (e := 8)
    hshare0 (by norm_num; linarith) (by norm_num) (by norm_num)
  obtain ⟨s, hs, hserror⟩ := (nears_sub hasValue_one ht h1).exists_hasValue (e := 1)
    (by linarith) (by norm_num; linarith) (by norm_num) (by norm_num)
  -- The error of the rest is taken as often as the channel says.
  have hscaled : |(a.toNat : ℚ) * s - a.toNat * (1 - q)| ≤ 255 * 2 ^ (1 - 54 : ℤ) := by
    rw [← mul_sub, abs_mul, abs_of_nonneg ha0]
    exact mul_le_mul ha hserror (abs_nonneg _) (by norm_num)
  norm_num [abs_le] at hxerror hscaled
  have hrest : (a.toNat : ℚ) * s < 2 ^ (9 : ℤ) := by norm_num; linarith
  obtain ⟨y, hy, hyerror⟩ := (nears_mul hchannel hs).exists_hasValue (e := 9)
    (mul_nonneg ha0 hs.nonneg) hrest (by norm_num) (by norm_num)
  norm_num [abs_le] at hyerror
  obtain ⟨z, hz, hzerror⟩ := (nears_add hx hy).exists_hasValue (e := 10)
    (add_nonneg hx.nonneg hy.nonneg) (by norm_num; linarith) (by norm_num) (by norm_num)
  norm_num [abs_le] at hzerror
  refine byte_eq_of_hasValue hz ?_
  rw [abs_lt]
  constructor <;> linarith

theorem mixChannel_of_not_isDefined (h : ¬IsDefined t) (a b : UInt8) : mixChannel t a b = 0 :=
  byte_of_not_isDefined fun hsum => h hsum.of_add.1.of_mul.2

/-! ## Mixtures of colors -/

variable {c d : Color} {percent : Float}

theorem isDefined_share (h : IsDefined percent) : IsDefined (percent / 100.0) :=
  isDefined_div h rfl

/-- A mixture by an undefined percentage has no color and no opacity. -/
theorem mix_of_not_isDefined (h : ¬IsDefined percent) (c d : Color) :
    c.mix d percent = { r := 0, g := 0, b := 0, a := 0 } := by
  have hshare : ¬IsDefined (percent / 100.0) := fun hdefined => h hdefined.of_div.1
  simp only [mix, clamp_of_not_isDefined hshare, mixChannel_of_not_isDefined hshare]

/-- Two opaque colors have an opaque mixture. -/
theorem isOpaque_mix (h : IsDefined percent) (hc : c.IsOpaque) (hd : d.IsOpaque) :
    (c.mix d percent).IsOpaque := by
  obtain ⟨q, hq, h0, h1⟩ := hasValue_clamp (isDefined_share h)
  rw [IsOpaque] at *
  simp only [mix, hc, hd, mixChannel_self hq h0 h1]

end Color

end Typeset
