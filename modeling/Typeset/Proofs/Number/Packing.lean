import Typeset.Number.Binary
import Typeset.Proofs.Number.Unpacked

/-!
# Packed floats

The 64 bits of a float, against the unpacked float that arithmetic works on.

* `Unpacks`, `unpacks_unpack`: the five things that a sign, an exponent and a mantissa stand for.
* `isUnpacked_unpack`: what unpacking gives is in the form that comparisons rely on.
* `unpack_pack`: packing keeps an unpacked float in that form, and makes it infinite if its exponent
  is too large.
* `Binary.ofFloat_eq`: the exact number that a float is, from the unpacked float.
-/

namespace Typeset

open Float.Model (UnpackedFloat Format)
open Float.Model.UnpackedFloat

/-! ## Bits -/

theorem toNat_append {v w : ℕ} (x : BitVec v) (y : BitVec w) :
    (x ++ y).toNat = 2 ^ w * x.toNat + y.toNat := by
  rw [BitVec.toNat_append, Nat.shiftLeft_eq, Nat.mul_comm, Nat.two_pow_add_eq_or_of_lt y.isLt]

theorem eq_zero_iff_toNat {w : ℕ} {x : BitVec w} : x = 0#_ ↔ x.toNat = 0 := by
  rw [← BitVec.toNat_inj, BitVec.toNat_ofNat, Nat.zero_mod]

/-- The largest exponent marks what is no finite number. -/
theorem eq_neg_one_iff_toNat {e : BitVec 11} : e = -1#_ ↔ e.toNat = 2047 := by
  rw [← BitVec.toNat_inj]
  rfl

theorem exponentBias_eq : ((Format.binary64.exponentBias : ℤ) + (52 : ℕ)) = 1075 := rfl

section

variable (b : BitVec 64)

theorem toNat_unpackMantissa :
    (@unpackMantissa Format.binary64 b).toNat = b.toNat % 2 ^ 52 := by
  show (BitVec.extractLsb 51 0 b).toNat = _
  simp

theorem toNat_unpackExponent :
    (@unpackExponent Format.binary64 b).toNat = b.toNat / 2 ^ 52 % 2 ^ 11 := by
  show (BitVec.extractLsb 62 52 b).toNat = _
  simp [Nat.shiftRight_eq_div_pow]

theorem toNat_unpackSign :
    (@unpackSign Format.binary64 b).toNat = b.toNat / 2 ^ 63 % 2 := by
  show (BitVec.extractLsb 63 63 b).toNat = _
  simp [Nat.shiftRight_eq_div_pow]

end

/-- The sign is the first of the bits that are put together. -/
theorem sign_packComponents (s : Sign) (e : BitVec 11) (m : BitVec 52) :
    Sign.ofBitVec (@unpackSign Format.binary64 (packComponents Format.binary64 s e m)) = s := by
  have hbits : @unpackSign Format.binary64 (packComponents Format.binary64 s e m) = s.toBitVec := by
    have hs : s.toBitVec.toNat < 2 := s.toBitVec.isLt
    have he : e.toNat < 2 ^ 11 := e.isLt
    have hm : m.toNat < 2 ^ 52 := m.isLt
    apply BitVec.eq_of_toNat_eq
    rw [toNat_unpackSign, packComponents, toNat_append, toNat_append]
    omega
  rw [hbits]
  cases s <;> rfl

/-! ## Unpacking -/

/-- What a sign, an exponent of eleven bits and a mantissa of 52 bits stand for. -/
inductive Unpacks (s : Sign) (e m : ℕ) : UnpackedFloat → Prop
  | infinity (he : e = 2047) (hm : m = 0) : Unpacks s e m (.infinity s)
  | notANumber (he : e = 2047) (hm : m ≠ 0) : Unpacks s e m .notANumber
  | zero (he : e = 0) (hm : m = 0) : Unpacks s e m (.zero s)
  | subnormal (he : e = 0) (hm : 0 < m) : Unpacks s e m (.finite s m (-1074) hm)
  | normal (he : e ≠ 2047) (he' : e ≠ 0) {n : ℕ} {d : ℤ} (hn : n = 2 ^ 52 + m)
    (hd : d = e - 1075) (hpos : 0 < n) : Unpacks s e m (.finite s n d hpos)

theorem unpacks_unpack (b : BitVec 64) :
    Unpacks (Sign.ofBitVec (@unpackSign Format.binary64 b))
      (@unpackExponent Format.binary64 b).toNat (@unpackMantissa Format.binary64 b).toNat
      (UnpackedFloat.unpack Format.binary64 b) := by
  unfold UnpackedFloat.unpack
  dsimp only
  by_cases hlast : @unpackExponent Format.binary64 b = -1#_
  · rw [if_pos hlast]
    have he := eq_neg_one_iff_toNat.mp hlast
    by_cases hzero : @unpackMantissa Format.binary64 b = 0#_
    · rw [if_pos hzero]
      exact .infinity he (eq_zero_iff_toNat.mp hzero)
    · rw [if_neg hzero]
      exact .notANumber he (eq_zero_iff_toNat.not.mp hzero)
  · rw [if_neg hlast]
    by_cases hfirst : @unpackExponent Format.binary64 b = 0#_
    · rw [if_pos hfirst]
      have he := eq_zero_iff_toNat.mp hfirst
      by_cases hzero : @unpackMantissa Format.binary64 b = 0#_
      · rw [dif_pos hzero]
        exact .zero he (eq_zero_iff_toNat.mp hzero)
      · rw [dif_neg hzero, hfirst]
        exact .subnormal rfl (Nat.pos_of_ne_zero (eq_zero_iff_toNat.not.mp hzero))
    · rw [if_neg hfirst]
      exact .normal (eq_neg_one_iff_toNat.not.mp hlast) (eq_zero_iff_toNat.not.mp hfirst)
        (toNat_append _ _) rfl _

/-- What the parts stand for that are put together. -/
theorem unpacks_packComponents (s : Sign) (e : BitVec 11) (m : BitVec 52) :
    Unpacks s e.toNat m.toNat
      (UnpackedFloat.unpack Format.binary64 (packComponents Format.binary64 s e m)) := by
  have h := unpacks_unpack (packComponents Format.binary64 s e m)
  rwa [sign_packComponents, unpackExponent_packComponents, unpackMantissa_packComponents] at h

/-- The unpacked float is one that 64 bits can hold, in the form that comparisons rely on. -/
def IsUnpacked : UnpackedFloat → Prop
  | .finite _ m e _ => Canonical m e ∧ e ≤ 971
  | .infinity _ | .notANumber | .zero _ => True

theorem isUnpacked_unpack (b : BitVec 64) :
    IsUnpacked (UnpackedFloat.unpack Format.binary64 b) := by
  have hm : (@unpackMantissa Format.binary64 b).toNat < 2 ^ 52 :=
    (@unpackMantissa Format.binary64 b).isLt
  have he : (@unpackExponent Format.binary64 b).toNat < 2 ^ 11 :=
    (@unpackExponent Format.binary64 b).isLt
  have h := unpacks_unpack b
  generalize UnpackedFloat.unpack Format.binary64 b = u at h ⊢
  cases h with
  | infinity | notANumber | zero => trivial
  | subnormal _ hpos => exact ⟨⟨hpos, by omega, le_rfl, .inr rfl⟩, by norm_num⟩
  | normal hlast hfirst hn hd hpos =>
    exact ⟨⟨hpos, by omega, by omega, .inl (by omega)⟩, by omega⟩

/-! ## Packing -/

section

variable {s : Sign} {m : ℕ} {e : ℤ} (hm : 0 < m)

/-- The first of 53 digits is not packed. -/
theorem unpack_packComponents_normal (hge : 2 ^ 52 ≤ m) (hlt : m < 2 ^ 53) (he : -1074 ≤ e)
    (he' : e ≤ 971) :
    UnpackedFloat.unpack Format.binary64 (packComponents Format.binary64 s
      (BitVec.ofNat 11 (e + 1075).toNat) (BitVec.ofNat 52 m)) = .finite s m e hm := by
  have h := unpacks_packComponents s (BitVec.ofNat 11 (e + 1075).toNat) (BitVec.ofNat 52 m)
  rw [BitVec.toNat_ofNat, BitVec.toNat_ofNat] at h
  generalize UnpackedFloat.unpack Format.binary64 _ = u at h ⊢
  cases h with
  | infinity he | notANumber he | zero he | subnormal he => omega
  | @normal _ _ n d hn hd hpos =>
    obtain rfl : n = m := by omega
    obtain rfl : d = e := by omega
    rfl

theorem unpack_packComponents_subnormal (hlt : m < 2 ^ 52) :
    UnpackedFloat.unpack Format.binary64 (packComponents Format.binary64 s 0#_
      (BitVec.ofNat 52 m)) = .finite s m (-1074) hm := by
  have h := unpacks_packComponents s 0#11 (BitVec.ofNat 52 m)
  rw [BitVec.toNat_ofNat, BitVec.toNat_ofNat, Nat.mod_eq_of_lt hlt, Nat.zero_mod] at h
  generalize UnpackedFloat.unpack Format.binary64 _ = u at h ⊢
  cases h with
  | subnormal => rfl
  | infinity he hm | notANumber he hm | zero he hm | normal he he' => omega

end

/-- The unpacked float, or an infinite one if its exponent is too large. -/
def clipped : UnpackedFloat → UnpackedFloat
  | .finite s m e h => if 971 < e then .infinity s else .finite s m e h
  | u => u

theorem clipped_finite (s : Sign) {m : ℕ} (e : ℤ) (hm : 0 < m) :
    clipped (.finite s m e hm) = if 971 < e then .infinity s else .finite s m e hm := rfl

theorem IsUnpacked.clipped_eq {u : UnpackedFloat} (h : IsUnpacked u) : clipped u = u := by
  cases u with
  | finite s m e hm => exact if_neg (not_lt.mpr h.2)
  | _ => rfl

theorem pack_finite (s : Sign) {m : ℕ} (hm : 0 < m) (e : ℤ) :
    UnpackedFloat.pack Format.binary64 (.finite s m e hm) =
      if 2 ^ 11 ≤ (e + 1075).toNat + 1 then packedInfinity Format.binary64 s
      else if m.log2 + 1 = 53 then
        packComponents Format.binary64 s (BitVec.ofNat 11 (e + 1075).toNat) (BitVec.ofNat 52 m)
      else packComponents Format.binary64 s 0#11 (BitVec.ofNat 52 m) := by
  rw [← exponentBias_eq, ← add_assoc]
  rfl

/-- Packing keeps a float in canonical form, as far as its exponent goes. -/
theorem unpack_pack_finite {s : Sign} {m : ℕ} {e : ℤ} (hc : Canonical m e) :
    UnpackedFloat.unpack Format.binary64
        (UnpackedFloat.pack Format.binary64 (.finite s m e hc.pos)) =
      clipped (.finite s m e hc.pos) := by
  have hge := hc.exponent_ge
  rw [pack_finite, clipped_finite]
  by_cases hlarge : 971 < e
  · rw [if_pos (by omega), if_pos hlarge]
    cases s <;> rfl
  · rw [if_neg (by omega), if_neg hlarge]
    by_cases hm : 2 ^ 52 ≤ m
    · have hlow : 52 ≤ m.log2 := (Nat.le_log2 hc.pos.ne').mpr hm
      have hhigh : m.log2 < 53 := (Nat.log2_lt hc.pos.ne').mpr hc.lt
      rw [if_pos (by omega)]
      exact unpack_packComponents_normal hc.pos hm hc.lt hge (by omega)
    · have hlow : m.log2 < 52 := (Nat.log2_lt hc.pos.ne').mpr (by omega)
      rw [if_neg (by omega)]
      obtain rfl : e = -1074 := hc.full.resolve_left hm
      exact unpack_packComponents_subnormal hc.pos (by omega)

/-- A packed float is the unpacked one, for what unpacking gives. -/
theorem unpack_pack {u : UnpackedFloat} (h : IsUnpacked u) :
    UnpackedFloat.unpack Format.binary64 (UnpackedFloat.pack Format.binary64 u) = u := by
  cases u with
  | notANumber => rfl
  | infinity s | zero s => cases s <;> rfl
  | finite s m e hm => rw [unpack_pack_finite h.1, h.clipped_eq]

/-! ## Exact numbers -/

/-- The sign is a minus. -/
def isNegative : Sign → Bool
  | .negative => true
  | .positive => false

namespace Binary

/-- The exact number that an unpacked float is. -/
def ofUnpacked : UnpackedFloat → Binary
  | .notANumber => .undefined
  | .infinity s => .infinite (isNegative s)
  | .zero s => .finite (isNegative s) 0 (-1074)
  | .finite s m e _ => .finite (isNegative s) m e

theorem ofBits_eq (b : BitVec 64) :
    ofBits b.toNat = ofUnpacked (UnpackedFloat.unpack Format.binary64 b) := by
  have hsign : isNegative (Sign.ofBitVec (@unpackSign Format.binary64 b)) =
      (b.toNat / 2 ^ 63 % 2 == 1) := by
    rw [← toNat_unpackSign]
    generalize @unpackSign Format.binary64 b = s
    revert s
    decide
  have h := unpacks_unpack b
  rw [toNat_unpackExponent, toNat_unpackMantissa] at h
  unfold ofBits
  simp only [Nat.pow_eq, ← hsign]
  generalize b.toNat / 2 ^ 52 % 2 ^ 11 = e, b.toNat % 2 ^ 52 = m,
    UnpackedFloat.unpack Format.binary64 b = u at h ⊢
  cases h with
  | infinity he hm => rw [if_pos he, if_pos hm]; rfl
  | notANumber he hm => rw [if_pos he, if_neg hm]; rfl
  | zero he hm => rw [if_neg (by omega), if_pos he, hm]; rfl
  | subnormal he hm => rw [if_neg (by omega), if_pos he]; rfl
  | normal he he' hn hd hpos =>
    subst hn hd
    rw [if_neg he, if_neg he']
    rfl

/-- The exact number that a float is. -/
theorem ofFloat_eq (x : Float) : ofFloat x = ofUnpacked x.toModel.unpack := ofBits_eq _

end Binary

end Typeset
