import Mathlib.Data.Rat.Lemmas
import Mathlib.Algebra.BigOperators.Group.List.Basic
import Mathlib.Algebra.Order.Ring.Unbundled.Rat
import Mathlib.Tactic.NormNum
import Typeset.Scalar

/-!
# Exact lengths

Over rational numbers the operations on lengths are those of an ordered field.

* `Scalar.zero_rat`: the literal of no length is zero.
* `Scalar.sum_rat`, `Scalar.larger_rat`, `Scalar.largest_cons_rat`: sums and largest lengths.
-/

namespace Typeset.Scalar

theorem zero_rat : (0.0 : Rat) = 0 := by norm_num

theorem isZero_zero_rat : isZero (0.0 : Rat) = true := by simp [isZero]

theorem sum_rat (xs : List Rat) : sum xs = xs.sum := by
  rw [sum, List.sum_eq_foldl, zero_rat]

theorem larger_rat (a b : Rat) : larger a b = max a b := by
  unfold larger instScalarRat
  simp only [max_def]
  split <;> split <;> grind

theorem largest_rat (start : Rat) (xs : List Rat) : largest start xs = xs.foldl max start := by
  have h : (larger : Rat → Rat → Rat) = max := by
    funext a b
    exact larger_rat a b
  rw [largest, h]

theorem largest_cons_rat (start x : Rat) (xs : List Rat) :
    largest start (x :: xs) = max x (largest start xs) := by
  rw [largest_rat, largest_rat, List.foldl_cons, max_comm, List.foldl_assoc]

theorem le_largest_rat (start : Rat) (xs : List Rat) : start ≤ largest start xs := by
  induction xs with
  | nil => rfl
  | cons x xs ih =>
    rw [largest_cons_rat]
    exact le_max_of_le_right ih

theorem le_largest_of_mem {start x : Rat} {xs : List Rat} (h : x ∈ xs) : x ≤ largest start xs := by
  induction xs with
  | nil => cases h
  | cons y ys ih =>
    rw [largest_cons_rat]
    rcases List.mem_cons.mp h with rfl | h
    · exact le_max_left _ _
    · exact (ih h).trans (le_max_right _ _)

theorem ofNat_rat (n : Nat) : (ofNat n : Rat) = n := by
  show Rat.ofScientific n false 0 = n
  rw [Rat.ofScientific_false_def, Nat.pow_zero, Nat.mul_one]

end Typeset.Scalar
