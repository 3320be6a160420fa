/-!
# Scalars

Layout computes with lengths in points. Everything that measures is written once, for any type
of lengths with the operations of `Scalar`:

* `Float`: what the program runs on; every operation rounds to binary64.
* `Rat`: exact lengths, the setting of the laws of placement.

A constant of a placement rule is a decimal literal and is rounded once, when it is read.
-/

namespace Typeset

/-- The operations that layout needs of a type of lengths. -/
class Scalar (α : Type) extends Add α, Sub α, Mul α, Div α, Neg α, LT α, LE α, OfScientific α where
  /-- Two lengths can be compared strictly. -/
  decLt : ∀ a b : α, Decidable (a < b)
  /-- Two lengths can be compared. -/
  decLe : ∀ a b : α, Decidable (a ≤ b)
  /-- The larger of two lengths; an undefined length gives way to the other one. -/
  larger : α → α → α
  /-- The length is a number, and not beyond the largest one. -/
  isFinite : α → Bool

namespace Scalar

variable {α : Type} [Scalar α]

instance (a b : α) : Decidable (a < b) := decLt a b

instance (a b : α) : Decidable (a ≤ b) := decLe a b

/-- A natural number as a length. -/
def ofNat (n : Nat) : α := OfScientific.ofScientific n false 0

/-- `n` thousandths. -/
def thousandths (n : Nat) : α := OfScientific.ofScientific n true 3

/-- The length is zero. -/
def isZero (a : α) : Bool := decide (a ≤ 0.0) && decide (0.0 ≤ a)

/-- The sum of a list of lengths, added up from the left. -/
def sum (xs : List α) : α := xs.foldl (· + ·) 0.0

/-- The largest of a list of lengths and `start`. -/
def largest (start : α) (xs : List α) : α := xs.foldl larger start

end Scalar

instance : Scalar Float where
  decLt _ _ := inferInstance
  decLe _ _ := inferInstance
  larger a b := if a < b then b else if a.isNaN then b else a
  isFinite := Float.isFinite

instance : Scalar Rat where
  decLt _ _ := inferInstance
  decLe _ _ := inferInstance
  larger a b := if a < b then b else a
  isFinite _ := true

end Typeset
