import Typeset.Number.Numeral
import Typeset.Number.Shortest

/-!
# Lengths

Explicit lengths as markup writes them: an exact decimal and a unit of two letters. A length
becomes points where it is used; `em`, `ex` and `mu` follow the font size there.
-/

namespace Typeset

/-- Height of a lowercase `x`, in em. -/
def xHeightEm {α : Type} [Scalar α] : α := 0.431

/-- A unit of length. -/
inductive LengthUnit where
  /-- Printer's point, 72.27 to the inch. -/
  | pt
  /-- The font size. -/
  | em
  /-- The height of a lowercase `x`. -/
  | ex
  /-- The eighteenth part of an em. -/
  | mu
  /-- Pixel, 96 to the inch. -/
  | px
  | cm
  | mm
  | inch
  /-- Big point, 72 to the inch. -/
  | bp
  /-- Pica, twelve points. -/
  | pc
  deriving DecidableEq, Repr

namespace LengthUnit

/-- The letters of a unit. -/
def suffix : LengthUnit → String
  | pt => "pt" | em => "em" | ex => "ex" | mu => "mu" | px => "px"
  | cm => "cm" | mm => "mm" | inch => "in" | bp => "bp" | pc => "pc"

/-- The unit of two letters. -/
def ofSuffix? : List Char → Option LengthUnit
  | ['p', 't'] => some pt
  | ['e', 'm'] => some em
  | ['e', 'x'] => some ex
  | ['m', 'u'] => some mu
  | ['p', 'x'] => some px
  | ['c', 'm'] => some cm
  | ['m', 'm'] => some mm
  | ['i', 'n'] => some inch
  | ['b', 'p'] => some bp
  | ['p', 'c'] => some pc
  | _ => none

/-- Each unit is read back from its letters. -/
theorem ofSuffix?_suffix (u : LengthUnit) : ofSuffix? u.suffix.toList = some u := by
  cases u <;> rfl

/-- One unit in points, where the font size is `size` points. -/
def points {α : Type} [Scalar α] (size : α) : LengthUnit → α
  | pt => 1.0
  | em => size
  | ex => xHeightEm * size
  | mu => size / 18.0
  | px => 72.27 / 96.0
  | cm => 72.27 / 2.54
  | mm => 72.27 / 25.4
  | inch => 72.27
  | bp => 72.27 / 72.0
  | pc => 12.0

/-- The unit follows the font size. -/
def IsRelative : LengthUnit → Prop
  | em | ex | mu => True
  | _ => False

end LengthUnit

/-- A signed length with its unit. -/
structure Length where
  value : Decimal
  unit : LengthUnit
  deriving DecidableEq, Repr

namespace Length

/-- No length. -/
def zero : Length := ⟨.ofNat 0, .pt⟩

/-- A length in math units. -/
def mu (n : Nat) : Length := ⟨.ofNat n, .mu⟩

/-- A length in math units to the left. -/
def negMu (n : Nat) : Length := ⟨.negOfNat n, .mu⟩

/-- The length in points, where the font size is `size` points. -/
def points {α : Type} [Scalar α] (size : α) (l : Length) : α := l.value.value * l.unit.points size

/-- A length is a decimal without exponent and the two letters of a unit; blanks may stand around
it and between them. -/
def read? (cs : List Char) : Option Length := do
  let (value, rest) ← Decimal.read? (Text.trim cs)
  let unit ← LengthUnit.ofSuffix? (Text.trimStart Text.isBlank rest)
  return { value, unit }

/-- The written form of a length. -/
def text (l : Length) : String := shortestText l.value.value ++ l.unit.suffix

end Length

end Typeset
