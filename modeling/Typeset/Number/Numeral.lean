import Typeset.Scalar
import Typeset.Text

/-!
# Numerals

* `Decimal`: an exact decimal fraction, as markup and tables of constants write it.
* `Numeral`: a decimal, an infinity or the undefined number, as a free-form number may be.
* `Numeral.read?`: digits with an optional sign, point and exponent, or one of the words `inf`,
  `infinity` and `nan` in any case.

A numeral is kept exact and becomes a length only where it is used (`Decimal.value`).
-/

namespace Typeset

/-- The number `± digits · 10 ^ exponent`. -/
structure Decimal where
  negative : Bool := false
  digits : Nat
  exponent : Int := 0
  deriving DecidableEq, Repr

namespace Decimal

/-- The length nearest to a decimal. -/
def value {α : Type} [Scalar α] (d : Decimal) : α :=
  let m : α := OfScientific.ofScientific d.digits (decide (d.exponent < 0)) d.exponent.natAbs
  if d.negative then -m else m

/-- A whole number. -/
def ofNat (n : Nat) : Decimal := { digits := n }

/-- A whole number below zero. -/
def negOfNat (n : Nat) : Decimal := { negative := true, digits := n }

/-- Digits with an optional point among or beside them: their number without the point, the
count of places after it, and what follows. -/
def readUnsigned? (cs : List Char) : Option (Nat × Nat × List Char) :=
  let whole := cs.takeWhile Char.isDigit
  match cs.dropWhile Char.isDigit with
  | '.' :: rest =>
    let places := rest.takeWhile Char.isDigit
    if whole ++ places = [] then none
    else some (Text.digitsValue (whole ++ places), places.length, rest.dropWhile Char.isDigit)
  | rest => if whole = [] then none else some (Text.digitsValue whole, 0, rest)

/-- Whether a sign is a minus, and what follows an optional sign. -/
def readSign : List Char → Bool × List Char
  | '-' :: rest => (true, rest)
  | '+' :: rest => (false, rest)
  | rest => (false, rest)

/-- A decimal with an optional sign and no exponent, and what follows it. -/
def read? (cs : List Char) : Option (Decimal × List Char) :=
  let (negative, body) := readSign cs
  (readUnsigned? body).map fun (digits, places, rest) =>
    ({ negative, digits, exponent := -(places : Int) }, rest)

end Decimal

/-- A number as free text may give it. -/
inductive Numeral where
  | finite (d : Decimal)
  | infinite (negative : Bool)
  | undefined
  deriving DecidableEq, Repr

namespace Numeral

/-- The decimal `digits / 10 ^ places`. -/
def ofDecimal (digits places : Nat) : Numeral := .finite { digits, exponent := -(places : Int) }

/-- The length that a numeral denotes. -/
def value {α : Type} [Scalar α] : Numeral → α
  | .finite d => d.value
  | .infinite negative => if negative then -(1.0 / 0.0) else 1.0 / 0.0
  | .undefined => 0.0 / 0.0

/-- The exponent part of a numeral: nothing, or `e`, an optional sign and digits to the end. -/
def readExponent? : List Char → Option Int
  | [] => some 0
  | c :: rest =>
    let (negative, digits) := Decimal.readSign rest
    if (c = 'e' ∨ c = 'E') ∧ digits ≠ [] ∧ digits.all Char.isDigit then
      some (if negative then -(Text.digitsValue digits : Int) else Text.digitsValue digits)
    else
      none

/-- The numeral that a whole text spells. -/
def read? (cs : List Char) : Option Numeral :=
  let (negative, body) := Decimal.readSign cs
  match String.ofList (Text.lower body) with
  | "inf" | "infinity" => some (.infinite negative)
  | "nan" => some .undefined
  | _ => do
    let (digits, places, rest) ← Decimal.readUnsigned? body
    let exponent ← readExponent? rest
    return .finite { negative, digits, exponent := exponent - places }

/-- The binary64 number nearest to a numeral. A decimal above every finite number, or below half
of the least positive one, is settled by its count of digits before its power is formed. -/
def toFloat : Numeral → Float
  | .finite d =>
    let size : Int := (Nat.toDigits 10 d.digits).length + d.exponent
    if d.digits = 0 ∨ size < -400 then ({ d with digits := 0, exponent := 0 } : Decimal).value
    else if 400 < size then (Numeral.infinite d.negative).value
    else d.value
  | n => n.value

end Numeral

end Typeset
