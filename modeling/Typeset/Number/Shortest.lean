import Typeset.Number.Binary

/-!
# Shortest decimals

A number written with the fewest decimal digits that still single it out among the binary64
numbers, and of those the nearest one, in positional notation without an exponent.

* `Shortest.hit?`: the multiple of a power of ten that lies among the reals which round to the
  number; the coarsest grid with a hit gives the digits.
-/

namespace Typeset.Shortest

/-- The reals that round to `mantissa · 2 ^ exponent`, in quarters of the last binary place:
`low / den` to `high / den` around `mid / den`, with the ends if the mantissa is even. Below a
power of two the numbers lie twice as close. -/
structure Interval where
  low : Nat
  mid : Nat
  high : Nat
  den : Nat
  closed : Bool

/-- The interval of the number `mantissa · 2 ^ exponent`. -/
def Interval.of (mantissa : Nat) (exponent : Int) : Interval :=
  let scale := if 2 ≤ exponent then Nat.pow 2 (exponent - 2).toNat else 1
  let den := if 2 ≤ exponent then 1 else Nat.pow 2 (2 - exponent).toNat
  let below := if mantissa = Nat.pow 2 52 ∧ -1074 < exponent then 1 else 2
  { low := (4 * mantissa - below) * scale, mid := 4 * mantissa * scale
    high := (4 * mantissa + 2) * scale, den, closed := mantissa % 2 = 0 }

/-- The interval with every bound divided by `10 ^ k`. -/
def Interval.scaled (i : Interval) (k : Int) : Interval :=
  if 0 ≤ k then { i with den := i.den * Nat.pow 10 k.toNat }
  else
    let s := Nat.pow 10 (-k).toNat
    { i with low := i.low * s, mid := i.mid * s, high := i.high * s }

/-- The whole number lies in the interval. -/
def Interval.holds (i : Interval) (n : Nat) : Bool :=
  if i.closed then i.low ≤ n * i.den && n * i.den ≤ i.high
  else i.low < n * i.den && n * i.den < i.high

/-- The whole number in the interval next to its middle, the upper one of two equally near. -/
def Interval.hit? (i : Interval) : Option Nat :=
  let a := i.mid / i.den
  match i.holds a, i.holds (a + 1) with
  | true, true => some (if i.mid - a * i.den < (a + 1) * i.den - i.mid then a else a + 1)
  | true, false => some a
  | false, true => some (a + 1)
  | false, false => none

/-- Digits and a power of ten for the number `mantissa · 2 ^ exponent`: the hit on the coarsest
grid of powers of ten that has one. -/
def digits (mantissa : Nat) (exponent : Int) : Nat × Int :=
  let i := Interval.of mantissa exponent
  let top := (Nat.toDigits 10 (i.mid / i.den)).length
  let steps := top + (-exponent).toNat + 1
  ((List.range steps).findSome? fun (s : Nat) =>
    let k : Int := (top : Int) - s
    ((i.scaled k).hit?).map (·, k)).getD (mantissa, exponent)

/-- `n · 10 ^ k` in positional notation. -/
def positional (n : Nat) (k : Int) : List Char :=
  let ds := Nat.toDigits 10 n
  if 0 ≤ k then ds ++ List.replicate k.toNat '0'
  else
    let places := (-k).toNat
    let padded := List.replicate (places + 1 - ds.length) '0' ++ ds
    let whole := padded.length - places
    padded.take whole ++ '.' :: padded.drop whole

/-- The shortest text of a number. -/
def text : Binary → String
  | .finite negative mantissa exponent =>
    let body := if mantissa = 0 then ['0']
      else
        let (n, k) := digits mantissa exponent
        positional n k
    (if negative then "-" else "") ++ String.ofList body
  | .infinite negative => if negative then "-inf" else "inf"
  | .undefined => "NaN"

end Typeset.Shortest

namespace Typeset

/-- The shortest text of a float. -/
def shortestText (x : Float) : String := Shortest.text (Binary.ofFloat x)

end Typeset
