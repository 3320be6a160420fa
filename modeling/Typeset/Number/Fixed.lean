import Typeset.Number.Binary

/-!
# Fixed decimals

A number written with a fixed count of decimal places. The exact binary fraction is rounded once,
to the nearest decimal of that many places, and a half goes to the even neighbour.

* `roundDiv_le`, `le_roundDiv`: the rounded quotient is within half a unit of the quotient.
-/

namespace Typeset

/-- The whole number nearest to `num / den`; a half goes to the even one. -/
def roundDiv (num den : Nat) : Nat :=
  let q := num / den
  let r := num % den
  if 2 * r < den then q
  else if den < 2 * r then q + 1
  else if q % 2 = 0 then q else q + 1

/-- A rounded quotient is at most half a unit above the quotient. -/
theorem roundDiv_le (num den : Nat) (h : 0 < den) :
    2 * (roundDiv num den * den) ≤ 2 * num + den := by
  have hd := Nat.div_add_mod num den
  have hc : num / den * den = den * (num / den) := Nat.mul_comm _ _
  unfold roundDiv
  simp only
  split
  · omega
  · have : (num / den + 1) * den = num / den * den + den := Nat.succ_mul _ _
    repeat' split
    all_goals omega

/-- A rounded quotient is at most half a unit below the quotient. -/
theorem le_roundDiv (num den : Nat) (h : 0 < den) :
    2 * num ≤ 2 * (roundDiv num den * den) + den := by
  have hd := Nat.div_add_mod num den
  have hm := Nat.mod_lt num h
  have hc : num / den * den = den * (num / den) := Nat.mul_comm _ _
  unfold roundDiv
  simp only
  have : (num / den + 1) * den = num / den * den + den := Nat.succ_mul _ _
  repeat' split
  all_goals omega

namespace Fixed

/-- Digits with a point before the last `places` of them. -/
def point (places : Nat) (n : Nat) : String :=
  let digits := Nat.toDigits 10 n
  let padded := List.replicate (places + 1 - digits.length) '0' ++ digits
  let whole := padded.take (padded.length - places)
  String.ofList (if places = 0 then whole else whole ++ '.' :: padded.drop whole.length)

/-- A number with `places` decimals. The sign of a negative number stays, also of one that
rounds to zero. -/
def text (places : Nat) : Binary → String
  | .finite negative mantissa exponent =>
    let scaled := mantissa * Nat.pow 10 places
    let n := if 0 ≤ exponent then scaled * Nat.pow 2 exponent.toNat
      else roundDiv scaled (Nat.pow 2 (-exponent).toNat)
    (if negative then "-" else "") ++ point places n
  | .infinite negative => if negative then "-inf" else "inf"
  | .undefined => "NaN"

end Fixed

/-- A float with `places` decimals. -/
def fixedText (places : Nat) (x : Float) : String := Fixed.text places (Binary.ofFloat x)

end Typeset
