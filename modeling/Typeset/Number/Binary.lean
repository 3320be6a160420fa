/-!
# Binary fractions

A binary64 number taken apart into the exact number that it is: a sign, a whole mantissa and a
power of two. Every written form of a number starts from it.
-/

namespace Typeset

/-- A binary64 number: `± mantissa · 2 ^ exponent`, an infinity, or no number. -/
inductive Binary where
  | finite (negative : Bool) (mantissa : Nat) (exponent : Int)
  | infinite (negative : Bool)
  | undefined
  deriving DecidableEq, Repr

namespace Binary

/-- The parts of the bit pattern of a number: one sign bit, eleven bits of exponent, 52 bits of
fraction. The least exponent marks a fraction without its leading one. -/
def ofBits (bits : Nat) : Binary :=
  let negative := bits / Nat.pow 2 63 % 2 == 1
  let biased := bits / Nat.pow 2 52 % Nat.pow 2 11
  let fraction := bits % Nat.pow 2 52
  if biased = 2047 then
    if fraction = 0 then .infinite negative else .undefined
  else if biased = 0 then
    .finite negative fraction (-1074)
  else
    .finite negative (Nat.pow 2 52 + fraction) (Int.ofNat biased - 1075)

/-- The exact number that a float is. -/
def ofFloat (x : Float) : Binary := ofBits x.toBits.toNat

/-- The whole number nearest to `mantissa · 2 ^ exponent`; a half goes up. -/
def nearest (mantissa : Nat) (exponent : Int) : Nat :=
  let places := (-exponent).toNat
  if 0 ≤ exponent then mantissa * Nat.pow 2 exponent.toNat
  else (mantissa + Nat.pow 2 (places - 1)) / Nat.pow 2 places

end Binary

end Typeset
