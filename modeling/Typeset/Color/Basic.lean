import Typeset.Number.Binary

/-!
# Colors

Colors with eight bits for each of red, green, blue and opacity.

* `Color.text`: `#RRGGBB`, followed by the opacity of a color that is not opaque.
* `Color.readHex?`: six hexadecimal digits, or three that each stand for two.
* `Color.mix`: a share of one color and the rest of another, channel by channel.
-/

namespace Typeset

/-- A color; `a` is the opacity, 255 for an opaque color. -/
structure Color where
  r : UInt8
  g : UInt8
  b : UInt8
  a : UInt8 := 255
  deriving DecidableEq, Repr

namespace Color

/-- The opaque color of three channels. -/
def rgb (r g b : UInt8) : Color := { r, g, b }

def black : Color := rgb 0 0 0
def white : Color := rgb 255 255 255

/-- The opaque color whose channels are the three low bytes of a number. -/
def ofNat (n : Nat) : Color :=
  rgb (UInt8.ofNat (n / 0x10000)) (UInt8.ofNat (n / 0x100)) (UInt8.ofNat n)

/-- The color hides what it is painted over. -/
def IsOpaque (c : Color) : Prop := c.a = 255

/-! ## Written form -/

/-- The capital hexadecimal digit of a number below sixteen. -/
def hexDigit (n : Nat) : Char := (Nat.digitChar n).toUpper

/-- The two hexadecimal digits of a byte. -/
def hexByte (b : UInt8) : List Char := [hexDigit (b.toNat / 16), hexDigit (b.toNat % 16)]

/-- The characters of a written color. -/
def chars (c : Color) : List Char :=
  '#' :: (hexByte c.r ++ hexByte c.g ++ hexByte c.b ++ if c.a = 255 then [] else hexByte c.a)

/-- The written form of a color. -/
def text (c : Color) : String := String.ofList c.chars

/-- The value of a hexadecimal digit of either case. -/
def hexValue? (c : Char) : Option Nat :=
  if '0' ≤ c ∧ c ≤ '9' then some (c.toNat - '0'.toNat)
  else if 'a' ≤ c ∧ c ≤ 'f' then some (c.toNat - 'a'.toNat + 10)
  else if 'A' ≤ c ∧ c ≤ 'F' then some (c.toNat - 'A'.toNat + 10)
  else none

/-- The opaque color of hexadecimal digits, six or three, after an optional number sign. -/
def readHex? (cs : List Char) : Option Color := do
  let digits ← (match cs with
    | '#' :: rest => rest
    | _ => cs).mapM hexValue?
  match digits with
  | [a, b, c] => some (rgb (UInt8.ofNat (17 * a)) (UInt8.ofNat (17 * b)) (UInt8.ofNat (17 * c)))
  | [a, b, c, d, e, f] => some (rgb (UInt8.ofNat (16 * a + b)) (UInt8.ofNat (16 * c + d))
      (UInt8.ofNat (16 * e + f)))
  | _ => none

/-! ## Mixtures -/

/-- A number brought into the range from `low` to `high`; an undefined one stays undefined. -/
def clamp (low high v : Float) : Float := if v < low then low else if high < v then high else v

/-- The byte nearest to a number; an undefined number gives 0. -/
def byte (v : Float) : UInt8 :=
  match Binary.ofFloat v with
  | .finite false mantissa exponent => UInt8.ofNat (min 255 (Binary.nearest mantissa exponent))
  | .infinite false => 255
  | .finite true _ _ | .infinite true | .undefined => 0

/-- The byte nearest to the share `t` of `a` with the rest of `b`. -/
def mixChannel (t : Float) (a b : UInt8) : UInt8 :=
  byte (Float.ofNat a.toNat * t + Float.ofNat b.toNat * (1.0 - t))

/-- The mixture of `percent` hundredths of one color with the rest of another. -/
def mix (c d : Color) (percent : Float) : Color :=
  let t := clamp 0.0 1.0 (percent / 100.0)
  { r := mixChannel t c.r d.r, g := mixChannel t c.g d.g, b := mixChannel t c.b d.b
    a := mixChannel t c.a d.a }

end Color

end Typeset
