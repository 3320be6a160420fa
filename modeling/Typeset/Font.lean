/-!
# Fonts

A font is a family with a weight and a slant; a font change sets some of the three.
-/

namespace Typeset

/-- A font family. -/
inductive FontFamily where
  /-- Slanted letters with upright digits and signs. -/
  | math
  | roman
  | sansSerif
  | typewriter
  deriving DecidableEq, Repr

/-- A font: family, weight and slant. -/
structure Font where
  family : FontFamily
  bold : Bool := false
  italic : Bool := false
  deriving DecidableEq, Repr

namespace Font

/-- The font that formulas start in. -/
def math : Font := { family := .math }

/-- The plain upright font. -/
def roman : Font := { family := .roman }

/-- Latin letters and lowercase Greek ones, which the math family slants. -/
def isMathItalic (c : Char) : Bool := c.isAlpha || (0x03B1 ≤ c.toNat && c.toNat ≤ 0x03F5)

/-- The character is drawn slanted. -/
def isSlanted (f : Font) (c : Char) : Bool := f.italic || (f.family == .math && isMathItalic c)

end Font

/-- A font change: what it does not set stays. -/
structure FontChange where
  family : Option FontFamily := none
  bold : Option Bool := none
  italic : Option Bool := none
  deriving DecidableEq, Repr

namespace FontChange

/-- The change to a family. -/
def toFamily (family : FontFamily) : FontChange := { family }

/-- The font after the change. -/
def apply (c : FontChange) (f : Font) : Font :=
  { family := c.family.getD f.family, bold := c.bold.getD f.bold, italic := c.italic.getD f.italic }

end FontChange

end Typeset
