import Typeset.Font
import Typeset.Style
import Typeset.Length

/-!
# Environments

What a formula is set in: the style, the base size and the font, and for lines of text their width
and distance. A part of a formula is set in an environment derived from the one around it; nothing
is restored, because nothing is changed in place.

The constants of placement are given in em and scaled to the style where they are used
(`Environment.param`).
-/

namespace Typeset

/-- What a formula is set in. Lengths are in points. -/
structure Environment (α : Type) where
  style : Style
  /-- Font size of the text style. -/
  size : α
  font : Font := .math
  /-- Width that lines of text fill. -/
  textWidth : Option α := none
  /-- Space between lines of text. -/
  interline : Option α := none

namespace Environment

variable {α : Type}

def withStyle (env : Environment α) (style : Style) : Environment α := { env with style }

def withFont (env : Environment α) (font : Font) : Environment α := { env with font }

/-- Environment of a superscript. -/
def sup (env : Environment α) : Environment α := env.withStyle env.style.sup

/-- Environment of a subscript. -/
def sub (env : Environment α) : Environment α := env.withStyle env.style.sub

/-- Environment of a numerator. -/
def num (env : Environment α) : Environment α := env.withStyle env.style.num

/-- Environment of a denominator. -/
def den (env : Environment α) : Environment α := env.withStyle env.style.den

/-- The cramped environment of the same size. -/
def cramped (env : Environment α) : Environment α := env.withStyle env.style.cramp

variable [Scalar α]

/-- Font size of the style. -/
def em (env : Environment α) : α := env.size * env.style.scale

/-- The eighteenth part of an em. -/
def mu (env : Environment α) : α := env.em / 18.0

/-- Height of a lowercase `x`. -/
def xHeight (env : Environment α) : α := xHeightEm * env.em

/-- Height of the line that fractions and operators are centred on. -/
def axisHeight (env : Environment α) : α := 0.25 * env.em

/-- Thickness of rules. -/
def ruleThickness (env : Environment α) : α := 0.04 * env.em

/-- A number of em in points. -/
def param (env : Environment α) (ems : α) : α := ems * env.em

/-- Upright roman in the weight and slant of the environment, the font of running text. -/
def textFont (env : Environment α) : Font := (FontChange.toFamily .roman).apply env.font

end Environment

end Typeset
