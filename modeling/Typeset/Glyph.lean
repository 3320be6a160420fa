import Typeset.Font
import Typeset.Scalar

/-!
# Glyph measures

The boxes of the characters in the fonts of formulas. The table gives them in thousandths of an
em; a font scales them (`glyphMeasures`), and a character outside the table has the box
`Glyph.unknown`.
-/

namespace Typeset

/-- The box of a character in thousandths of an em: width, height above the baseline, depth below
it, and the italic correction to its right. -/
structure Glyph where
  width : Nat
  height : Nat
  depth : Nat
  italic : Nat
  deriving DecidableEq, Repr

namespace Glyph

/-- Small Latin letters. -/
def lowercase : List (Char × Glyph) :=
  [('a', ⟨529, 431, 0, 0⟩), ('b', ⟨429, 694, 0, 0⟩), ('c', ⟨433, 431, 0, 0⟩),
    ('d', ⟨520, 694, 0, 0⟩), ('e', ⟨466, 431, 0, 0⟩), ('f', ⟨490, 694, 194, 108⟩),
    ('g', ⟨477, 431, 194, 36⟩), ('h', ⟨576, 694, 0, 0⟩), ('i', ⟨345, 660, 0, 0⟩),
    ('j', ⟨412, 660, 194, 57⟩), ('k', ⟨521, 694, 0, 0⟩), ('l', ⟨298, 694, 0, 20⟩),
    ('m', ⟨878, 431, 0, 0⟩), ('n', ⟨600, 431, 0, 0⟩), ('o', ⟨485, 431, 0, 0⟩),
    ('p', ⟨503, 431, 194, 0⟩), ('q', ⟨446, 431, 194, 36⟩), ('r', ⟨451, 431, 0, 28⟩),
    ('s', ⟨469, 431, 0, 0⟩), ('t', ⟨361, 615, 0, 0⟩), ('u', ⟨572, 431, 0, 0⟩),
    ('v', ⟨485, 431, 0, 36⟩), ('w', ⟨716, 431, 0, 27⟩), ('x', ⟨572, 431, 0, 0⟩),
    ('y', ⟨490, 431, 194, 36⟩), ('z', ⟨465, 431, 0, 44⟩)]

/-- Capital Latin letters. -/
def uppercase : List (Char × Glyph) :=
  [('A', ⟨750, 683, 0, 0⟩), ('B', ⟨759, 683, 0, 51⟩), ('C', ⟨715, 683, 0, 72⟩),
    ('D', ⟨828, 683, 0, 28⟩), ('E', ⟨738, 683, 0, 58⟩), ('F', ⟨643, 683, 0, 139⟩),
    ('G', ⟨786, 683, 0, 0⟩), ('H', ⟨831, 683, 0, 81⟩), ('I', ⟨440, 683, 0, 78⟩),
    ('J', ⟨555, 683, 0, 96⟩), ('K', ⟨849, 683, 0, 71⟩), ('L', ⟨681, 683, 0, 0⟩),
    ('M', ⟨970, 683, 0, 109⟩), ('N', ⟨803, 683, 0, 109⟩), ('O', ⟨763, 683, 0, 28⟩),
    ('P', ⟨642, 683, 0, 139⟩), ('Q', ⟨791, 683, 194, 0⟩), ('R', ⟨759, 683, 0, 8⟩),
    ('S', ⟨613, 683, 0, 58⟩), ('T', ⟨584, 683, 0, 139⟩), ('U', ⟨683, 683, 0, 109⟩),
    ('V', ⟨583, 683, 0, 222⟩), ('W', ⟨944, 683, 0, 139⟩), ('X', ⟨828, 683, 0, 79⟩),
    ('Y', ⟨581, 683, 0, 222⟩), ('Z', ⟨683, 683, 0, 72⟩)]

/-- Digits. -/
def digits : List (Char × Glyph) :=
  [('0', ⟨500, 644, 0, 0⟩), ('1', ⟨500, 644, 0, 0⟩), ('2', ⟨500, 644, 0, 0⟩),
    ('3', ⟨500, 644, 0, 0⟩), ('4', ⟨500, 644, 0, 0⟩), ('5', ⟨500, 644, 0, 0⟩),
    ('6', ⟨500, 644, 0, 0⟩), ('7', ⟨500, 644, 0, 0⟩), ('8', ⟨500, 644, 0, 0⟩),
    ('9', ⟨500, 644, 0, 0⟩)]

/-- Punctuation and delimiters. -/
def delimiters : List (Char × Glyph) :=
  [('.', ⟨278, 106, 0, 0⟩), (',', ⟨278, 106, 194, 0⟩), (';', ⟨278, 431, 194, 0⟩),
    (':', ⟨278, 431, 0, 0⟩), ('!', ⟨278, 694, 0, 0⟩), ('?', ⟨472, 694, 0, 0⟩),
    ('(', ⟨389, 750, 250, 0⟩), (')', ⟨389, 750, 250, 0⟩), ('[', ⟨278, 750, 250, 0⟩),
    (']', ⟨278, 750, 250, 0⟩), ('{', ⟨500, 750, 250, 0⟩), ('}', ⟨500, 750, 250, 0⟩),
    ('|', ⟨278, 750, 250, 0⟩), ('\u2016', ⟨500, 750, 250, 0⟩), ('/', ⟨500, 750, 250, 0⟩),
    ('\u27e8', ⟨389, 750, 250, 0⟩), ('\u27e9', ⟨389, 750, 250, 0⟩),
    ('\u230a', ⟨444, 750, 250, 0⟩), ('\u230b', ⟨444, 750, 250, 0⟩),
    ('\u2308', ⟨444, 750, 250, 0⟩), ('\u2309', ⟨444, 750, 250, 0⟩), ('\u2032', ⟨275, 559, 0, 0⟩),
    ('\u221a', ⟨833, 800, 200, 0⟩)]

/-- Binary operators. -/
def operators : List (Char × Glyph) :=
  [('+', ⟨778, 583, 83, 0⟩), ('\u2212', ⟨778, 583, 83, 0⟩), ('\u00b1', ⟨778, 583, 83, 0⟩),
    ('\u2213', ⟨778, 583, 83, 0⟩), ('\u00d7', ⟨778, 491, 0, 0⟩), ('\u00f7', ⟨778, 500, 0, 0⟩),
    ('\u22c5', ⟨278, 310, 0, 0⟩), ('\u2217', ⟨500, 465, 0, 0⟩), ('\u2218', ⟨500, 444, 0, 0⟩),
    ('\u2219', ⟨500, 444, 0, 0⟩), ('\u2229', ⟨667, 598, 0, 0⟩), ('\u222a', ⟨667, 598, 0, 0⟩),
    ('\u2227', ⟨667, 598, 0, 0⟩), ('\u2228', ⟨667, 598, 0, 0⟩), ('\u2295', ⟨778, 583, 83, 0⟩),
    ('\u2297', ⟨778, 583, 83, 0⟩)]

/-- Relations and arrows. -/
def relations : List (Char × Glyph) :=
  [('=', ⟨778, 367, 0, 0⟩), ('<', ⟨778, 540, 40, 0⟩), ('>', ⟨778, 540, 40, 0⟩),
    ('\u2264', ⟨778, 636, 136, 0⟩), ('\u2265', ⟨778, 636, 136, 0⟩),
    ('\u2260', ⟨778, 716, 215, 0⟩), ('\u2261', ⟨778, 464, 0, 0⟩), ('\u2248', ⟨778, 483, 0, 0⟩),
    ('\u223c', ⟨778, 367, 0, 0⟩), ('\u2208', ⟨667, 540, 40, 0⟩), ('\u2282', ⟨778, 540, 40, 0⟩),
    ('\u2283', ⟨778, 540, 40, 0⟩), ('\u2286', ⟨778, 636, 136, 0⟩), ('\u2287', ⟨778, 636, 136, 0⟩),
    ('\u2192', ⟨1000, 511, 11, 0⟩), ('\u2190', ⟨1000, 511, 11, 0⟩),
    ('\u21d2', ⟨1000, 525, 24, 0⟩), ('\u21d0', ⟨1000, 525, 24, 0⟩),
    ('\u21d4', ⟨1000, 525, 24, 0⟩), ('\u2194', ⟨1000, 511, 11, 0⟩),
    ('\u21a6', ⟨1000, 511, 11, 0⟩), ('\u27f9', ⟨1638, 525, 24, 0⟩),
    ('\u27fa', ⟨1858, 525, 24, 0⟩)]

/-- Large operators, in text size. -/
def largeOperators : List (Char × Glyph) :=
  [('\u2211', ⟨1056, 750, 250, 0⟩), ('\u220f', ⟨944, 750, 250, 0⟩),
    ('\u2210', ⟨944, 750, 250, 0⟩), ('\u222b', ⟨556, 805, 306, 111⟩),
    ('\u222c', ⟨900, 805, 306, 111⟩), ('\u222d', ⟨1250, 805, 306, 111⟩),
    ('\u222e', ⟨556, 805, 306, 111⟩), ('\u22c3', ⟨833, 750, 250, 0⟩),
    ('\u22c2', ⟨833, 750, 250, 0⟩), ('\u2a01', ⟨1111, 750, 250, 0⟩),
    ('\u2a02', ⟨1111, 750, 250, 0⟩), ('\u22c1', ⟨833, 750, 250, 0⟩),
    ('\u22c0', ⟨833, 750, 250, 0⟩)]

/-- Greek letters. -/
def greek : List (Char × Glyph) :=
  [('\u03b1', ⟨640, 431, 0, 0⟩), ('\u03b2', ⟨566, 694, 194, 0⟩), ('\u03b3', ⟨518, 431, 194, 56⟩),
    ('\u03b4', ⟨444, 694, 0, 38⟩), ('\u03b5', ⟨466, 431, 0, 0⟩), ('\u03b6', ⟨438, 694, 194, 74⟩),
    ('\u03b7', ⟨497, 431, 194, 36⟩), ('\u03b8', ⟨469, 694, 0, 28⟩), ('\u03b9', ⟨354, 431, 0, 0⟩),
    ('\u03ba', ⟨576, 431, 0, 0⟩), ('\u03bb', ⟨583, 694, 0, 0⟩), ('\u03bc', ⟨603, 431, 194, 0⟩),
    ('\u03bd', ⟨494, 431, 0, 64⟩), ('\u03be', ⟨438, 694, 194, 46⟩), ('\u03c0', ⟨570, 431, 0, 36⟩),
    ('\u03c1', ⟨517, 431, 194, 0⟩), ('\u03c3', ⟨571, 431, 0, 36⟩), ('\u03c4', ⟨437, 431, 0, 113⟩),
    ('\u03c5', ⟨540, 431, 0, 36⟩), ('\u03c6', ⟨596, 694, 194, 0⟩), ('\u03c7', ⟨626, 431, 194, 0⟩),
    ('\u03c8', ⟨651, 694, 194, 36⟩), ('\u03c9', ⟨622, 431, 0, 36⟩), ('\u0393', ⟨625, 683, 0, 0⟩),
    ('\u0394', ⟨833, 683, 0, 0⟩), ('\u0398', ⟨778, 683, 0, 0⟩), ('\u039b', ⟨694, 683, 0, 0⟩),
    ('\u039e', ⟨667, 683, 0, 0⟩), ('\u03a0', ⟨750, 683, 0, 0⟩), ('\u03a3', ⟨722, 683, 0, 0⟩),
    ('\u03a5', ⟨778, 683, 0, 0⟩), ('\u03a6', ⟨722, 683, 0, 0⟩), ('\u03a8', ⟨778, 683, 0, 0⟩),
    ('\u03a9', ⟨722, 683, 0, 0⟩)]

/-- Everything else. -/
def miscellaneous : List (Char × Glyph) :=
  [('\u221e', ⟨1000, 431, 0, 0⟩), ('\u2202', ⟨531, 694, 0, 56⟩), ('\u2207', ⟨833, 683, 0, 0⟩),
    ('\u2200', ⟨556, 694, 0, 0⟩), ('\u2203', ⟨556, 694, 0, 0⟩), ('\u2205', ⟨500, 750, 56, 0⟩),
    ('\u210f', ⟨576, 694, 0, 0⟩), ('\u2113', ⟨417, 694, 0, 0⟩), ('\u2026', ⟨1172, 123, 0, 0⟩),
    ('\u22ef', ⟨1172, 310, 0, 0⟩), ('\u22ee', ⟨278, 750, 30, 0⟩), ('\u22f1', ⟨1282, 720, 30, 0⟩),
    ('\u00ac', ⟨667, 431, 0, 0⟩), (' ', ⟨333, 0, 0, 0⟩)]

/-- The characters with a box of their own. -/
def table : List (Char × Glyph) :=
  lowercase ++ uppercase ++ digits ++ delimiters ++ operators ++ relations ++ largeOperators ++
    greek ++ miscellaneous

/-- The box of a character that is in the table. -/
def find? (c : Char) : Option Glyph := table.lookup c

/-- The box of every other character. -/
def unknown : Glyph := ⟨600, 683, 0, 0⟩

/-- The box of a character. -/
def of (c : Char) : Glyph := (find? c).getD unknown

/-- The character has a box of its own. -/
def isKnown (c : Char) : Bool := (find? c).isSome

end Glyph

/-- The box of a character as lengths. -/
structure GlyphMeasures (α : Type) where
  width : α
  height : α
  depth : α
  italic : α

variable {α : Type} [Scalar α]

/-- The box with every length multiplied by `s`. -/
def GlyphMeasures.scaled (m : GlyphMeasures α) (s : α) : GlyphMeasures α :=
  { width := m.width * s, height := m.height * s, depth := m.depth * s, italic := m.italic * s }

/-- The box of a character in a font, in em. Only slanted characters have an italic correction; the
typewriter family is of one width, the one without serifs narrower, and bold is wider. -/
def glyphMeasures (f : Font) (c : Char) : GlyphMeasures α :=
  let g := Glyph.of c
  let italic : α := if f.isSlanted c then Scalar.thousandths g.italic else 0.0
  let width : α := match f.family with
    | .typewriter => if c = ' ' then Scalar.thousandths g.width else 0.525
    | .sansSerif => Scalar.thousandths g.width * 0.95
    | _ => Scalar.thousandths g.width
  { width := if f.bold then width * 1.1 else width
    height := Scalar.thousandths g.height
    depth := Scalar.thousandths g.depth
    italic := if f.bold then italic * 1.1 else italic }

end Typeset
