import Typeset.Box.Lines
import Typeset.Box.Paint
import Typeset.Formula
import Typeset.Number.Shortest

/-!
# Pictures

A formula laid out for a page: in a size and a style, in a given width, with space around it.

* `PictureOptions`: what a picture is made with; `PictureOptions.validate` refuses settings that
  do not go together.
* `Setting`: one change of the options.
* `Formula.picture`: the picture of a formula.
* `Picture.paint`: its strokes.
-/

namespace Typeset

/-- The font change of a font mask, a sum of bits: 2 for sans serif, 4 bold, 8 italic, 16 roman, 32
typewriter. Of several families sans serif comes first, then typewriter. The bit 1, serif, changes
nothing. -/
def FontChange.ofMask (mask : Nat) : FontChange :=
  let family : Option FontFamily :=
    if mask.testBit 1 then some .sansSerif
    else if mask.testBit 5 then some .typewriter
    else if mask.testBit 4 then some .roman
    else none
  { family
    bold := if mask.testBit 2 then some true else none
    italic := if mask.testBit 3 then some true else none }

/-- Space around a picture. -/
structure Insets (α : Type) where
  top : α
  left : α
  bottom : α
  right : α

/-- The same space on all sides. -/
def Insets.uniform {α : Type} (space : α) : Insets α :=
  { top := space, left := space, bottom := space, right := space }

/-- What a picture is made with. Lengths are in points. -/
structure PictureOptions (α : Type) where
  style : Style := .display
  size : α
  fontMask : Nat := 0
  /-- The color of what sets none of its own. -/
  fg : Color := .black
  bg : Option Color := none
  /-- The width of the text, and the place of the formula in it. -/
  width : Option (α × HAlign) := none
  /-- The picture is as wide as the formula, once that is broken into lines. -/
  maxWidth : Bool := false
  /-- Space between lines. With it a wide formula is broken. -/
  interline : Option α := none
  insets : Insets α

/-- Why a picture cannot be made. -/
inductive ConfigError (α : Type) where
  /-- The size is not finite, or not positive. -/
  | invalidSize (size : α)
  /-- The setting of this name needs a width. -/
  | widthRequired (setting : String)

/-- The words of an error. -/
def ConfigError.message : ConfigError Float → String
  | invalidSize size => "Invalid font size: " ++ shortestText size
  | widthRequired setting => "Cannot set '" ++ setting ++ "' without having specified a width"

/-- One change of the options. -/
inductive Setting (α : Type) where
  /-- Fresh options in display style. -/
  | display (size : α)
  /-- Fresh options in text style. -/
  | inline (size : α)
  | style (s : Style)
  | fontMask (mask : Nat)
  | fg (c : Color)
  | bg (c : Color)
  | width (width : α) (align : HAlign)
  | maxWidth (on : Bool)
  | interline (space : α)
  | insets (i : Insets α)

namespace PictureOptions

variable {α : Type} [Scalar α]

/-- Display style in a size. -/
def display (size : α) : PictureOptions α := { size, insets := .uniform 0.0 }

/-- Text style in a size. -/
def inline (size : α) : PictureOptions α := { display size with style := .text }

/-- The options to start from: display style in 20 points. -/
def initial : PictureOptions α := display 20.0

/-- The options with or without a maximal width. A width that is set places the formula at the
left then. -/
def withMaxWidth (on : Bool) (o : PictureOptions α) : PictureOptions α :=
  { o with
    maxWidth := on
    width := if on then o.width.map fun (w, _) => (w, .left) else o.width }

/-- The options after one change. -/
def set (o : PictureOptions α) : Setting α → PictureOptions α
  | .display size => display size
  | .inline size => inline size
  | .style style => { o with style }
  | .fontMask fontMask => { o with fontMask }
  | .fg fg => { o with fg }
  | .bg c => { o with bg := some c }
  | .width w align => { o with width := some (w, align) }
  | .maxWidth on => o.withMaxWidth on
  | .interline space => { o with interline := some space }
  | .insets insets => { o with insets }

/-- The options after changes. -/
def ofSettings (settings : List (Setting α)) : PictureOptions α := settings.foldl set initial

/-- The size is finite and positive, and what needs a width has one. -/
def validate (o : PictureOptions α) : Except (ConfigError α) Unit :=
  if Scalar.isFinite o.size ∧ 0.0 < o.size then
    match o.width, o.maxWidth, o.interline with
    | none, true, _ => .error (.widthRequired "max_width")
    | none, false, some _ => .error (.widthRequired "interline spacing")
    | _, _, _ => .ok ()
  else .error (.invalidSize o.size)

/-- The environment of the formula. -/
def environment (o : PictureOptions α) : Environment α :=
  { style := o.style
    size := o.size
    font := (FontChange.ofMask o.fontMask).apply .math
    textWidth := o.width.map Prod.fst
    interline := o.interline }

end PictureOptions

/-- A formula laid out, with space around it. -/
structure Picture (α : Type) where
  root : Box α
  insets : Insets α
  fg : Color
  bg : Option Color

namespace Picture

variable {α : Type} [Scalar α]

/-- The box of a formula in the text width. -/
def fit (o : PictureOptions α) (b : Box α) : Box α :=
  match o.width with
  | none => b
  | some (width, align) =>
    let b := match o.interline with
      | none => b
      | some interline => b.breakLines width interline
    if o.maxWidth then b.aligned b.width .left else b.aligned width align

def width (p : Picture α) : α := p.root.width + p.insets.left + p.insets.right

/-- Extent above the baseline. -/
def height (p : Picture α) : α := p.root.height + p.insets.top

/-- Extent below the baseline. -/
def depth (p : Picture α) : α := p.root.depth + p.insets.bottom

def total (p : Picture α) : α := p.height + p.depth

/-- The formula sets a color of its own. -/
def isColored (p : Picture α) : Bool := p.root.isColored

/-- The strokes of the picture with its upper left corner at (`x`, `y`). -/
def paint (p : Picture α) (x y : α) : List (DrawCall α) :=
  (p.bg.toList.map fun c => .fill x y p.width p.total c) ++
    p.root.draw p.fg (x + p.insets.left) (y + p.height)

end Picture

/-- The picture of a formula. -/
def Formula.picture {α : Type} [Scalar α] (f : Formula) (o : PictureOptions α) :
    Except (ConfigError α) (Picture α) := do
  o.validate
  return {
    root := Picture.fit o (f.layout o.environment)
    insets := o.insets
    fg := o.fg
    bg := o.bg }

end Typeset
