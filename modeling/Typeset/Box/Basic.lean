import Typeset.Color.Basic
import Typeset.Font
import Typeset.MathClass
import Typeset.Scalar

/-!
# Boxes

Measured boxes: a width, a height above the baseline, a depth below it, and a shift.

* `Box.hbox`: children side by side on a common baseline; a positive shift lowers a child.
* `Box.vbox`: children below each other, with the baseline of one of them; no child is shifted.
* `Box.colored`, `Box.framed`: one child with colors, padding or a border.
* `Box.aligned`: a box in a wider one.

The measures of a box are settled when it is built.
-/

namespace Typeset

/-- What a box draws; `B` is the type of its children. -/
inductive BoxContent (α B : Type) where
  /-- A character at a font size. -/
  | char (char : Char) (font : Font) (size : α)
  /-- A rectangle that fills the box. -/
  | rule
  /-- Nothing; the box only takes space. -/
  | strut
  /-- Horizontal space; a line may be broken at breakable space. -/
  | glue (breakable : Bool)
  /-- A character stretched to fill the box. -/
  | delimiter (char : Char)
  | hbox (children : List B)
  /-- The baseline is that of child number `baseline`. -/
  | vbox (children : List B) (baseline : Nat)
  | colored (fg bg : Option Color) (child : B)
  | framed (thickness padding : α) (frame bg : Option Color) (child : B)

/-- The boxes inside. -/
def BoxContent.children {α B : Type} : BoxContent α B → List B
  | .hbox children | .vbox children _ => children
  | .colored _ _ child | .framed _ _ _ _ child => [child]
  | _ => []

/-- A measured box. -/
structure Box (α : Type) where
  width : α
  /-- Extent above the baseline. -/
  height : α
  /-- Extent below the baseline. -/
  depth : α
  /-- How far the box is lowered among its neighbours. -/
  shift : α
  content : BoxContent α (Box α)

namespace Box

variable {α : Type} [Scalar α]

/-- A box that is not shifted. -/
def unshifted (width height depth : α) (content : BoxContent α (Box α)) : Box α :=
  { width, height, depth, shift := 0.0, content }

/-! ## Boxes without children -/

def strut (width height depth : α) : Box α := unshifted width height depth .strut

/-- The box of no size. -/
def empty : Box α := strut 0.0 0.0 0.0

def rule (width height depth : α) : Box α := unshifted width height depth .rule

/-- Horizontal space, which may be negative. -/
def glue (width : α) (breakable : Bool) : Box α := unshifted width 0.0 0.0 (.glue breakable)

/-- Horizontal space at which no line is broken. -/
def kern (width : α) : Box α := glue width false

/-- Space between boxes below each other. -/
def vkern (height : α) : Box α := strut 0.0 height 0.0

def glyph (c : Char) (font : Font) (size width height depth : α) : Box α :=
  unshifted width height depth (.char c font size)

def delimiter (c : Char) (width height depth : α) : Box α :=
  unshifted width height depth (.delimiter c)

/-! ## Boxes with children -/

/-- Height plus depth. -/
def total (b : Box α) : α := b.height + b.depth

/-- The same box at another shift. -/
def withShift (b : Box α) (shift : α) : Box α := { b with shift }

/-- The largest height of boxes side by side. -/
def rowHeight (start : α) (bs : List (Box α)) : α :=
  Scalar.largest start (bs.map fun b => b.height - b.shift)

/-- The largest depth of boxes side by side. -/
def rowDepth (start : α) (bs : List (Box α)) : α :=
  Scalar.largest start (bs.map fun b => b.depth + b.shift)

/-- The largest width of boxes. -/
def columnWidth (bs : List (Box α)) : α := Scalar.largest 0.0 (bs.map Box.width)

/-- Boxes side by side: the sum of the widths, the largest height and depth. -/
def hbox (children : List (Box α)) : Box α :=
  unshifted (Scalar.sum (children.map Box.width)) (rowHeight 0.0 children) (rowDepth 0.0 children)
    (.hbox children)

/-- The height of stacked boxes over the baseline of child number `baseline`. -/
def stackHeight (start : α) : Nat → List (Box α) → α
  | _, [] => start
  | 0, b :: _ => start + b.height
  | n + 1, b :: bs => stackHeight (start + b.total) n bs

/-- The depth of stacked boxes under the baseline of child number `baseline`. -/
def stackDepth (start : α) : Nat → List (Box α) → α
  | _, [] => start
  | 0, b :: bs => bs.foldl (fun d c => d + c.total) (start + b.depth)
  | n + 1, _ :: bs => stackDepth start n bs

/-- Boxes below each other on the baseline of one of them: the largest width, and the totals above
and below. -/
def vbox (children : List (Box α)) (baseline : Nat) : Box α :=
  unshifted (columnWidth children) (stackHeight 0.0 baseline children)
    (stackDepth 0.0 baseline children) (.vbox children baseline)

/-- A box in a foreground color, over a background. -/
def colored (child : Box α) (fg bg : Option Color) : Box α :=
  unshifted child.width child.height child.depth (.colored fg bg child)

/-- A box with padding and a border around it; a border of no thickness is not drawn. -/
def framed (child : Box α) (thickness padding : α) (frame bg : Option Color) : Box α :=
  let edge := thickness + padding
  unshifted (child.width + 2.0 * edge) (child.height + edge) (child.depth + edge)
    (.framed thickness padding frame bg child)

/-- A box in one of the given width; a box that is as wide already stays as it is. -/
def aligned (b : Box α) (width : α) (align : HAlign) : Box α :=
  let extra := width - b.width
  if extra ≤ 0.0 then b
  else match align with
    | .left => hbox [kern 0.0, b, kern extra]
    | .center => hbox [kern (extra / 2.0), b, kern (extra / 2.0)]
    | .right => hbox [kern extra, b, kern 0.0]

/-! ## Views -/

/-- The boxes inside. -/
def children (b : Box α) : List (Box α) := b.content.children

/-- The box is space at which a line may be broken. -/
def isBreakable (b : Box α) : Bool :=
  match b.content with
  | .glue breakable => breakable
  | _ => false

/-- The box holds boxes side by side. -/
def isHBox (b : Box α) : Bool :=
  match b.content with
  | .hbox _ => true
  | _ => false

mutual

/-- A box of the tree sets a color. -/
def isColored : Box α → Bool
  | ⟨_, _, _, _, .colored fg bg child⟩ => fg.isSome || bg.isSome || child.isColored
  | ⟨_, _, _, _, .framed _ _ frame bg child⟩ => frame.isSome || bg.isSome || child.isColored
  | ⟨_, _, _, _, .hbox children⟩ => anyColored children
  | ⟨_, _, _, _, .vbox children _⟩ => anyColored children
  | _ => false

/-- One of the boxes sets a color. -/
def anyColored : List (Box α) → Bool
  | [] => false
  | b :: bs => b.isColored || anyColored bs

end

end Box

end Typeset
