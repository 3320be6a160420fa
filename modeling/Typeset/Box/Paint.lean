import Typeset.Box.Basic

/-!
# Painting

The strokes that draw a box, in order, with the pen at the left end of its baseline. The vertical
axis points down. Rectangles are given by their upper left corner.
-/

namespace Typeset

/-- One stroke of the pen. -/
inductive DrawCall (α : Type) where
  /-- A character with its origin at a point of the baseline. -/
  | char (char : Char) (font : Font) (size x y : α) (color : Color)
  /-- A character stretched over a rectangle. -/
  | delimiter (char : Char) (x y width height : α) (color : Color)
  /-- A filled rectangle. -/
  | fill (x y width height : α) (color : Color)
  /-- The inner border of a rectangle. -/
  | stroke (x y width height thickness : α) (color : Color)

namespace Box

variable {α : Type} [Scalar α]

/-- A rectangle as large as the box, with the pen at (`x`, `y`). -/
def fill (b : Box α) (x y : α) (color : Color) : DrawCall α :=
  .fill x (y - b.height) b.width b.total color

/-- The background of a box, if it has one. -/
def background (b : Box α) (x y : α) (bg : Option Color) : List (DrawCall α) :=
  bg.toList.map (b.fill x y)

mutual

/-- The strokes of a box with the pen at (`x`, `y`) in the color `fg`. -/
def draw (fg : Color) (x y : α) : Box α → List (DrawCall α)
  | ⟨_, _, _, _, .char c font size⟩ => [.char c font size x y fg]
  | b@⟨_, _, _, _, .rule⟩ => [b.fill x y fg]
  | ⟨_, _, _, _, .strut⟩ | ⟨_, _, _, _, .glue _⟩ => []
  | b@⟨w, h, _, _, .delimiter c⟩ => [.delimiter c x (y - h) w b.total fg]
  | ⟨_, _, _, _, .hbox children⟩ => drawRow fg x y children
  | ⟨_, h, _, _, .vbox children _⟩ => drawStack fg x (y - h) children
  | b@⟨_, _, _, _, .colored color bg child⟩ =>
    b.background x y bg ++ child.draw (color.getD fg) x y
  | b@⟨w, h, _, _, .framed thickness padding frame bg child⟩ =>
    b.background x y bg ++
      (if 0.0 < thickness then
        [.stroke x (y - h) w b.total thickness (frame.getD fg)] else []) ++
      child.draw fg (x + thickness + padding) y

/-- The strokes of boxes side by side; each starts where the one before it ends. -/
def drawRow (fg : Color) (x y : α) : List (Box α) → List (DrawCall α)
  | [] => []
  | b :: bs => b.draw fg x (y + b.shift) ++ drawRow fg (x + b.width) y bs

/-- The strokes of boxes below each other; the first has its upper edge at `top`. -/
def drawStack (fg : Color) (x top : α) : List (Box α) → List (DrawCall α)
  | [] => []
  | b :: bs => b.draw fg x (top + b.height) ++ drawStack fg x (top + b.total) bs

end

end Box

end Typeset
