import Typeset.Box.Tint

/-!
# Breaking lines

A wide row is broken into lines at its breakable space; the space at a break is dropped. Only the
row itself is looked at, and the colored rows in it: other boxes are never broken.

* `Box.pieces`: the boxes of a row, colored rows opened, each with the tints it is drawn in.
* `OpenLine.step`: one more piece on the line being filled, which may close it.
* `Box.breakLines`: the lines of a row below each other.
-/

namespace Typeset

variable {α : Type} [Scalar α]

namespace Box

/-- The pieces of boxes side by side that are drawn in the tints `path`, and the number of the next
opening of a tint. -/
def openRuns (path : List TintMark) (next : Nat) : List (Box α) → List (Tinted α) × Nat
  | [] => ([], next)
  | b :: bs =>
    match b with
    | ⟨_, _, _, shift, .colored fg bg ⟨_, _, _, inner, .hbox children⟩⟩ =>
      if Scalar.isZero shift && Scalar.isZero inner then
        let mark := { id := next, tint := { fg, bg } }
        let (opened, next) := openRuns (path ++ [mark]) (next + 1) children
        let (rest, next) := openRuns path next bs
        (opened ++ rest, next)
      else
        let (rest, next) := openRuns path next bs
        ({ box := b, marks := path } :: rest, next)
    | _ =>
      let (rest, next) := openRuns path next bs
      ({ box := b, marks := path } :: rest, next)

/-- The pieces of a row. -/
def pieces (b : Box α) : List (Tinted α) := (openRuns [] 0 b.children).1

end Box

/-- The line being filled. -/
structure OpenLine (α : Type) where
  /-- The last breakable space on the line and the pieces before it. -/
  head : Option (List (Tinted α) × Tinted α)
  /-- The pieces after the last breakable space. -/
  tail : List (Tinted α)
  width : α

namespace OpenLine

/-- A line with nothing on it. -/
def empty : OpenLine α := { head := none, tail := [], width := 0.0 }

/-- The pieces on the line. -/
def pieces (l : OpenLine α) : List (Tinted α) :=
  match l.head with
  | none => l.tail
  | some (before, space) => before ++ space :: l.tail

/-- The line with a piece that is no breakable space. -/
def add (l : OpenLine α) (p : Tinted α) : OpenLine α :=
  { l with tail := l.tail ++ [p], width := l.width + p.box.width }

/-- The line with a breakable space. -/
def addSpace (l : OpenLine α) (p : Tinted α) : OpenLine α :=
  { head := some (l.pieces, p), tail := [], width := l.width + p.box.width }

/-- The rest of the line after its last breakable space, with a further piece. -/
def carry (l : OpenLine α) (p : Tinted α) : OpenLine α :=
  { head := none, tail := l.tail ++ [p]
    width := Scalar.sum (l.tail.map fun q => q.box.width) + p.box.width }

/-- One more piece after closed lines and an open one, where lines are to be no wider than `limit`.

* A space that would overflow closes the line, and no line after the first starts with a space.
* Any other piece that would overflow goes to a new line with what follows the last space; without
  one the line overflows. -/
def step (limit : α) (lines : List (List (Tinted α))) (l : OpenLine α) (p : Tinted α) :
    List (List (Tinted α)) × OpenLine α :=
  let overflows := decide (limit < l.width + p.box.width)
  if p.box.isBreakable then
    if l.pieces.isEmpty then
      if lines.isEmpty then (lines, l.addSpace p) else (lines, l)
    else if overflows then (lines ++ [l.pieces], empty)
    else (lines, l.addSpace p)
  else
    match overflows, l.head with
    | true, some (before, _) => (lines ++ [before], l.carry p)
    | _, _ => (lines, l.add p)

end OpenLine

/-- The lines of a list of pieces, where lines are to be no wider than `limit`. -/
def fillLines (limit : α) (ps : List (Tinted α)) : List (List (Tinted α)) :=
  let (lines, last) := ps.foldl (fun (lines, l) p => OpenLine.step limit lines l p) ([], .empty)
  if last.pieces.isEmpty then lines else lines ++ [last.pieces]

namespace Box

/-- A row broken into lines no wider than `width` where that is possible, with `interline` space
between them. A box that fits, that is no row, or that makes one line stays as it is. -/
def breakLines (b : Box α) (width interline : α) : Box α :=
  if b.width ≤ width ∨ b.isHBox = false then b
  else
    let lines := fillLines width b.pieces
    if lines.length ≤ 1 then b
    else vbox ((lines.map fun line => hbox (wrapTinted line)).intersperse (vkern interline)) 0

end Box

end Typeset
