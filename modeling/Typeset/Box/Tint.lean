import Typeset.Box.Basic

/-!
# Tints

Runs of boxes that share colors.

* `TintMark`: one opening of a tint. Openings are told apart by a number, so that neighbouring
  runs of one color stay two runs.
* `Tinted`: a box with the chain of tints it is drawn in, outermost first.
* `TintRun.ofList`: the runs of a list of tinted boxes, inner tints inside outer ones, each as long
  as possible.
* `wrapTinted`: the runs as colored boxes.
-/

namespace Typeset

/-- Colors of a run of boxes. -/
structure Tint where
  fg : Option Color
  bg : Option Color
  deriving DecidableEq, Repr

/-- One opening of a tint. -/
structure TintMark where
  id : Nat
  tint : Tint
  deriving DecidableEq, Repr

/-- The opening of number `id` in a table of tints; beyond its end there are no colors. -/
def TintMark.ofTable (tints : List Tint) (id : Nat) : TintMark :=
  { id, tint := (tints[id]?).getD { fg := none, bg := none } }

/-- A box with the tints it is drawn in, outermost first. -/
structure Tinted (α : Type) where
  box : Box α
  marks : List TintMark

/-- A box, or the boxes under one opening of a tint. -/
inductive TintRun (α : Type) where
  | plain (box : Box α)
  | run (mark : TintMark) (inner : List (TintRun α))

namespace TintRun

variable {α : Type}

/-- The runs with a box put in front of them. The box joins the first run at each depth as long as
that is the opening it is drawn in. -/
def push (box : Box α) : List TintMark → List (TintRun α) → List (TintRun α)
  | [], runs => .plain box :: runs
  | m :: ms, .run n inner :: runs =>
    if m.id = n.id then .run m (push box ms inner) :: runs
    else .run m (push box ms []) :: .run n inner :: runs
  | m :: ms, runs => .run m (push box ms []) :: runs

/-- The runs of a list of tinted boxes. -/
def ofList (items : List (Tinted α)) : List (TintRun α) :=
  items.foldr (fun item runs => push item.box item.marks runs) []

variable [Scalar α]

mutual

/-- The box of a run: its boxes side by side, in the colors of the tint. -/
def toBox : TintRun α → Box α
  | plain box => box
  | run mark inner => (Box.hbox (toBoxes inner)).colored mark.tint.fg mark.tint.bg

/-- The boxes of runs. -/
def toBoxes : List (TintRun α) → List (Box α)
  | [] => []
  | r :: rs => r.toBox :: toBoxes rs

end

end TintRun

/-- The runs of tinted boxes as boxes of one row. -/
def wrapTinted {α : Type} [Scalar α] (items : List (Tinted α)) : List (Box α) :=
  TintRun.toBoxes (TintRun.ofList items)

end Typeset
