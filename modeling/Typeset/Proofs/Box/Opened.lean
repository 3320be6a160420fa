import Mathlib.Algebra.Order.Group.MinMax
import Typeset.Proofs.Box.Paint
import Typeset.Proofs.Scalar

/-!
# Tints have no size

Wrapping boxes in tints keeps what is side by side: opening the colored rows again gives the boxes
that opening them without their tints gives, whatever the tints are. With exact lengths it also
keeps the measures of the row.

* `Box.openedBoxes`: the boxes of a row with colored rows opened, the tints left out.
* `Box.openedBoxes_wrapTinted`: the tints do not change these boxes.
* `Box.measures_hbox_wrapTinted`: nor do they change the width, the height and the depth.
-/

namespace Typeset

open Box

variable {α : Type} [Scalar α]

/-! ## Opened boxes -/

namespace Box

/-- The boxes of a row with colored rows opened. -/
def openedBoxes (bs : List (Box α)) : List (Box α) := (opened [] bs).map Prod.fst

/-- The tints around do not matter for the boxes. -/
theorem opened_map_fst (path : List Tint) (bs : List (Box α)) :
    (opened path bs).map Prod.fst = openedBoxes bs := by
  have h (p q : List Tint) : (opened p bs).map Prod.fst = (opened q bs).map Prod.fst := by
    fun_induction opened p bs generalizing q with
    | case1 => simp [opened]
    | case2 p bs _ _ _ fg bg _ _ _ shift inner children hz iho ihr =>
      rw [opened, if_pos hz, List.map_append, List.map_append, iho, ihr]
    | case3 p bs _ _ _ fg bg _ _ _ shift inner children hz ihr =>
      rw [opened, if_neg hz, List.map_cons, List.map_cons, ihr q]
    | case4 p b bs hb ihr =>
      rw [opened, List.map_cons, List.map_cons, ihr q]
      exact hb
  exact h path []

theorem map_box_pieces (b : Box α) : b.pieces.map Tinted.box = openedBoxes b.children := by
  rw [openedBoxes, ← tintedPieces_eq_opened, tintedPieces, List.map_map]
  rfl

theorem openedBoxes_cons (b : Box α) (bs : List (Box α)) :
    openedBoxes (b :: bs) = openedBoxes [b] ++ openedBoxes bs := by
  unfold openedBoxes
  rw [opened.eq_def, opened.eq_def]
  simp only
  split
  · split <;> simp [opened]
  · simp [opened]

/-- A colored row is opened. -/
theorem openedBoxes_colored (hz : Scalar.isZero (0.0 : α) = true) (bs : List (Box α))
    (fg bg : Option Color) : openedBoxes [(hbox bs).colored fg bg] = openedBoxes bs := by
  rw [openedBoxes, colored, hbox, unshifted, unshifted, opened, if_pos (by simp [hz])]
  simp [opened, opened_map_fst]

end Box

/-! ## Runs -/

namespace TintRun

/-- A box that is put in front of runs comes before their boxes. -/
theorem openedBoxes_push (hz : Scalar.isZero (0.0 : α) = true) (box : Box α)
    (marks : List TintMark) (runs : List (TintRun α)) :
    openedBoxes (toBoxes (push box marks runs)) =
      openedBoxes [box] ++ openedBoxes (toBoxes runs) := by
  fun_induction push box marks runs with
  | case1 runs => rw [toBoxes, toBox, openedBoxes_cons]
  | case2 m ms n inner runs _ ih =>
    rw [toBoxes, toBox, openedBoxes_cons, openedBoxes_colored hz, ih, toBoxes, toBox,
      openedBoxes_cons (((hbox (toBoxes inner)).colored _ _)), openedBoxes_colored hz,
      List.append_assoc]
  | case3 m ms n inner runs _ ih | case4 m ms runs _ ih =>
    rw [toBoxes, toBox, openedBoxes_cons, openedBoxes_colored hz, ih]
    simp [toBoxes, openedBoxes, opened]

/-- The widths of runs with a box put in front of them. -/
theorem sum_width_push (box : Box Rat) (marks : List TintMark) (runs : List (TintRun Rat)) :
    ((toBoxes (push box marks runs)).map width).sum =
      box.width + ((toBoxes runs).map width).sum := by
  have hrun (mark : TintMark) (inner : List (TintRun Rat)) :
      (toBox (run mark inner)).width = ((toBoxes inner).map width).sum := by
    rw [toBox]
    exact Scalar.sum_rat _
  fun_induction push box marks runs with
  | case1 runs => simp [toBoxes, toBox]
  | case2 m ms n inner runs _ ih => simp [toBoxes, hrun, ih, add_assoc]
  | case3 m ms n inner runs _ ih | case4 m ms runs _ ih => simp [toBoxes, hrun, ih]

/-- The largest of a measure over runs with a box put in front of them, where a colored row measures
as much as the largest of its boxes. -/
theorem largest_push {f : Box Rat → Rat}
    (hf : ∀ bs fg bg, f ((hbox bs).colored fg bg) = Scalar.largest 0.0 (bs.map f)) (box : Box Rat)
    (marks : List TintMark) (runs : List (TintRun Rat)) :
    Scalar.largest 0.0 ((toBoxes (push box marks runs)).map f) =
      max (f box) (Scalar.largest 0.0 ((toBoxes runs).map f)) := by
  have hrun (mark : TintMark) (inner : List (TintRun Rat)) :
      f (toBox (run mark inner)) = Scalar.largest 0.0 ((toBoxes inner).map f) := by
    rw [toBox, hf]
  -- A new run holds nothing but the box.
  have hnew (mark : TintMark) {inner : List (TintRun Rat)} (rs : List (TintRun Rat))
      (h : Scalar.largest 0.0 ((toBoxes inner).map f) =
        max (f box) (Scalar.largest 0.0 ((toBoxes []).map f))) :
      Scalar.largest 0.0 ((toBoxes (run mark inner :: rs)).map f) =
        max (f box) (Scalar.largest 0.0 ((toBoxes rs).map f)) := by
    rw [toBoxes, List.map_cons, Scalar.largest_cons_rat, hrun, h, max_assoc]
    exact congrArg _ (max_eq_right (Scalar.le_largest_rat _ _))
  fun_induction push box marks runs with
  | case1 runs => rw [toBoxes, toBox, List.map_cons, Scalar.largest_cons_rat]
  | case2 m ms n inner runs _ ih =>
    simp only [toBoxes, List.map_cons, Scalar.largest_cons_rat, hrun, ih, max_assoc]
  | case3 m ms n inner runs _ ih | case4 m ms runs _ ih => exact hnew m _ ih

end TintRun

/-! ## Rows -/

/-- Opening a row of tinted boxes gives the boxes that opening the row without tints gives. -/
theorem openedBoxes_wrapTinted (hz : Scalar.isZero (0.0 : α) = true) (items : List (Tinted α)) :
    openedBoxes (wrapTinted items) = openedBoxes (items.map Tinted.box) := by
  unfold wrapTinted TintRun.ofList
  induction items with
  | nil => rfl
  | cons p items ih =>
    rw [List.foldr_cons, TintRun.openedBoxes_push hz, ih, List.map_cons, ← openedBoxes_cons]

theorem sum_width_wrapTinted (items : List (Tinted Rat)) :
    Scalar.sum ((wrapTinted items).map width) = Scalar.sum ((items.map Tinted.box).map width) := by
  rw [Scalar.sum_rat, Scalar.sum_rat]
  unfold wrapTinted TintRun.ofList
  induction items with
  | nil => rfl
  | cons p items ih => simp [TintRun.sum_width_push, ih]

theorem largest_wrapTinted {f : Box Rat → Rat}
    (hf : ∀ bs fg bg, f ((hbox bs).colored fg bg) = Scalar.largest 0.0 (bs.map f))
    (items : List (Tinted Rat)) :
    Scalar.largest 0.0 ((wrapTinted items).map f) =
      Scalar.largest 0.0 ((items.map Tinted.box).map f) := by
  unfold wrapTinted TintRun.ofList
  induction items with
  | nil => rfl
  | cons p items ih =>
    rw [List.foldr_cons, TintRun.largest_push hf, ih, List.map_cons, List.map_cons,
      Scalar.largest_cons_rat]

/-- With exact lengths a row of tinted boxes has the measures of the row without tints. -/
theorem measures_hbox_wrapTinted (items : List (Tinted Rat)) :
    (hbox (wrapTinted items)).width = (hbox (items.map Tinted.box)).width ∧
      (hbox (wrapTinted items)).height = (hbox (items.map Tinted.box)).height ∧
      (hbox (wrapTinted items)).depth = (hbox (items.map Tinted.box)).depth := by
  -- A colored row is not shifted.
  have hzero (x : Rat) : x - 0.0 = x ∧ x + 0.0 = x := by simp [Scalar.zero_rat]
  exact ⟨sum_width_wrapTinted items, largest_wrapTinted (fun _ _ _ => (hzero _).1) items,
    largest_wrapTinted (fun _ _ _ => (hzero _).2) items⟩

end Typeset
