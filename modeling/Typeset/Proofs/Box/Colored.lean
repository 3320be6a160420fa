import Typeset.Proofs.Box.Measured

/-!
# The color flag of boxes

Whether a box of a tree sets a color, for every way to build boxes.

* `Box.isColored_hbox`, `Box.isColored_colored`, ...: the flag of a box from the flags of the boxes
  it is built from.
* `Tinted.isColored`: a box that sets a color or is drawn in a tint.
* `anyColored_wrapTinted`: wrapping boxes in tints that have a color sets a color for each box in
  one.
-/

namespace Typeset

/-- The tint has a color. -/
def Tint.hasColor (t : Tint) : Bool := t.fg.isSome || t.bg.isSome

namespace Box

variable {α : Type}

/-! ## Several boxes -/

theorem anyColored_eq_any (bs : List (Box α)) : anyColored bs = bs.any isColored := by
  induction bs with
  | nil => rw [anyColored, List.any_nil]
  | cons b bs ih => rw [anyColored, List.any_cons, ih]

theorem any_isColored_intersperse {between : Box α} (h : between.isColored = false)
    (bs : List (Box α)) : (bs.intersperse between).any isColored = bs.any isColored := by
  induction bs with
  | nil => rfl
  | cons b bs ih =>
    cases bs with
    | nil => rfl
    | cons c bs => simp_all

/-! ## Boxes that are put together -/

@[simp] theorem isColored_withShift [Scalar α] (b : Box α) (shift : α) :
    (b.withShift shift).isColored = b.isColored := by
  obtain ⟨w, h, d, s, content⟩ := b
  cases content <;> rfl

variable [Scalar α]

@[simp] theorem isColored_strut (w h d : α) : (strut w h d).isColored = false := rfl

@[simp] theorem isColored_empty : (empty : Box α).isColored = false := isColored_strut _ _ _

@[simp] theorem isColored_vkern (height : α) : (vkern height).isColored = false :=
  isColored_strut _ _ _

@[simp] theorem isColored_rule (w h d : α) : (rule w h d).isColored = false := rfl

@[simp] theorem isColored_glue (w : α) (breakable : Bool) :
    (glue w breakable).isColored = false := rfl

@[simp] theorem isColored_kern (w : α) : (kern w).isColored = false := isColored_glue _ _

@[simp] theorem isColored_glyph (c : Char) (font : Font) (size w h d : α) :
    (glyph c font size w h d).isColored = false := rfl

@[simp] theorem isColored_delimiter (c : Char) (w h d : α) :
    (delimiter c w h d).isColored = false := rfl

@[simp] theorem isColored_hbox (bs : List (Box α)) : (hbox bs).isColored = bs.any isColored :=
  anyColored_eq_any bs

@[simp] theorem isColored_vbox (bs : List (Box α)) (baseline : Nat) :
    (vbox bs baseline).isColored = bs.any isColored :=
  anyColored_eq_any bs

@[simp] theorem isColored_colored (b : Box α) (fg bg : Option Color) :
    (b.colored fg bg).isColored = (fg.isSome || bg.isSome || b.isColored) := rfl

@[simp] theorem isColored_framed (b : Box α) (thickness padding : α) (frame bg : Option Color) :
    (b.framed thickness padding frame bg).isColored =
      (frame.isSome || bg.isSome || b.isColored) := rfl

@[simp] theorem isColored_aligned (b : Box α) (width : α) (align : HAlign) :
    (b.aligned width align).isColored = b.isColored := by
  unfold aligned
  simp only
  split
  · rfl
  · cases align <;> simp

end Box

/-! ## Tints -/

variable {α : Type}

/-- The box sets a color, or is drawn in a tint. -/
def Tinted.isColored (p : Tinted α) : Bool := p.box.isColored || !p.marks.isEmpty

variable [Scalar α]

namespace TintRun

open Box

/-- A box in front of runs sets a color of its own, or that of the tints it is drawn in. -/
theorem any_isColored_push (box : Box α) {marks : List TintMark}
    (h : ∀ m ∈ marks, m.tint.hasColor = true) (runs : List (TintRun α)) :
    (toBoxes (push box marks runs)).any isColored =
      (box.isColored || !marks.isEmpty || (toBoxes runs).any isColored) := by
  fun_cases push box marks runs with
  | case1 => simp [toBoxes, toBox]
  | case2 m ms n inner runs _ | case3 m ms n inner runs _ | case4 m ms _ =>
    -- The outermost tint sets a color.
    have hm : (m.tint.fg.isSome || m.tint.bg.isSome) = true := h m (by simp)
    simp [toBoxes, toBox, isColored_colored, hm]

end TintRun

/-- A row of boxes in tints that have colors sets a color if one of the boxes does or is drawn in a
tint. -/
theorem any_isColored_wrapTinted {items : List (Tinted α)}
    (h : ∀ p ∈ items, ∀ m ∈ p.marks, m.tint.hasColor = true) :
    (wrapTinted items).any Box.isColored = items.any Tinted.isColored := by
  unfold wrapTinted TintRun.ofList
  induction items with
  | nil => simp [TintRun.toBoxes]
  | cons p items ih =>
    rw [List.forall_mem_cons] at h
    rw [List.foldr_cons, TintRun.any_isColored_push _ h.1, ih h.2, List.any_cons, Tinted.isColored]

end Typeset
