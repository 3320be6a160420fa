import Typeset.Proofs.Box.Tint

/-!
# Glyphs of boxes

The characters that stand anywhere in a box, each with its font size. A stretched delimiter has
none and is no glyph.

* `Box.glyphs`: the glyphs of a box, in reading order.
* `Box.glyphs_hbox`, `Box.glyphs_aligned` and their like: a box that is put together has the glyphs
  of its parts.
* `flatMap_glyphs_wrapTinted`: tints change no glyph.
-/

namespace Typeset

variable {α : Type}

namespace Box

mutual

/-- The characters in the tree of a box, with their font sizes. -/
def glyphs : Box α → List (Char × α)
  | ⟨_, _, _, _, .char c _ size⟩ => [(c, size)]
  | ⟨_, _, _, _, .hbox children⟩ | ⟨_, _, _, _, .vbox children _⟩ => glyphsOfAll children
  | ⟨_, _, _, _, .colored _ _ child⟩ | ⟨_, _, _, _, .framed _ _ _ _ child⟩ => child.glyphs
  | ⟨_, _, _, _, .delimiter _⟩ | ⟨_, _, _, _, .rule⟩ | ⟨_, _, _, _, .strut⟩
  | ⟨_, _, _, _, .glue _⟩ => []

/-- The characters of boxes, with their font sizes. -/
def glyphsOfAll : List (Box α) → List (Char × α)
  | [] => []
  | b :: bs => b.glyphs ++ glyphsOfAll bs

end

theorem glyphsOfAll_eq_flatMap (bs : List (Box α)) : glyphsOfAll bs = bs.flatMap glyphs := by
  induction bs with
  | nil => rw [glyphsOfAll, List.flatMap_nil]
  | cons b bs ih => rw [glyphsOfAll, List.flatMap_cons, ih]

/-- A box without glyphs may stand between any two boxes. -/
theorem flatMap_glyphs_intersperse {between : Box α} (h : between.glyphs = [])
    (bs : List (Box α)) : (bs.intersperse between).flatMap glyphs = bs.flatMap glyphs := by
  induction bs with
  | nil => rfl
  | cons b bs ih =>
    cases bs with
    | nil => rfl
    | cons c bs =>
      rw [List.intersperse_cons_cons, List.flatMap_cons, List.flatMap_cons, h, List.nil_append, ih,
        ← List.flatMap_cons]

/-! ## Boxes that are put together -/

@[simp] theorem glyphs_withShift [Scalar α] (b : Box α) (shift : α) :
    (b.withShift shift).glyphs = b.glyphs := by
  obtain ⟨w, h, d, s, content⟩ := b
  cases content <;> rfl

variable [Scalar α]

@[simp] theorem glyphs_strut (w h d : α) : (strut w h d).glyphs = [] := rfl

@[simp] theorem glyphs_empty : (empty : Box α).glyphs = [] := glyphs_strut _ _ _

@[simp] theorem glyphs_vkern (height : α) : (vkern height).glyphs = [] := glyphs_strut _ _ _

@[simp] theorem glyphs_rule (w h d : α) : (rule w h d).glyphs = [] := rfl

@[simp] theorem glyphs_glue (w : α) (breakable : Bool) : (glue w breakable).glyphs = [] := rfl

@[simp] theorem glyphs_kern (w : α) : (kern w).glyphs = [] := glyphs_glue _ _

@[simp] theorem glyphs_glyph (c : Char) (font : Font) (size w h d : α) :
    (glyph c font size w h d).glyphs = [(c, size)] := rfl

@[simp] theorem glyphs_delimiter (c : Char) (w h d : α) : (delimiter c w h d).glyphs = [] := rfl

@[simp] theorem glyphs_hbox (bs : List (Box α)) : (hbox bs).glyphs = bs.flatMap glyphs :=
  glyphsOfAll_eq_flatMap bs

@[simp] theorem glyphs_vbox (bs : List (Box α)) (baseline : Nat) :
    (vbox bs baseline).glyphs = bs.flatMap glyphs :=
  glyphsOfAll_eq_flatMap bs

@[simp] theorem glyphs_colored (b : Box α) (fg bg : Option Color) :
    (b.colored fg bg).glyphs = b.glyphs := rfl

@[simp] theorem glyphs_framed (b : Box α) (thickness padding : α) (frame bg : Option Color) :
    (b.framed thickness padding frame bg).glyphs = b.glyphs := rfl

@[simp] theorem glyphs_aligned (b : Box α) (width : α) (align : HAlign) :
    (b.aligned width align).glyphs = b.glyphs := by
  unfold aligned
  simp only
  split
  · rfl
  · cases align <;> simp

end Box

/-! ## Tints -/

variable [Scalar α]

namespace TintRun

open Box

/-- A box in front of runs adds its glyphs, whatever tints it is drawn in. -/
theorem flatMap_glyphs_push (box : Box α) (marks : List TintMark) (runs : List (TintRun α)) :
    (toBoxes (push box marks runs)).flatMap glyphs =
      box.glyphs ++ (toBoxes runs).flatMap glyphs := by
  fun_induction push box marks runs with
  | case1 runs => simp [toBoxes, toBox]
  | case2 m ms n inner runs _ ih => simp [toBoxes, toBox, ih, List.append_assoc]
  | case3 m ms n inner runs _ ih | case4 m ms runs _ ih => simp [toBoxes, toBox, ih]

end TintRun

/-- Tints change no glyph. -/
@[simp] theorem flatMap_glyphs_wrapTinted (items : List (Tinted α)) :
    (wrapTinted items).flatMap Box.glyphs = items.flatMap fun p => p.box.glyphs := by
  induction items with
  | nil => simp [wrapTinted, TintRun.ofList, TintRun.toBoxes]
  | cons p items ih =>
    rw [wrapTinted] at ih
    rw [wrapTinted, TintRun.ofList, List.foldr_cons, TintRun.flatMap_glyphs_push,
      ← TintRun.ofList, ih, List.flatMap_cons]

end Typeset
