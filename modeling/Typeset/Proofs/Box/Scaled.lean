import Mathlib.Algebra.BigOperators.Ring.List
import Mathlib.Algebra.Order.Field.Rat
import Mathlib.Algebra.Order.Field.Basic
import Mathlib.Tactic.Ring
import Typeset.Proofs.Box.Measured
import Typeset.Proofs.Scalar

/-!
# Boxes at another scale

Every length of a box multiplied by one number, with exact lengths.

* `Scalar.largest_map_mul`, `Scalar.sum_map_mul`: sums and largest lengths follow the scale.
* `Box.scaled`: the box at another scale.
* `Box.scaled_hbox`, `Box.scaled_vbox`, ...: building boxes follows the scale. Where lengths are
  compared, the scale is positive.
* `scaled_wrapTinted`: so does wrapping boxes in tints.
-/

namespace Typeset

/-! ## Lengths -/

namespace Scalar

variable {k : Rat}

theorem larger_mul (hk : 0 < k) (a b : Rat) : larger (k * a) (k * b) = k * larger a b := by
  rw [larger_rat, larger_rat, mul_max_of_nonneg _ _ hk.le]

theorem largest_map_mul (hk : 0 < k) (start : Rat) (xs : List Rat) :
    largest (k * start) (xs.map (k * ·)) = k * largest start xs := by
  unfold largest
  induction xs generalizing start with
  | nil => rfl
  | cons x xs ih => rw [List.map_cons, List.foldl_cons, larger_mul hk, ih, List.foldl_cons]

theorem sum_map_mul (k : Rat) (xs : List Rat) : sum (xs.map (k * ·)) = k * sum xs := by
  rw [sum_rat, sum_rat, List.sum_map_mul_left, List.map_id']

theorem mul_zero_rat (k : Rat) : k * 0.0 = 0.0 := by
  rw [zero_rat, mul_zero]

theorem mul_lt_iff (hk : 0 < k) (a b : Rat) : k * a < k * b ↔ a < b := mul_lt_mul_iff_of_pos_left hk

theorem mul_le_iff (hk : 0 < k) (a b : Rat) : k * a ≤ k * b ↔ a ≤ b := mul_le_mul_iff_of_pos_left hk

theorem mul_le_zero_iff (hk : 0 < k) (a : Rat) : k * a ≤ 0.0 ↔ a ≤ 0.0 := by
  rw [← mul_le_iff hk a, mul_zero_rat]

theorem zero_lt_mul_iff (hk : 0 < k) (a : Rat) : 0.0 < k * a ↔ 0.0 < a := by
  rw [← mul_lt_iff hk _ a, mul_zero_rat]

end Scalar

namespace Box

mutual

/-- The box with every length multiplied by `k`. -/
def scaled (k : Rat) : Box Rat → Box Rat
  | ⟨w, h, d, s, .char c font size⟩ => ⟨k * w, k * h, k * d, k * s, .char c font (k * size)⟩
  | ⟨w, h, d, s, .rule⟩ => ⟨k * w, k * h, k * d, k * s, .rule⟩
  | ⟨w, h, d, s, .strut⟩ => ⟨k * w, k * h, k * d, k * s, .strut⟩
  | ⟨w, h, d, s, .glue breakable⟩ => ⟨k * w, k * h, k * d, k * s, .glue breakable⟩
  | ⟨w, h, d, s, .delimiter c⟩ => ⟨k * w, k * h, k * d, k * s, .delimiter c⟩
  | ⟨w, h, d, s, .hbox children⟩ => ⟨k * w, k * h, k * d, k * s, .hbox (scaledAll k children)⟩
  | ⟨w, h, d, s, .vbox children baseline⟩ =>
    ⟨k * w, k * h, k * d, k * s, .vbox (scaledAll k children) baseline⟩
  | ⟨w, h, d, s, .colored fg bg child⟩ =>
    ⟨k * w, k * h, k * d, k * s, .colored fg bg (child.scaled k)⟩
  | ⟨w, h, d, s, .framed thickness padding frame bg child⟩ =>
    ⟨k * w, k * h, k * d, k * s, .framed (k * thickness) (k * padding) frame bg (child.scaled k)⟩

/-- The boxes with every length multiplied by `k`. -/
def scaledAll (k : Rat) : List (Box Rat) → List (Box Rat)
  | [] => []
  | b :: bs => b.scaled k :: scaledAll k bs

end

variable (k : Rat)

theorem scaledAll_eq_map (bs : List (Box Rat)) : scaledAll k bs = bs.map (scaled k) := by
  induction bs with
  | nil => rw [scaledAll, List.map_nil]
  | cons b bs ih => rw [scaledAll, List.map_cons, ih]

theorem map_scaled_intersperse (between : Box Rat) (bs : List (Box Rat)) :
    (bs.intersperse between).map (scaled k) =
      (bs.map (scaled k)).intersperse (between.scaled k) := by
  induction bs with
  | nil => rfl
  | cons b bs ih =>
    cases bs with
    | nil => rfl
    | cons c bs => simpa using ih

/-! ## Measures -/

@[simp] theorem width_scaled (b : Box Rat) : (b.scaled k).width = k * b.width := by
  obtain ⟨w, h, d, s, content⟩ := b
  cases content <;> rfl

@[simp] theorem height_scaled (b : Box Rat) : (b.scaled k).height = k * b.height := by
  obtain ⟨w, h, d, s, content⟩ := b
  cases content <;> rfl

@[simp] theorem depth_scaled (b : Box Rat) : (b.scaled k).depth = k * b.depth := by
  obtain ⟨w, h, d, s, content⟩ := b
  cases content <;> rfl

@[simp] theorem shift_scaled (b : Box Rat) : (b.scaled k).shift = k * b.shift := by
  obtain ⟨w, h, d, s, content⟩ := b
  cases content <;> rfl

@[simp] theorem total_scaled (b : Box Rat) : (b.scaled k).total = k * b.total := by
  simp only [total, height_scaled, depth_scaled, mul_add]

@[simp] theorem scaled_withShift (b : Box Rat) (shift : Rat) :
    (b.withShift shift).scaled k = (b.scaled k).withShift (k * shift) := by
  obtain ⟨w, h, d, s, content⟩ := b
  cases content <;> rfl

/-! ## Boxes without children -/

/-- No shift is no shift at any scale. -/
theorem unshifted_of_mul_zero (w h d : Rat) (content : BoxContent Rat (Box Rat)) :
    (⟨w, h, d, k * 0.0, content⟩ : Box Rat) = unshifted w h d content := by
  rw [Scalar.mul_zero_rat, unshifted]

@[simp] theorem scaled_strut (w h d : Rat) :
    (strut w h d).scaled k = strut (k * w) (k * h) (k * d) :=
  unshifted_of_mul_zero k _ _ _ .strut

@[simp] theorem scaled_empty : (empty : Box Rat).scaled k = empty := by
  simp only [empty, scaled_strut, Scalar.mul_zero_rat]

@[simp] theorem scaled_vkern (height : Rat) : (vkern height).scaled k = vkern (k * height) := by
  simp only [vkern, scaled_strut, Scalar.mul_zero_rat]

@[simp] theorem scaled_rule (w h d : Rat) :
    (rule w h d).scaled k = rule (k * w) (k * h) (k * d) :=
  unshifted_of_mul_zero k _ _ _ .rule

@[simp] theorem scaled_glue (w : Rat) (breakable : Bool) :
    (glue w breakable).scaled k = glue (k * w) breakable :=
  (unshifted_of_mul_zero k (k * w) (k * 0.0) (k * 0.0) (.glue breakable)).trans <| by
    rw [Scalar.mul_zero_rat, glue]

@[simp] theorem scaled_kern (w : Rat) : (kern w).scaled k = kern (k * w) := scaled_glue k w false

@[simp] theorem scaled_glyph (c : Char) (font : Font) (size w h d : Rat) :
    (glyph c font size w h d).scaled k = glyph c font (k * size) (k * w) (k * h) (k * d) :=
  unshifted_of_mul_zero k _ _ _ (.char c font (k * size))

@[simp] theorem scaled_delimiter (c : Char) (w h d : Rat) :
    (delimiter c w h d).scaled k = delimiter c (k * w) (k * h) (k * d) :=
  unshifted_of_mul_zero k _ _ _ (.delimiter c)

/-! ## Boxes with children -/

@[simp] theorem scaled_colored (b : Box Rat) (fg bg : Option Color) :
    (b.colored fg bg).scaled k = (b.scaled k).colored fg bg :=
  (unshifted_of_mul_zero k _ _ _ (.colored fg bg (b.scaled k))).trans <| by
    simp only [colored, width_scaled, height_scaled, depth_scaled]

@[simp] theorem scaled_framed (b : Box Rat) (thickness padding : Rat) (frame bg : Option Color) :
    (b.framed thickness padding frame bg).scaled k =
      (b.scaled k).framed (k * thickness) (k * padding) frame bg :=
  (unshifted_of_mul_zero k _ _ _
    (.framed (k * thickness) (k * padding) frame bg (b.scaled k))).trans <| by
    simp only [framed, width_scaled, height_scaled, depth_scaled, mul_add, mul_left_comm k]

variable {k : Rat} (hk : 0 < k)
include hk

/-- The largest of a measure of boxes that follows the scale. -/
theorem largest_map_scaled {f : Box Rat → Rat} (hf : ∀ b, f (b.scaled k) = k * f b)
    (start : Rat) (bs : List (Box Rat)) :
    Scalar.largest (k * start) ((bs.map (scaled k)).map f) =
      k * Scalar.largest start (bs.map f) := by
  rw [← Scalar.largest_map_mul hk, List.map_map, List.map_map]
  simp only [Function.comp_def, hf]

theorem rowHeight_scaled (start : Rat) (bs : List (Box Rat)) :
    rowHeight (k * start) (bs.map (scaled k)) = k * rowHeight start bs :=
  largest_map_scaled hk (fun b => by rw [height_scaled, shift_scaled, mul_sub]) start bs

theorem rowDepth_scaled (start : Rat) (bs : List (Box Rat)) :
    rowDepth (k * start) (bs.map (scaled k)) = k * rowDepth start bs :=
  largest_map_scaled hk (fun b => by rw [depth_scaled, shift_scaled, mul_add]) start bs

theorem columnWidth_scaled (bs : List (Box Rat)) :
    columnWidth (bs.map (scaled k)) = k * columnWidth bs := by
  have h := largest_map_scaled hk (width_scaled k) 0.0 bs
  rwa [Scalar.mul_zero_rat] at h

theorem scaled_hbox (bs : List (Box Rat)) :
    (hbox bs).scaled k = hbox (bs.map (scaled k)) := by
  have hwidth : Scalar.sum ((bs.map (scaled k)).map width) = k * Scalar.sum (bs.map width) := by
    rw [← Scalar.sum_map_mul, List.map_map, List.map_map]
    simp only [Function.comp_def, width_scaled]
  have hheight := rowHeight_scaled hk 0.0 bs
  have hdepth := rowDepth_scaled hk 0.0 bs
  rw [Scalar.mul_zero_rat] at hheight hdepth
  refine (unshifted_of_mul_zero k _ _ _ (.hbox (scaledAll k bs))).trans ?_
  simp only [hbox, scaledAll_eq_map, hwidth, hheight, hdepth]

omit hk in
theorem stackHeight_scaled (start : Rat) (n : Nat) (bs : List (Box Rat)) :
    stackHeight (k * start) n (bs.map (scaled k)) = k * stackHeight start n bs := by
  fun_induction stackHeight start n bs with
  | case1 => simp [stackHeight]
  | case2 start b bs => simp [stackHeight, mul_add]
  | case3 start n b bs ih => simpa [stackHeight, mul_add] using ih

omit hk in
theorem stackDepth_scaled (start : Rat) (n : Nat) (bs : List (Box Rat)) :
    stackDepth (k * start) n (bs.map (scaled k)) = k * stackDepth start n bs := by
  have hfold (bs : List (Box Rat)) (start : Rat) :
      (bs.map (scaled k)).foldl (fun d c => d + c.total) (k * start) =
        k * bs.foldl (fun d c => d + c.total) start := by
    induction bs generalizing start with
    | nil => rfl
    | cons b bs ih => simp [← mul_add, ih]
  fun_induction stackDepth start n bs with
  | case1 => simp [stackDepth]
  | case2 b bs => simp [stackDepth, ← mul_add, hfold]
  | case3 n b bs ih => simpa [stackDepth] using ih

theorem scaled_vbox (bs : List (Box Rat)) (baseline : Nat) :
    (vbox bs baseline).scaled k = vbox (bs.map (scaled k)) baseline := by
  have hheight := stackHeight_scaled (k := k) 0.0 baseline bs
  have hdepth := stackDepth_scaled (k := k) 0.0 baseline bs
  rw [Scalar.mul_zero_rat] at hheight hdepth
  refine (unshifted_of_mul_zero k _ _ _ (.vbox (scaledAll k bs) baseline)).trans ?_
  simp only [vbox, scaledAll_eq_map, columnWidth_scaled hk, hheight, hdepth]

theorem scaled_aligned (b : Box Rat) (width : Rat) (align : HAlign) :
    (b.aligned width align).scaled k = (b.scaled k).aligned (k * width) align := by
  have hextra : k * width - (b.scaled k).width = k * (width - b.width) := by
    rw [width_scaled, mul_sub]
  unfold aligned
  simp only [hextra, Scalar.mul_le_zero_iff hk]
  split
  · rfl
  · cases align <;> simp [scaled_hbox hk, Scalar.mul_zero_rat, mul_div_assoc]

end Box

/-! ## Tints -/

namespace TintRun

open Box

mutual

/-- The run with every length of its boxes multiplied by `k`. -/
def scaled (k : Rat) : TintRun Rat → TintRun Rat
  | plain box => plain (box.scaled k)
  | run mark inner => run mark (scaledAll k inner)

/-- The runs with every length of their boxes multiplied by `k`. -/
def scaledAll (k : Rat) : List (TintRun Rat) → List (TintRun Rat)
  | [] => []
  | r :: rs => r.scaled k :: scaledAll k rs

end

theorem push_scaled (k : Rat) (box : Box Rat) (marks : List TintMark) (runs : List (TintRun Rat)) :
    push (box.scaled k) marks (scaledAll k runs) = scaledAll k (push box marks runs) := by
  fun_induction push box marks runs with
  | case1 runs => simp [push, scaledAll, scaled]
  | case2 m ms n inner runs hid ih => simp [push, scaledAll, scaled, hid, ih]
  | case3 m ms n inner runs hid ih =>
    rw [scaledAll] at ih
    simp [push, scaledAll, scaled, hid, ih]
  | case4 m ms runs hruns ih =>
    rw [scaledAll] at ih
    cases runs with
    | nil => simp [push, scaledAll, scaled, ih]
    | cons r rs =>
      cases r with
      | plain b => simp [push, scaledAll, scaled, ih]
      | run n inner => exact (hruns n inner rs rfl).elim

mutual

theorem toBox_scaled {k : Rat} (hk : 0 < k) (r : TintRun Rat) :
    (r.scaled k).toBox = r.toBox.scaled k := by
  cases r with
  | plain box => simp only [scaled, toBox]
  | run mark inner =>
    simp only [scaled, toBox, toBoxes_scaled hk inner, scaled_colored, scaled_hbox hk]

theorem toBoxes_scaled {k : Rat} (hk : 0 < k) (runs : List (TintRun Rat)) :
    toBoxes (scaledAll k runs) = (toBoxes runs).map (Box.scaled k) := by
  cases runs with
  | nil => simp only [scaledAll, toBoxes, List.map_nil]
  | cons r rs =>
    simp only [scaledAll, toBoxes, List.map_cons, toBox_scaled hk r, toBoxes_scaled hk rs]

end

end TintRun

/-- The piece with every length of its box multiplied by `k`. -/
def Tinted.scaled (k : Rat) (p : Tinted Rat) : Tinted Rat := { p with box := p.box.scaled k }

/-- Wrapping boxes in tints follows the scale. -/
theorem wrapTinted_scaled {k : Rat} (hk : 0 < k) (items : List (Tinted Rat)) :
    wrapTinted (items.map (Tinted.scaled k)) = (wrapTinted items).map (Box.scaled k) := by
  have hruns : TintRun.ofList (items.map (Tinted.scaled k)) =
      TintRun.scaledAll k (TintRun.ofList items) := by
    unfold TintRun.ofList
    induction items with
    | nil => simp only [List.map_nil, List.foldr_nil, TintRun.scaledAll]
    | cons p items ih =>
      rw [List.map_cons, List.foldr_cons, ih, List.foldr_cons]
      exact TintRun.push_scaled k p.box p.marks _
  rw [wrapTinted, hruns, TintRun.toBoxes_scaled hk, wrapTinted]

end Typeset
