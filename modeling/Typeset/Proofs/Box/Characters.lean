import Mathlib.Algebra.BigOperators.Group.List.Basic
import Mathlib.Algebra.Order.Group.Multiset
import Typeset.Proofs.Box.Paint

/-!
# Characters of boxes

The characters and stretched delimiters that stand anywhere in a box, as a multiset.

* `Box.characters`: the characters of a box, and `Box.charactersOfAll` those of several.
* `Box.coe_map_character_ink`: the ink of a box draws these characters.
* `Box.characters_hbox`, `Box.characters_aligned` and their like: a box that is put together has
  the characters of its parts.
* `charactersOfAll_wrapTinted`: tints change no character.
-/

namespace Typeset

variable {α : Type}

/-- The character of ink. -/
def Ink.character : Ink α → Char
  | char c _ _ _ | delimiter c _ _ _ => c

namespace Box

mutual

/-- The characters and delimiters in the tree of a box. -/
def characters : Box α → Multiset Char
  | ⟨_, _, _, _, .char c _ _⟩ | ⟨_, _, _, _, .delimiter c⟩ => {c}
  | ⟨_, _, _, _, .hbox children⟩ | ⟨_, _, _, _, .vbox children _⟩ => charactersOfAll children
  | ⟨_, _, _, _, .colored _ _ child⟩ | ⟨_, _, _, _, .framed _ _ _ _ child⟩ => child.characters
  | ⟨_, _, _, _, .rule⟩ | ⟨_, _, _, _, .strut⟩ | ⟨_, _, _, _, .glue _⟩ => 0

/-- The characters and delimiters of boxes. -/
def charactersOfAll : List (Box α) → Multiset Char
  | [] => 0
  | b :: bs => b.characters + charactersOfAll bs

end

@[simp] theorem charactersOfAll_nil : charactersOfAll ([] : List (Box α)) = 0 := by
  rw [charactersOfAll]

@[simp] theorem charactersOfAll_cons (b : Box α) (bs : List (Box α)) :
    charactersOfAll (b :: bs) = b.characters + charactersOfAll bs := by
  rw [charactersOfAll]

theorem charactersOfAll_eq_sum (bs : List (Box α)) :
    charactersOfAll bs = (bs.map characters).sum := by
  induction bs with
  | nil => simp
  | cons b bs ih => simp [ih]

@[simp] theorem charactersOfAll_append (bs cs : List (Box α)) :
    charactersOfAll (bs ++ cs) = charactersOfAll bs + charactersOfAll cs := by
  simp [charactersOfAll_eq_sum]

/-- Boxes without characters have none together. -/
theorem charactersOfAll_eq_zero {bs : List (Box α)} (h : ∀ b ∈ bs, b.characters = 0) :
    charactersOfAll bs = 0 := by
  induction bs with
  | nil => simp
  | cons b bs ih =>
    rw [charactersOfAll_cons, h b (by simp), ih fun c hc => h c (by simp [hc]), add_zero]

/-- A box without characters may stand between any two boxes. -/
theorem charactersOfAll_intersperse {between : Box α} (h : between.characters = 0)
    (bs : List (Box α)) : charactersOfAll (bs.intersperse between) = charactersOfAll bs := by
  induction bs with
  | nil => rfl
  | cons b bs ih =>
    cases bs with
    | nil => rfl
    | cons c bs =>
      rw [List.intersperse_cons_cons, charactersOfAll_cons, charactersOfAll_cons, h, zero_add, ih,
        ← charactersOfAll_cons]

/-! ## Ink -/

section

variable [Scalar α]

mutual

/-- The ink of a box draws its characters, in whatever color. -/
theorem coe_map_character_ink (fg : Color) (b : Box α) :
    (↑((b.ink fg).map Ink.character) : Multiset Char) = b.characters := by
  obtain ⟨w, h, d, s, content⟩ := b
  cases content with
  | char | delimiter | rule | strut | glue => rw [ink, characters]; rfl
  | hbox children | vbox children => rw [ink, characters, coe_map_character_inkAll fg children]
  | colored color bg child => rw [ink, characters, coe_map_character_ink _ child]
  | framed thickness padding frame bg child =>
    rw [ink, characters, coe_map_character_ink fg child]

theorem coe_map_character_inkAll (fg : Color) (bs : List (Box α)) :
    (↑((inkAll fg bs).map Ink.character) : Multiset Char) = charactersOfAll bs := by
  cases bs with
  | nil => rw [inkAll, charactersOfAll_nil]; rfl
  | cons b bs =>
    rw [inkAll, List.map_append, ← Multiset.coe_add, coe_map_character_ink fg b,
      coe_map_character_inkAll fg bs, charactersOfAll_cons]

end

end

/-! ## Boxes that are put together -/

@[simp] theorem characters_withShift [Scalar α] (b : Box α) (shift : α) :
    (b.withShift shift).characters = b.characters := by
  obtain ⟨w, h, d, s, content⟩ := b
  cases content <;> simp only [withShift, characters]

variable [Scalar α]

@[simp] theorem characters_strut (w h d : α) : (strut w h d).characters = 0 := by
  simp only [strut, unshifted, characters]

@[simp] theorem characters_empty : (empty : Box α).characters = 0 := characters_strut _ _ _

@[simp] theorem characters_vkern (height : α) : (vkern height).characters = 0 :=
  characters_strut _ _ _

@[simp] theorem characters_rule (w h d : α) : (rule w h d).characters = 0 := by
  simp only [rule, unshifted, characters]

@[simp] theorem characters_glue (w : α) (breakable : Bool) :
    (glue w breakable).characters = 0 := by
  simp only [glue, unshifted, characters]

@[simp] theorem characters_kern (w : α) : (kern w).characters = 0 := characters_glue _ _

@[simp] theorem characters_glyph (c : Char) (font : Font) (size w h d : α) :
    (glyph c font size w h d).characters = {c} := by
  simp only [glyph, unshifted, characters]

@[simp] theorem characters_delimiter (c : Char) (w h d : α) :
    (delimiter c w h d).characters = {c} := by
  simp only [delimiter, unshifted, characters]

@[simp] theorem characters_hbox (bs : List (Box α)) :
    (hbox bs).characters = charactersOfAll bs := by
  simp only [hbox, unshifted, characters]

@[simp] theorem characters_vbox (bs : List (Box α)) (baseline : Nat) :
    (vbox bs baseline).characters = charactersOfAll bs := by
  simp only [vbox, unshifted, characters]

@[simp] theorem characters_colored (b : Box α) (fg bg : Option Color) :
    (b.colored fg bg).characters = b.characters := by
  simp only [colored, unshifted, characters]

@[simp] theorem characters_framed (b : Box α) (thickness padding : α) (frame bg : Option Color) :
    (b.framed thickness padding frame bg).characters = b.characters := by
  simp only [framed, unshifted, characters]

@[simp] theorem characters_aligned (b : Box α) (width : α) (align : HAlign) :
    (b.aligned width align).characters = b.characters := by
  unfold aligned
  simp only
  split
  · rfl
  · cases align <;> simp

end Box

/-! ## Tints -/

namespace TintRun

open Box

variable [Scalar α]

/-- A box in front of runs adds its characters, whatever tints it is drawn in. -/
theorem charactersOfAll_push (box : Box α) (marks : List TintMark) (runs : List (TintRun α)) :
    charactersOfAll (toBoxes (push box marks runs)) =
      box.characters + charactersOfAll (toBoxes runs) := by
  fun_induction push box marks runs with
  | case1 runs => simp [toBoxes, toBox]
  | case2 m ms n inner runs _ ih => simp [toBoxes, toBox, ih, add_assoc]
  | case3 m ms n inner runs _ ih | case4 m ms runs _ ih =>
    simp [toBoxes, toBox, ih]

end TintRun

/-- Tints change no character. -/
@[simp] theorem charactersOfAll_wrapTinted [Scalar α] (items : List (Tinted α)) :
    Box.charactersOfAll (wrapTinted items) = Box.charactersOfAll (items.map Tinted.box) := by
  induction items with
  | nil => simp [wrapTinted, TintRun.ofList, TintRun.toBoxes]
  | cons p items ih =>
    rw [wrapTinted] at ih
    rw [wrapTinted, TintRun.ofList, List.foldr_cons, TintRun.charactersOfAll_push,
      ← TintRun.ofList, ih, List.map_cons, Box.charactersOfAll_cons]

end Typeset
