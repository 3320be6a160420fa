import Mathlib.Data.List.Induction
import Typeset.Picture

/-!
# Alignment in a maximal width

In a maximal width a formula stands at the left. Turning the maximal width on moves a width that is
set to the left; a width that is set later keeps the alignment it comes with, and the picture passes
that over.

* `PictureOptions.StandsLeft`: in a maximal width, a width that is set is aligned to the left.
* `PictureOptions.standsLeft_set_iff`, `PictureOptions.standsLeft_set_width_iff`,
  `PictureOptions.standsLeft_set`: what one setting does to that.
* `PictureOptions.picture_withMaxWidth`: the picture does not depend on it.
* `PictureOptions.standsLeft_ofSettings_iff`: which settings, one after the other, keep to it.
-/

namespace Typeset

variable {α : Type}

namespace Setting

/-- The setting leaves the width and the maximal width as they are. -/
def keepsWidth : Setting α → Bool
  | .display _ | .inline _ | .width .. | .maxWidth _ => false
  | .style _ | .fontMask _ | .fg _ | .bg _ | .interline _ | .insets _ => true

/-- The setting is a width. -/
def isWidth : Setting α → Bool
  | .width .. => true
  | _ => false

end Setting

namespace PictureOptions

variable [Scalar α]

/-- In a maximal width, a width that is set is aligned to the left. -/
def StandsLeft (o : PictureOptions α) : Prop :=
  o.maxWidth = true → ∀ (w : α) (a : HAlign), o.width = some (w, a) → a = .left

/-! ## One setting -/

theorem set_of_keepsWidth (o : PictureOptions α) {s : Setting α} (h : s.keepsWidth = true) :
    (o.set s).width = o.width ∧ (o.set s).maxWidth = o.maxWidth := by
  cases s with
  | display | inline | width | maxWidth => cases h
  | style | fontMask | fg | bg | interline | insets => exact ⟨rfl, rfl⟩

/-- A setting that leaves the width and the maximal width as they are changes nothing. -/
theorem standsLeft_set_iff (o : PictureOptions α) {s : Setting α} (h : s.keepsWidth = true) :
    (o.set s).StandsLeft ↔ o.StandsLeft := by
  obtain ⟨hwidth, hmax⟩ := o.set_of_keepsWidth h
  rw [StandsLeft, StandsLeft, hwidth, hmax]

/-- A width stands at the left if it is aligned so, or if it is no maximal one. -/
theorem standsLeft_set_width_iff (o : PictureOptions α) (w : α) (a : HAlign) :
    (o.set (.width w a)).StandsLeft ↔ (o.maxWidth = true → a = .left) := by
  refine ⟨fun h hmax => h hmax w a rfl, fun h hmax v b hv => ?_⟩
  cases hv
  exact h hmax

/-- Every other setting makes the formula stand at the left, whatever was set before. -/
theorem standsLeft_set (o : PictureOptions α) {s : Setting α} (h : s.keepsWidth = false)
    (hw : s.isWidth = false) : (o.set s).StandsLeft := by
  cases s with
  | style | fontMask | fg | bg | interline | insets => cases h
  | width => cases hw
  | display | inline =>
    -- Fresh options are in no maximal width.
    rintro ⟨⟩
  | maxWidth on =>
    cases on with
    | false => rintro ⟨⟩
    | true =>
      intro _ w a hwidth
      obtain ⟨p, -, hp⟩ := Option.map_eq_some_iff.mp hwidth
      exact (congrArg Prod.snd hp).symm

/-! ## Pictures -/

/-- In a maximal width the picture is that of a width aligned to the left. -/
theorem picture_withMaxWidth {o : PictureOptions α} (h : o.maxWidth = true) (f : Formula) :
    f.picture (o.withMaxWidth true) = f.picture o := by
  obtain ⟨style, size, fontMask, fg, bg, width, maxWidth, interline, insets⟩ := o
  subst h
  cases width <;> rfl

/-! ## Settings one after the other -/

theorem ofSettings_append (settings more : List (Setting α)) :
    ofSettings (settings ++ more) = more.foldl set (ofSettings settings) := by
  rw [ofSettings, List.foldl_append, ← ofSettings]

theorem foldl_set_of_keepsWidth (o : PictureOptions α) {settings : List (Setting α)}
    (h : ∀ s ∈ settings, s.keepsWidth = true) :
    (settings.foldl set o).width = o.width ∧ (settings.foldl set o).maxWidth = o.maxWidth := by
  induction settings generalizing o with
  | nil => exact ⟨rfl, rfl⟩
  | cons s settings ih =>
    rw [List.forall_mem_cons] at h
    obtain ⟨hwidth, hmax⟩ := ih (o.set s) h.2
    obtain ⟨hwidth', hmax'⟩ := o.set_of_keepsWidth h.1
    exact ⟨hwidth.trans hwidth', hmax.trans hmax'⟩

/-- A width that is set in a maximal width, and left so to the end, is aligned to the left. -/
theorem StandsLeft.align_eq {before after : List (Setting α)} {w : α} {a : HAlign}
    (h : (ofSettings (before ++ .width w a :: after)).StandsLeft)
    (hmax : (ofSettings before).maxWidth = true) (hafter : ∀ s ∈ after, s.keepsWidth = true) :
    a = .left := by
  rw [ofSettings_append, List.foldl_cons] at h
  obtain ⟨hwidth, hmode⟩ := foldl_set_of_keepsWidth ((ofSettings before).set (.width w a)) hafter
  exact h (hmode.trans hmax) w a hwidth

/-- If every such width is aligned to the left, the formula stands at the left. -/
theorem standsLeft_of_forall {settings : List (Setting α)}
    (h : ∀ before w a after, settings = before ++ .width w a :: after →
      (ofSettings before).maxWidth = true → (∀ s ∈ after, s.keepsWidth = true) → a = .left) :
    (ofSettings settings).StandsLeft := by
  induction settings using List.reverseRecOn with
  | nil => rintro ⟨⟩
  | append_singleton settings s ih =>
    rw [ofSettings_append, List.foldl_cons, List.foldl_nil]
    by_cases hk : s.keepsWidth = true
    · rw [standsLeft_set_iff _ hk]
      refine ih fun before w a after heq hmax hafter => ?_
      -- What keeps the width may stand behind it.
      refine h before w a (after ++ [s]) (by simp [heq]) hmax ?_
      exact List.forall_mem_append.mpr ⟨hafter, List.forall_mem_singleton.mpr hk⟩
    · rw [Bool.not_eq_true] at hk
      cases s with
      | width w a =>
        rw [standsLeft_set_width_iff]
        exact fun hmax => h settings w a [] rfl hmax (by simp)
      | _ => exact standsLeft_set _ hk rfl

/-- **A maximal width stands at the left, unless the width comes after it.** After any settings, one
after the other, a width is aligned to the left while the maximal width is on, if and only if no
width with another alignment is set while it is on and is left so to the end. The picture of a
formula is in any case that of a width aligned to the left. -/
theorem standsLeft_ofSettings_iff (settings : List (Setting α)) :
    ((ofSettings settings).StandsLeft ↔
      ∀ before w a after, settings = before ++ .width w a :: after →
        (ofSettings before).maxWidth = true → (∀ s ∈ after, s.keepsWidth = true) → a = .left) ∧
    ((ofSettings settings).maxWidth = true → ∀ f : Formula,
      f.picture (ofSettings settings) = f.picture ((ofSettings settings).withMaxWidth true)) := by
  refine ⟨⟨?_, standsLeft_of_forall⟩, fun hmax f => (picture_withMaxWidth hmax f).symm⟩
  rintro h before w a after rfl hmax hafter
  exact h.align_eq hmax hafter

/-- A width at the right that is set after the maximal width keeps its place in the options. -/
theorem not_standsLeft_width_right :
    let o : PictureOptions Float := ofSettings [.maxWidth true, .width 100.0 .right]
    o.maxWidth = true ∧ o.width = some (100.0, .right) ∧ ¬o.StandsLeft := by
  intro o
  exact ⟨rfl, rfl, fun h => absurd (h rfl 100.0 .right rfl) (by decide)⟩

end PictureOptions

end Typeset
