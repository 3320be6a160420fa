import Typeset.Proofs.Layout.Glyphs
import Typeset.Proofs.Number.Arithmetic

/-!
# Glyphs do not grow

The parts of an atom that sets no style of its own are in no larger style than the atom, so no glyph
of its box is larger than a large operator around it would be.

* `Atom.KeepsStyle`: no part of the atom sets a style.
* `Atom.Sets.size_le`: the styles of its parts.
* `Style.hasValue_scale`, `Style.scaleValue_le`: a smaller style has no larger font size.
* `glyphs_never_grow`: the font sizes of the glyphs, and the largest one.
-/

namespace Typeset

/-! ## Styles of parts -/

namespace Atom

/-- The atom sets its parts in styles that come from its own. -/
def keepsStyle : Atom → Bool
  | .styled .. | .switch (.style _) _ | .array .. => false
  | _ => true

/-- No part of the atom sets a style: it has no part in a given style, no declaration of a style,
and no table. -/
def KeepsStyle (a : Atom) : Prop := ∀ p ∈ a.parts, p.keepsStyle = true

instance (a : Atom) : Decidable a.KeepsStyle :=
  inferInstanceAs (Decidable (∀ p ∈ a.parts, p.keepsStyle = true))

variable {a b : Atom} {s t : Style}

theorem KeepsStyle.child (h : a.KeepsStyle) (hb : b ∈ a.children) : b.KeepsStyle :=
  fun p hp => h p (mem_parts_of_mem_children hb hp)

/-- No child is in a larger style than the atom. -/
theorem size_le_of_placed (h : a.keepsStyle = true) (hb : (b, t) ∈ a.placed s) :
    s.size ≤ t.size := by
  unfold placed at hb
  split at hb
  · simp only [List.mem_cons, List.mem_append, List.mem_map, Prod.mk.injEq] at hb
    rcases hb with ⟨-, rfl⟩ | ⟨c, -, -, rfl⟩ | ⟨c, -, -, rfl⟩
    · exact le_rfl
    · exact s.size_le_sup_size
    · exact s.size_le_sup_size
  · simp only [List.mem_cons, List.not_mem_nil, or_false, Prod.mk.injEq] at hb
    rcases hb with ⟨-, rfl⟩ | ⟨-, rfl⟩
    · exact s.size_le_num_size
    · exact s.size_le_num_size
  · simp only [List.mem_cons, List.mem_map, Prod.mk.injEq] at hb
    rcases hb with ⟨-, rfl⟩ | ⟨c, -, -, rfl⟩
    · exact le_rfl
    · rcases s with ⟨_ | _, _ | _⟩ <;> decide
  · simp only [List.mem_singleton, Prod.mk.injEq] at hb
    rw [hb.2, Style.cramp_size]
  · cases h
  · rename_i kind atoms
    obtain ⟨c, -, hc⟩ := List.mem_map.mp hb
    cases kind with
    | style => cases h
    | font | color => exact (congrArg (Style.size ∘ Prod.snd) hc).le
  · cases h
  · obtain ⟨c, -, hc⟩ := List.mem_map.mp hb
    exact (congrArg (Style.size ∘ Prod.snd) hc).le

/-- No part is in a larger style than the atom. -/
theorem Sets.size_le (h : a.Sets s b t) (ha : a.KeepsStyle) : s.size ≤ t.size := by
  induction h with
  | self => exact le_rfl
  | @inside a b c s t u hb hc ih =>
    have hmem : b ∈ a.children := by
      rw [← map_fst_placed s a]
      exact List.mem_map_of_mem hb
    exact (size_le_of_placed (ha a (List.mem_cons_self ..)) hb).trans (ih (ha.child hmem))

end Atom

/-! ## Font sizes -/

namespace Style

/-- The share of the base size that the font size of a style is. -/
def scaleValue (s : Style) : ℚ :=
  match s.rung with
  | .display | .text => 1
  | .script => 6305039478318694 * 2 ^ (-53 : ℤ)
  | .scriptScript => 1 / 2

theorem hasValue_scale (s : Style) : HasValue s.scale s.scaleValue := by
  obtain ⟨rung, cramped⟩ := s
  cases rung with
  | display | text =>
    exact hasValue_of_ofFloat (x := 1.0) (m := 2 ^ 52) (e := -52) (by decide)
      (by norm_num [scaleValue])
  | script =>
    exact hasValue_of_ofFloat (x := 0.7) (m := 6305039478318694) (e := -53) (by decide)
      (by norm_num [scaleValue])
  | scriptScript =>
    exact hasValue_of_ofFloat (x := 0.5) (m := 2 ^ 52) (e := -53) (by decide)
      (by norm_num [scaleValue])

theorem scaleValue_pos (s : Style) : 0 < s.scaleValue := by
  obtain ⟨rung, cramped⟩ := s
  cases rung <;> norm_num [scaleValue]

/-- A smaller style has no larger font size. -/
theorem scaleValue_le {s t : Style} (h : s.size ≤ t.size) : t.scaleValue ≤ s.scaleValue := by
  obtain ⟨rung, cramped⟩ := s
  obtain ⟨rung', cramped'⟩ := t
  revert h
  cases rung <;> cases rung' <;> norm_num [scaleValue, size, Rung.index]

theorem isDisplay_of_size_le {s t : Style} (h : s.size ≤ t.size) (ht : t.isDisplay = true) :
    s.isDisplay = true := by
  obtain ⟨rung, cramped⟩ := s
  obtain ⟨rung', cramped'⟩ := t
  revert h ht
  cases rung <;> cases rung' <;> simp [isDisplay, size, Rung.index]

end Style

/-- The size factor of large operators is more than one. -/
theorem hasValue_displayOperatorScale :
    ∃ q, HasValue (displayOperatorScale : Float) q ∧ 1 ≤ q := by
  refine ⟨_, hasValue_of_ofFloat (m := 6305039478318694) (e := -52) (by decide) rfl, ?_⟩
  norm_num

namespace Atom

/-- The characters of a part in a smaller style are no larger than a large operator in the
environment, and than other characters if that is not in display style. -/
theorem glyphSize_le {env : Environment Float} {t : Style} (h : 0.0 < env.size)
    (ht : env.style.size ≤ t.size) (b : Atom) :
    b.glyphSize t env.size ≤ env.em * displayOperatorScale ∧
      (env.style.isDisplay = false → b.glyphSize t env.size ≤ env.em) := by
  obtain ⟨q, hscale, hq⟩ := hasValue_displayOperatorScale
  have hsize : 0.0 ≤ env.size := float_le_of_lt h
  have hem : 0.0 ≤ env.em := zero_le_mul hsize env.style.hasValue_scale env.style.scaleValue_pos
  have hpart : 0.0 ≤ env.size * t.scale := zero_le_mul hsize t.hasValue_scale t.scaleValue_pos
  have hle : env.size * t.scale ≤ env.em :=
    float_mul_le_mul hsize hsize (float_le_refl hsize) t.hasValue_scale env.style.hasValue_scale
      t.scaleValue_pos (Style.scaleValue_le ht)
  have hlarge : env.em ≤ env.em * displayOperatorScale := float_le_mul hem hscale hq
  have hlarge' := zero_le_mul hem hscale (zero_lt_one.trans_le hq)
  unfold glyphSize
  split
  · rename_i hdisplay
    rw [Bool.and_eq_true] at hdisplay
    refine ⟨float_mul_le_mul hpart hem hle hscale hscale (zero_lt_one.trans_le hq) le_rfl, ?_⟩
    intro hstyle
    rw [Style.isDisplay_of_size_le ht hdisplay.2] at hstyle
    cases hstyle
  · exact ⟨float_le_trans hpart hem hlarge' hle hlarge, fun _ => hle⟩

end Atom

/-- **Glyphs do not grow on the way down.** In an atom without parts in a given style, declarations
of a style and tables, every glyph of the box is a character of one part, and this part is set in a
style on no larger rung than that of the environment. Its font size is the base size times the scale
of the style, and for a large operator in display style the size factor of these times that. So no
glyph is larger than the size factor times the font size of the environment, and none is larger than
this font size where the environment is not in display style. -/
theorem glyphs_never_grow (a : Atom) (h : a.KeepsStyle) (env : Environment Float)
    (hsize : 0.0 < env.size) {c : Char} {size : Float} (hg : (c, size) ∈ (a.layout env).glyphs) :
    (∃ b s, a.Sets env.style b s ∧ c ∈ b.ownCharacters ∧ env.style.size ≤ s.size ∧
      size = if b.isLargeOperator && s.isDisplay then env.size * s.scale * displayOperatorScale
        else env.size * s.scale) ∧
    size ≤ env.em * displayOperatorScale ∧
    (env.style.isDisplay = false → size ≤ env.em) := by
  obtain ⟨b, s, hb, hc, rfl : size = b.glyphSize s env.size⟩ := a.draws_of_mem_glyphs env _ hg
  have hs := hb.size_le h
  exact ⟨⟨b, s, hb, hc, hs, rfl⟩, b.glyphSize_le hsize hs⟩

/-- The exponent of a sum in a script, with the sum itself enlarged. -/
theorem glyphs_never_grow_sum :
    let sum : Atom := .symbol '∑' .op
    let a : Atom := .scripts sum (some (.scripts (.ofChar 'x') (some (.ofChar '2')) none)) none
    let env : Environment Float := { style := .display, size := 10.0 }
    a.KeepsStyle ∧ (0.0 : Float) < env.size ∧ ('2', 10.0 * 0.5) ∈ (a.layout env).glyphs ∧
      (∃ b s, a.Sets env.style b s ∧ '2' ∈ b.ownCharacters ∧ env.style.size ≤ s.size ∧
        (10.0 * 0.5 : Float) =
          if b.isLargeOperator && s.isDisplay then env.size * s.scale * displayOperatorScale
          else env.size * s.scale) ∧
      (10.0 * 0.5 : Float) ≤ env.em * displayOperatorScale ∧
      (env.style.isDisplay = false → (10.0 * 0.5 : Float) ≤ env.em) := by
  intro sum a env
  have h : a.KeepsStyle := by decide
  have hsize : (0.0 : Float) < env.size := by decide
  have hglyphs : (a.layout env).glyphs =
      [('x', 10.0 * 0.7), ('2', 10.0 * 0.5), ('∑', 10.0 * 1.0 * 1.4)] := by decide +kernel
  have hg : ('2', 10.0 * 0.5) ∈ (a.layout env).glyphs := by simp [hglyphs]
  exact ⟨h, hsize, hg, glyphs_never_grow a h env hsize hg⟩

end Typeset
