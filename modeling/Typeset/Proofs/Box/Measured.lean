import Typeset.Proofs.Box.Lines

/-!
# Measured boxes

The measures of a box are those that the rules of boxes give from its children, and only children
of rows are shifted. Every way to build boxes keeps that, also wrapping them in tints and breaking
rows.

* `Box.FollowsRules`: the rules for one box and its children.
* `Box.Measured`: the box and all boxes in it follow the rules.
* `Box.Sound`: a measured box that is not shifted. What stands in a column, in colors or in a frame
  is sound (`Box.sound_vbox`, `Box.Sound.colored`, `Box.Sound.framed`); what stands in a row is
  measured (`Box.sound_hbox`).
* `Box.Sound.breakLines`: a broken row is sound.
-/

namespace Typeset

variable {α : Type} [Scalar α]

namespace Box

/-! ## The rules -/

/-- The height and depth are those of boxes below each other on the baseline of number `baseline`:
that box adds its height to the totals above it, and its depth to the totals below it. -/
def StackMeasures (bs : List (Box α)) (baseline : Nat) (height depth : α) : Prop :=
  bs = [] ∧ height = 0.0 ∧ depth = 0.0 ∨
    ∃ above b below, bs = above ++ b :: below ∧ above.length = baseline ∧
      height = Scalar.sum (above.map total) + b.height ∧
      depth = Scalar.sum (b.depth :: below.map total)

/-- The measures of the box are those that its children give it, and children of other boxes than
rows are not shifted. -/
def FollowsRules (b : Box α) : Prop :=
  match b.content with
  | .hbox children =>
    b.width = Scalar.sum (children.map width) ∧
      b.height = Scalar.largest 0.0 (children.map fun c => c.height - c.shift) ∧
      b.depth = Scalar.largest 0.0 (children.map fun c => c.depth + c.shift)
  | .vbox children baseline =>
    (∀ c ∈ children, c.shift = 0.0) ∧ b.width = Scalar.largest 0.0 (children.map width) ∧
      StackMeasures children baseline b.height b.depth
  | .colored _ _ child =>
    child.shift = 0.0 ∧ b.width = child.width ∧ b.height = child.height ∧ b.depth = child.depth
  | .framed thickness padding _ _ child =>
    child.shift = 0.0 ∧ b.width = child.width + 2.0 * (thickness + padding) ∧
      b.height = child.height + (thickness + padding) ∧
      b.depth = child.depth + (thickness + padding)
  | .char .. | .rule | .strut | .glue _ | .delimiter _ => True

/-- The box and all boxes in it follow the rules. -/
inductive Measured : Box α → Prop
  | node {b : Box α} (rules : b.FollowsRules) (children : ∀ c ∈ b.children, Measured c) : Measured b

/-- A measured box that is not shifted. -/
structure Sound (b : Box α) : Prop where
  shift : b.shift = 0.0
  measured : b.Measured

attribute [simp] Sound.measured

theorem Measured.child {b c : Box α} (h : b.Measured) (hc : c ∈ b.children) : c.Measured := by
  cases h with
  | node _ children => exact children c hc

/-- Shifting a box changes nothing inside it. -/
theorem Measured.withShift {b : Box α} (h : b.Measured) (shift : α) :
    (b.withShift shift).Measured := by
  cases h with
  | node rules children => exact .node rules children

@[simp]
theorem Sound.withShift {b : Box α} (h : b.Sound) (shift : α) : (b.withShift shift).Measured :=
  h.measured.withShift shift

/-! ## Boxes without children -/

theorem sound_leaf {w h d : α} {content : BoxContent α (Box α)}
    (hr : (unshifted w h d content).FollowsRules) (hc : content.children = []) :
    (unshifted w h d content).Sound :=
  ⟨rfl, .node hr (by simp [children, unshifted, hc])⟩

@[simp] theorem sound_strut (w h d : α) : (strut w h d).Sound := sound_leaf trivial rfl

@[simp] theorem sound_empty : (empty : Box α).Sound := sound_strut _ _ _

@[simp] theorem sound_vkern (height : α) : (vkern height).Sound := sound_strut _ _ _

@[simp] theorem sound_rule (w h d : α) : (rule w h d).Sound := sound_leaf trivial rfl

@[simp] theorem sound_glue (w : α) (breakable : Bool) : (glue w breakable).Sound :=
  sound_leaf trivial rfl

@[simp] theorem sound_kern (w : α) : (kern w).Sound := sound_glue _ _

@[simp] theorem sound_glyph (c : Char) (font : Font) (size w h d : α) :
    (glyph c font size w h d).Sound := sound_leaf trivial rfl

@[simp] theorem sound_delimiter (c : Char) (w h d : α) : (delimiter c w h d).Sound :=
  sound_leaf trivial rfl

/-! ## Boxes with children -/

/-- A row of measured boxes is sound. -/
theorem sound_hbox {bs : List (Box α)} (h : ∀ b ∈ bs, b.Measured) : (hbox bs).Sound :=
  ⟨rfl, .node ⟨rfl, rfl, rfl⟩ h⟩

theorem stackHeight_append (start : α) (above : List (Box α)) (b : Box α) (below : List (Box α)) :
    stackHeight start above.length (above ++ b :: below) =
      (above.map total).foldl (· + ·) start + b.height := by
  induction above generalizing start with
  | nil => rfl
  | cons c above ih => exact ih _

theorem stackDepth_append (start : α) (above : List (Box α)) (b : Box α) (below : List (Box α)) :
    stackDepth start above.length (above ++ b :: below) =
      (below.map total).foldl (· + ·) (start + b.depth) := by
  induction above with
  | nil => rw [List.foldl_map]; rfl
  | cons c above ih => exact ih

/-- A stack of boxes has its measures. -/
theorem stackMeasures_vbox {bs : List (Box α)} {baseline : Nat}
    (h : bs = [] ∨ baseline < bs.length) :
    StackMeasures bs baseline (vbox bs baseline).height (vbox bs baseline).depth := by
  rcases h with rfl | h
  · cases baseline <;> exact .inl ⟨rfl, rfl, rfl⟩
  · obtain ⟨above, b, below, rfl, rfl⟩ :
        ∃ above b below, bs = above ++ b :: below ∧ above.length = baseline :=
      ⟨bs.take baseline, bs[baseline], bs.drop (baseline + 1), by simp, by simp; omega⟩
    exact .inr ⟨above, b, below, rfl, rfl, stackHeight_append _ _ _ _, stackDepth_append _ _ _ _⟩

/-- A column of sound boxes is sound, if its baseline is that of one of them. -/
theorem sound_vbox {bs : List (Box α)} {baseline : Nat} (h : ∀ b ∈ bs, b.Sound)
    (hb : bs = [] ∨ baseline < bs.length) : (vbox bs baseline).Sound :=
  ⟨rfl, .node ⟨fun b hb => (h b hb).shift, rfl, stackMeasures_vbox hb⟩
    fun b hb => (h b hb).measured⟩

/-- A column on the baseline of its first box. -/
theorem sound_vbox_zero {bs : List (Box α)} (h : ∀ b ∈ bs, b.Sound) : (vbox bs 0).Sound :=
  sound_vbox h (by cases bs <;> simp)

omit [Scalar α] in
/-- What holds of boxes and of the box between them holds of them all. -/
theorem forall_mem_intersperse {P : Box α → Prop} {between : Box α} {bs : List (Box α)}
    (hbetween : P between) (h : ∀ b ∈ bs, P b) : ∀ b ∈ bs.intersperse between, P b := by
  induction bs with
  | nil => simp
  | cons b bs ih =>
    cases bs with
    | nil => exact h
    | cons c bs =>
      rw [List.intersperse_cons_cons, List.forall_mem_cons, List.forall_mem_cons]
      exact ⟨h b (by simp), hbetween, ih fun d hd => h d (by simp [hd])⟩

@[simp]
theorem Sound.colored {b : Box α} (h : b.Sound) (fg bg : Option Color) : (b.colored fg bg).Sound :=
  ⟨rfl, .node ⟨h.shift, rfl, rfl, rfl⟩
    (by simpa [Box.colored, unshifted, children, BoxContent.children] using h.measured)⟩

@[simp]
theorem Sound.framed {b : Box α} (h : b.Sound) (thickness padding : α) (frame bg : Option Color) :
    (b.framed thickness padding frame bg).Sound :=
  ⟨rfl, .node ⟨h.shift, rfl, rfl, rfl⟩
    (by simpa [Box.framed, unshifted, children, BoxContent.children] using h.measured)⟩

@[simp] theorem Sound.aligned {b : Box α} (h : b.Sound) (width : α) (align : HAlign) :
    (b.aligned width align).Sound := by
  unfold Box.aligned
  simp only
  split
  · exact h
  · cases align <;> exact sound_hbox (by simp [h])

end Box

/-! ## Tints -/

namespace TintRun

mutual

/-- The box of a run of measured boxes is measured. -/
theorem measured_toBox {Q : TintMark → Prop} (r : TintRun α) (h : r.All Box.Measured Q) :
    r.toBox.Measured := by
  cases r with
  | plain box => exact h
  | run mark inner => exact ((Box.sound_hbox (measured_toBoxes inner h.2)).colored _ _).measured

theorem measured_toBoxes {Q : TintMark → Prop} (runs : List (TintRun α))
    (h : AllIn Box.Measured Q runs) : ∀ b ∈ toBoxes runs, b.Measured := by
  cases runs with
  | nil => simp [toBoxes]
  | cons r rs =>
    rw [toBoxes, List.forall_mem_cons]
    exact ⟨measured_toBox r h.1, measured_toBoxes rs h.2⟩

end

end TintRun

/-- A row of measured boxes in tints is sound. -/
theorem sound_hbox_wrapTinted {items : List (Tinted α)} (h : ∀ p ∈ items, p.box.Measured) :
    (Box.hbox (wrapTinted items)).Sound :=
  Box.sound_hbox <| TintRun.measured_toBoxes (Q := fun _ => True) _ <|
    TintRun.allIn_ofList fun p hp => ⟨h p hp, fun _ _ => trivial⟩

/-! ## Lines -/

namespace Box

/-- The pieces of measured boxes are measured. -/
theorem measured_openRuns {path : List TintMark} {next : Nat} {bs : List (Box α)}
    (h : ∀ b ∈ bs, b.Measured) : ∀ p ∈ (openRuns path next bs).1, p.box.Measured := by
  fun_induction openRuns path next bs with
  | case1 => simp
  | case2 path next bs _ _ _ _ fg bg _ _ _ _ children hz mark o n ho r n' hr iho ihr =>
    rw [ho] at iho
    rw [hr] at ihr
    have hrow := (h _ (List.mem_cons_self ..)).child (List.mem_singleton_self _)
    intro p hp
    rcases List.mem_append.mp hp with hp | hp
    · exact iho (fun b hb => hrow.child hb) p hp
    · exact ihr (fun b hb => h b (by simp [hb])) p hp
  | case3 path next bs _ _ _ _ fg bg _ _ _ _ children hz r n hr ihr
  | case4 path next b bs r n hr _ ihr =>
    rw [hr] at ihr
    rw [List.forall_mem_cons]
    exact ⟨h _ (List.mem_cons_self ..), ihr fun b hb => h b (by simp [hb])⟩

/-- A sound box stays sound when its lines are broken, whatever the width and the space between
lines. -/
theorem Sound.breakLines {b : Box α} (h : b.Sound) (width interline : α) :
    (b.breakLines width interline).Sound := by
  unfold Box.breakLines
  split
  · exact h
  · simp only
    split
    · exact h
    · have hpieces : ∀ p ∈ b.pieces, p.box.Measured :=
        measured_openRuns fun c hc => h.measured.child hc
      obtain ⟨broken, hlines, hfilled⟩ := exists_filled width b.pieces
      refine sound_vbox_zero (forall_mem_intersperse (sound_vkern interline) ?_)
      rw [List.forall_mem_map]
      intro line hline
      rw [← hlines] at hline
      obtain ⟨c, hc, rfl⟩ := List.mem_map.mp hline
      refine sound_hbox_wrapTinted fun p hp => hpieces p ?_
      rw [hfilled.breaks.1]
      exact List.mem_flatMap.mpr ⟨c, hc, List.mem_append_left _ hp⟩

end Box

end Typeset
