import Typeset.Picture
import Typeset.Proofs.Box.Measured

/-!
# Layout makes measured boxes

The boxes of all constructions are sound if those of their parts are: a construction shifts its
parts only in rows. So the box of every atom is sound, and the box of a picture.

* `sound_scriptsBox`, `sound_limitsBox`, `sound_fractionBox`, ...: the constructions of formulas.
* `sound_tableBox`: tables.
* `Atom.sound_layout`: the box of an atom, by induction over the atom.
* `layout_wellFormed`: the box of an atom, a broken box, and the box of a picture.
-/

namespace Typeset

open Box

variable {α : Type} [Scalar α]

/-! ## Characters -/

@[simp] theorem sound_charBox (c : Char) (env : Environment α) (withItalic : Bool) :
    (charBox c env withItalic).Sound := sound_glyph _ _ _ _ _ _

theorem sound_centeredOnAxis {b : Box α} (h : b.Sound) (env : Environment α) :
    (centeredOnAxis b env).Sound :=
  sound_hbox (by simp [h])

theorem sound_largeOperatorBox (c : Char) (env : Environment α) :
    (largeOperatorBox c env).Sound :=
  sound_centeredOnAxis (sound_glyph _ _ _ _ _ _) env

theorem sound_textBox (text : String) (font : Font) (env : Environment α) :
    (textBox text font env).Sound := by
  refine sound_hbox ?_
  rw [List.forall_mem_map]
  intro c _
  unfold textCharBox
  split
  · simp [wordSpace]
  · simp

/-! ## Scripts -/

theorem sound_scriptsBox {n : Nucleus α} {sup sub : Option (Box α)} (hn : n.box.Sound)
    (hsup : ∀ b ∈ sup, b.Sound) (hsub : ∀ b ∈ sub, b.Sound) (env : Environment α) :
    (scriptsBox n sup sub env).Sound := by
  cases sup with
  | none =>
    cases sub with
    | none => exact hn
    | some sub => exact sound_hbox (by simp [hn, hsub sub rfl])
  | some sup =>
    cases sub with
    | none => exact sound_hbox (by simp [hn, hsup sup rfl])
    | some sub =>
      have hrow : (hbox [kern n.italic, sup]).Sound := sound_hbox (by simp [hsup sup rfl])
      have hcolumn (gap : α) : (vbox [hbox [kern n.italic, sup], vkern gap, sub] 0).Sound :=
        sound_vbox_zero (by simp [hrow, hsub sub rfl])
      unfold scriptsBox
      generalize bothShifts n sup sub env = shifts
      exact sound_hbox (by simp [hn, hcolumn])

theorem sound_limitsBox {op : Box α} {sup sub : Option (Box α)} (hop : op.Sound)
    (hsup : ∀ b ∈ sup, b.Sound) (hsub : ∀ b ∈ sub, b.Sound) (env : Environment α) :
    (limitsBox op sup sub env).Sound := by
  refine sound_vbox (List.forall_mem_append.mpr
    ⟨?_, List.forall_mem_cons.mpr ⟨hop.aligned _ _, ?_⟩⟩) (.inr (by simp))
  · cases sup with
    | none => simp
    | some sup => simp [hsup sup rfl]
  · cases sub with
    | none => simp
    | some sub => simp [hsub sub rfl]

/-! ## Fractions, radicals and decorations -/

theorem sound_fractionBox {num den : Box α} (hnum : num.Sound) (hden : den.Sound) (rule : Bool)
    (env : Environment α) : (fractionBox num den rule env).Sound := by
  unfold fractionBox
  simp only
  have hbar (w t : α) : (if rule = true then Box.rule w t t else strut w 0.0 0.0).Sound := by
    split <;> simp
  have hstack (w gap gap' t : α) : (vbox [num.aligned w .center, vkern gap,
      if rule = true then Box.rule w t t else strut w 0.0 0.0, vkern gap',
      den.aligned w .center] 2).Sound :=
    sound_vbox (by simp [hnum, hden, hbar]) (.inr (by simp))
  exact sound_hbox (by simp [hstack])

theorem sound_radicalBox {body : Box α} {degree : Option (Box α)} (hbody : body.Sound)
    (hdegree : ∀ b ∈ degree, b.Sound) (env : Environment α) :
    (radicalBox body degree env).Sound := by
  have hoverbar (t p : α) : (vbox [rule body.width t 0.0, vkern p, body] 2).Sound :=
    sound_vbox (by simp [hbody]) (.inr (by simp))
  refine sound_hbox (List.forall_mem_append.mpr ⟨?_, ?_⟩)
  · cases degree with
    | none => simp
    | some degree => simp [hdegree degree rfl]
  · simp [hoverbar]

theorem sound_overlineBox {body : Box α} (h : body.Sound) (env : Environment α) :
    (overlineBox body env).Sound :=
  sound_vbox (by simp [h]) (.inr (by simp))

theorem sound_underlineBox {body : Box α} (h : body.Sound) (env : Environment α) :
    (underlineBox body env).Sound :=
  sound_vbox_zero (by simp [h])

/-! ## Fences -/

@[simp] theorem sound_delimiterBox (d : Delimiter) (target : α) (env : Environment α) :
    (delimiterBox d target env).Sound := by
  cases d with
  | none => exact sound_kern _
  | some c =>
    unfold delimiterBox
    simp only
    split
    · exact sound_charBox c env true
    · exact sound_delimiter _ _ _ _

theorem sound_withMiddles {bs : List (Box α)} (h : ∀ b ∈ bs, b.Sound) (target : α)
    (env : Environment α) (ds : List Delimiter) :
    ∀ b ∈ withMiddles target env bs ds, b.Sound := by
  fun_induction withMiddles target env bs ds with
  | case1 => simp
  | case2 => exact h
  | case3 b bs _ ih | case4 b bs d ds _ ih =>
    simp only [List.forall_mem_cons] at h ⊢
    exact ⟨h.1, sound_delimiterBox _ _ _, ih h.2⟩

theorem sound_fencedBox (left right : Delimiter) {boxes : List (Box α)} (h : ∀ b ∈ boxes, b.Sound)
    (middles : List Delimiter) (env : Environment α) :
    (fencedBox left right boxes middles env).Sound := by
  refine sound_hbox ?_
  have hmiddles := sound_withMiddles h
    (fenceSize (rowHeight 0.0 boxes) (rowDepth 0.0 boxes) env) env middles
  simp only [List.forall_mem_cons, List.forall_mem_append, List.not_mem_nil, false_implies,
    implies_true, and_true, sound_delimiterBox, Sound.measured, true_and]
  exact fun b hb => (hmiddles b hb).measured

/-! ## Lines -/

theorem sound_linesBox {boxes : List (Box α)} (h : ∀ b ∈ boxes, b.Measured)
    (align : Option HAlign) (env : Environment α) : (linesBox boxes align env).Sound := by
  refine sound_vbox_zero (forall_mem_intersperse (sound_vkern _) ?_)
  intro b hb
  simp only [List.mem_mapIdx, List.length_map, List.getElem_map] at hb
  obtain ⟨i, hi, rfl⟩ := hb
  refine Sound.aligned (sound_hbox ?_) _ _
  simp [h _ (List.getElem_mem hi)]

/-! ## Tables -/

namespace Grid

variable (g : Grid α)

theorem sound_boundary (j : Nat) (height depth : α) : ∀ b ∈ g.boundary j height depth, b.Sound := by
  simp only [boundary, List.forall_mem_cons, List.forall_mem_append, List.not_mem_nil,
    false_implies, implies_true, and_true]
  refine ⟨sound_kern _, forall_mem_intersperse (sound_kern _) ?_, sound_kern _⟩
  intro b hb
  rw [List.eq_of_mem_replicate hb]
  exact sound_rule _ _ _

theorem sound_ruleBox (span : Option (Nat × Nat)) : (g.ruleBox span).Sound := by
  unfold ruleBox
  split
  · exact sound_empty
  · exact sound_hbox (by simp)

end Grid

theorem sound_overColor {b : Box α} (h : b.Sound) (bg : Option Color) : (overColor bg b).Sound := by
  cases bg with
  | none => exact h
  | some c => exact h.colored _ _

theorem sound_cellBox (f : ColumnFormat) (g : Grid α) (height depth : α) (j : Nat)
    (color : Option Color) {b : Box α} (h : b.Sound) :
    (cellBox f g height depth j color b).Sound := by
  exact sound_overColor (sound_hbox (by simp [h])) color

theorem sound_cellBoxes (f : ColumnFormat) (g : Grid α) (height depth : α) (j : Nat)
    {cells : List (Option Color × Box α)} (h : ∀ c ∈ cells, c.2.Sound) :
    ∀ b ∈ cellBoxes f g height depth j cells, b.Sound := by
  fun_induction cellBoxes f g height depth j cells with
  | case1 j => exact g.sound_boundary j height depth
  | case2 j color b cells ih =>
    simp only [List.forall_mem_cons, List.forall_mem_append] at h ⊢
    exact ⟨g.sound_boundary j height depth, sound_cellBox f g height depth j color h.1, ih h.2⟩

theorem sound_gridRowBox {A : Type} (f : ColumnFormat) (g : Grid α) (strutHeight strutDepth : α)
    (row : TableRow A) {boxes : List (Box α)} (h : ∀ b ∈ boxes, b.Sound) :
    (gridRowBox f g strutHeight strutDepth row boxes).Sound := by
  refine sound_overColor (sound_hbox fun b hb => ?_) row.color
  exact (sound_cellBoxes f g _ _ 0 (fun c hc => h c.2 (List.of_mem_zip hc).2) b hb).measured

theorem sound_gridRowBoxes {A : Type} (f : ColumnFormat) (g : Grid α)
    (em strutHeight strutDepth : α) (columns : Nat) (row : TableRow A) {boxes : List (Box α)}
    (h : ∀ b ∈ boxes, b.Sound) :
    ∀ b ∈ gridRowBoxes f g em strutHeight strutDepth columns row boxes, b.Sound := by
  simp only [gridRowBoxes, List.forall_mem_append, List.forall_mem_cons, List.forall_mem_map]
  exact ⟨fun r _ => g.sound_ruleBox _, sound_gridRowBox f g strutHeight strutDepth row h,
    fun gap _ => sound_vkern _⟩

/-- The table of sound cells is sound. -/
theorem sound_gridRows {A : Type} (t : Table A) (g : Grid α) (em strutHeight strutDepth : α)
    (columns : Nat) {cells : List (List (Box α))} (h : ∀ row ∈ cells, ∀ b ∈ row, b.Sound) :
    ∀ b ∈ ((t.rows.zip cells).map fun (row, boxes) =>
      gridRowBoxes t.format g em strutHeight strutDepth columns row boxes).flatten, b.Sound := by
  intro b hb
  obtain ⟨boxes, hboxes, hb⟩ := List.mem_flatten.mp hb
  obtain ⟨c, hc, rfl⟩ := List.mem_map.mp hboxes
  exact sound_gridRowBoxes _ _ _ _ _ _ _ (h c.2 (List.of_mem_zip hc).2) b hb

theorem sound_gridBox {A : Type} (t : Table A) (o : TableOptions) (env : Environment α)
    (columns : Nat) {cells : List (List (Box α))} (h : ∀ row ∈ cells, ∀ b ∈ row, b.Sound) :
    (gridBox t o env columns cells).Sound := by
  -- The baseline is that of a row, of a trailing rule if there are no rows, or of nothing.
  have hbaseline (rows rules : List (Box α)) (k : Nat) :
      rows ++ rules = [] ∨ rows.length - 1 - k < (rows ++ rules).length := by
    cases rows with
    | nil => cases rules <;> simp
    | cons b rows =>
      simp only [List.length_cons, List.length_append]
      omega
  have hrules (g : Grid α) : ∀ b ∈ t.trailing.map fun r => g.ruleBox (r.span columns), b.Sound :=
    List.forall_mem_map.mpr fun r _ => g.sound_ruleBox _
  have hcentered (em strutHeight strutDepth : α) (g : Grid α) (k : Nat) :=
    sound_centeredOnAxis (sound_vbox (List.forall_mem_append.mpr
      ⟨sound_gridRows t g em strutHeight strutDepth columns h, hrules g⟩) (hbaseline _ _ k)) env
  unfold gridBox
  simp only
  split
  · refine sound_hbox ?_
    simp only [List.forall_mem_cons, List.not_mem_nil, false_implies, implies_true, and_true]
    exact ⟨(sound_delimiterBox _ _ _).measured, (hcentered _ _ _ _ _).measured,
      (sound_delimiterBox _ _ _).measured⟩
  · exact hcentered _ _ _ _ _

theorem sound_tableBox {A : Type} {t : Table A} {o : TableOptions} {env : Environment α}
    {cells : List (List (Box α))} {b : Box α} (hb : tableBox t o env cells = .ok b)
    (h : ∀ row ∈ cells, ∀ c ∈ row, c.Sound) : b.Sound := by
  simp only [tableBox] at hb
  split at hb
  · cases hb
  · split at hb
    · cases hb
      exact sound_empty
    · cases hb
      exact sound_gridBox t o env _ h

/-! ## Rows -/

/-- The boxes of a row and the space between them are measured. -/
theorem measured_rowPieces {prev : Option (MathClass × List TintMark)}
    {items : List (RowItem α × MathClass)} (h : ∀ i ∈ items, i.1.box.Sound) :
    ∀ p ∈ rowPieces prev items, p.box.Measured := by
  have hspace (left c : MathClass) (marks : List TintMark) (item : RowItem α) :
      ∀ p ∈ spaceBefore left marks item c, p.box.Measured := by
    unfold spaceBefore
    simp only
    split
    · simp
    · simp
  fun_induction rowPieces prev items with
  | case1 => simp
  | case2 prev item rest ih =>
    rw [List.forall_mem_cons] at h ⊢
    exact ⟨h.1.measured, ih h.2⟩
  | case3 prev item c rest _ ih =>
    rw [List.forall_mem_cons] at h
    rw [List.forall_mem_append, List.forall_mem_cons]
    refine ⟨?_, h.1.measured, ih h.2⟩
    cases prev with
    | none => simp
    | some p => exact hspace _ _ _ _

theorem sound_rowBox {items : List (RowItem α)} (h : ∀ i ∈ items, i.box.Sound) :
    (rowBox items).Sound :=
  sound_hbox_wrapTinted (measured_rowPieces fun i hi => h i.1 (List.of_mem_zip hi).1)

/-! ## Atoms -/

namespace Atom

mutual

/-- The box of an atom is sound in every environment. -/
theorem sound_layout (a : Atom) (env : Environment α) : (a.layout env).Sound := by
  cases a with
  | empty | hrule | cellColor | rowColor => exact sound_empty
  | symbol c k =>
    rw [layout]
    split
    · exact sound_largeOperatorBox c env
    · exact sound_charBox c env true
  | row atoms =>
    rw [layout]
    exact sound_rowBox (sound_rowItems atoms env [] 0)
  | scripts base sup sub =>
    rw [layout]
    split
    · exact sound_limitsBox (sound_layout base env) (sound_layoutOption sup _)
        (sound_layoutOption sub _) env
    · refine sound_scriptsBox ?_ (sound_layoutOption sup _) (sound_layoutOption sub _) env
      have hbase := sound_layout base env
      unfold nucleus
      split
      · split
        · exact hbase
        · exact sound_charBox _ _ _
      · exact hbase
  | fraction num den bar =>
    rw [layout]
    exact sound_fractionBox (sound_layout num _) (sound_layout den _) bar env
  | radical body degree =>
    rw [layout]
    exact sound_radicalBox (sound_layout body _) (sound_layoutOption degree _) env
  | color body fg bg =>
    rw [layout]
    exact (sound_layout body env).colored fg bg
  | framed body ruled frame bg =>
    rw [layout]
    exact (sound_layout body env).framed _ _ frame bg
  | array table options =>
    obtain ⟨format, rows, trailing⟩ := table
    rw [layout]
    split
    · rename_i box hbox
      exact sound_tableBox hbox (sound_layoutRows rows _)
    · exact sound_empty
  | fenced left right segments middles =>
    rw [layout]
    exact sound_fencedBox left right (sound_layoutAll segments env) middles env
  | bigDelimiter c size k =>
    rw [layout]
    exact sound_delimiterBox c _ env
  | lines parts align =>
    rw [layout]
    exact sound_linesBox (fun b hb => (sound_layoutAll parts env b hb).measured) align env
  | styled s body | font c body | classed k body | limits body above =>
    rw [layout]
    exact sound_layout body _
  | switch kind body =>
    rw [layout]
    exact sound_rowBox (sound_rowItems body _ _ _)
  | space length =>
    rw [layout]
    exact sound_glue _ _
  | text s c =>
    rw [layout]
    exact sound_textBox s _ env
  | operator name above =>
    rw [layout]
    exact sound_textBox name _ env
  | vcentered body =>
    rw [layout]
    exact sound_centeredOnAxis (sound_layout body env) env
  | decorated body decoration =>
    cases decoration with
    | overline =>
      rw [layout]
      exact sound_overlineBox (sound_layout body _) env
    | underline =>
      rw [layout]
      exact sound_underlineBox (sound_layout body _) env
  | rule width height raise =>
    rw [layout]
    exact sound_hbox (by simp)

theorem sound_layoutOption (o : Option Atom) (env : Environment α) :
    ∀ b ∈ layoutOption o env, b.Sound := by
  cases o with
  | none => simp [layoutOption]
  | some a =>
    rw [layoutOption]
    rintro b ⟨⟩
    exact sound_layout a env

theorem sound_layoutAll (atoms : List Atom) (env : Environment α) :
    ∀ b ∈ layoutAll atoms env, b.Sound := by
  cases atoms with
  | nil => simp [layoutAll]
  | cons a atoms =>
    rw [layoutAll, List.forall_mem_cons]
    exact ⟨sound_layout a env, sound_layoutAll atoms env⟩

theorem sound_rowItems (atoms : List Atom) (env : Environment α) (marks : List TintMark)
    (next : Nat) : ∀ i ∈ (rowItems atoms env marks next).1, i.box.Sound := by
  cases atoms with
  | nil => simp [rowItems]
  | cons a atoms =>
    cases a with
    | switch kind body =>
      rw [rowItems]
      simp only [List.forall_mem_append]
      exact ⟨sound_rowItems body _ _ _, sound_rowItems atoms _ _ _⟩
    | _ =>
      rw [rowItems]
      · rw [List.forall_mem_cons]
        exact ⟨sound_layout _ env, sound_rowItems atoms _ _ _⟩
      · rintro _ _ ⟨⟩

theorem sound_layoutCells (cells : List (Cell Atom)) (env : Environment α) :
    ∀ b ∈ layoutCells cells env, b.Sound := by
  cases cells with
  | nil => simp [layoutCells]
  | cons c cells =>
    obtain ⟨content, color⟩ := c
    rw [layoutCells, List.forall_mem_cons]
    exact ⟨sound_layout content env, sound_layoutCells cells env⟩

theorem sound_layoutRows (rows : List (TableRow Atom)) (env : Environment α) :
    ∀ row ∈ layoutRows rows env, ∀ b ∈ row, b.Sound := by
  cases rows with
  | nil => simp [layoutRows]
  | cons r rows =>
    obtain ⟨cells, rules, color, gap⟩ := r
    rw [layoutRows, List.forall_mem_cons]
    exact ⟨sound_layoutCells cells env, sound_layoutRows rows env⟩

end

end Atom

/-! ## Pictures -/

/-- A sound box stays sound when it is fitted into the width of the text. -/
theorem Picture.sound_fit {b : Box α} (h : b.Sound) (o : PictureOptions α) :
    (Picture.fit o b).Sound := by
  unfold Picture.fit
  cases o.width with
  | none => exact h
  | some width =>
    simp only
    cases o.interline with
    | none => split <;> exact h.aligned _ _
    | some interline => split <;> exact (h.breakLines _ interline).aligned _ _

theorem Formula.sound_picture {f : Formula} {o : PictureOptions α} {p : Picture α}
    (h : f.picture o = .ok p) : p.root.Sound := by
  unfold Formula.picture at h
  cases hv : o.validate with
  | error e =>
    rw [hv] at h
    cases h
  | ok =>
    rw [hv] at h
    cases h
    exact Picture.sound_fit (f.root.sound_layout _) o

/-- **Layout makes well-formed boxes.** The box of every atom in every environment, also with its
lines broken and in a picture, is not shifted, and it and all boxes in it follow the rules: their
measures are those that their children give them, the baseline of a column is that of one of its
boxes, and only children of rows are shifted. -/
theorem layout_wellFormed :
    (∀ (a : Atom) (env : Environment α), (a.layout env).Sound) ∧
    (∀ (b : Box α) (width interline : α), b.Sound → (b.breakLines width interline).Sound) ∧
    ∀ (f : Formula) (o : PictureOptions α) (p : Picture α), f.picture o = .ok p → p.root.Sound :=
  ⟨fun a env => a.sound_layout env, fun _ width interline h => h.breakLines width interline,
    fun _ _ _ h => Formula.sound_picture h⟩

/-- The picture of a letter over another one, broken into lines. -/
theorem layout_wellFormed_fraction :
    let f : Formula := ⟨.fraction (.ofChar 'x') (.ofChar 'y') true⟩
    let o : PictureOptions Float :=
      { PictureOptions.initial with width := some (5.0, .center), interline := some 2.0 }
    ∃ p, f.picture o = .ok p ∧ p.root.Sound ∧
      ((f.layout o.environment).breakLines 5.0 2.0).Sound := by
  intro f o
  have hvalid : o.validate = .ok () := by
    rw [PictureOptions.validate, if_pos (by decide)]
  have hpicture : f.picture o = .ok
      { root := Picture.fit o (f.layout o.environment), insets := o.insets, fg := o.fg,
        bg := o.bg } := by
    rw [Formula.picture, hvalid]
    rfl
  exact ⟨_, hpicture, layout_wellFormed.2.2 f o _ hpicture,
    layout_wellFormed.2.1 _ 5.0 2.0 (layout_wellFormed.1 f.root o.environment)⟩

end Typeset
