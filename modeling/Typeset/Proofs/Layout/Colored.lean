import Typeset.Proofs.Box.Colored
import Typeset.Proofs.Layout.Characters

/-!
# The color flag of a layout is exact

A box sets a color if and only if a part of its atom asks for one: all parts are laid out, and no
construction adds or drops a color.

* `Atom.setsColor`: the atom itself asks for a color.
* `Atom.HasCheckedTables`: every table in the atom has a cell in every column.
* `isColored_fractionBox`, `isColored_fencedBox`, ...: the flags of the constructions.
* `isColored_rowBox`: a row sets the colors of its items and of the declarations around them.
* `Atom.isColored_layout`: the flag of the box of an atom, by induction over the atom.
-/

namespace Typeset

open Box

/-! ## Atoms that set colors -/

namespace Atom

mutual

/-- A row around the atom has a box for it. A declaration has none but those of its atoms. -/
def standsInRow : Atom → Bool
  | .switch _ body => anyStandsInRow body
  | _ => true

/-- A row has a box for one of the atoms. -/
def anyStandsInRow : List Atom → Bool
  | [] => false
  | a :: atoms => a.standsInRow || anyStandsInRow atoms

end

/-- The atom sets a color: for its body, for a frame, for the atoms after a declaration, or for the
rows and cells of a table that is not empty. -/
def setsColor : Atom → Bool
  | .color _ fg bg => fg.isSome || bg.isSome
  | .framed _ _ frame bg => frame.isSome || bg.isSome
  | .switch (.color _) body => anyStandsInRow body
  | .array table _ =>
    !table.rows.isEmpty && table.columnCount != 0 &&
      table.rows.any fun r => r.color.isSome || r.cells.any fun c => c.color.isSome
  | _ => false

/-- The atom or a part of it sets a color. -/
def isColored (a : Atom) : Bool := a.parts.any setsColor

theorem isColored_eq (a : Atom) : a.isColored = (a.setsColor || a.children.any isColored) := by
  have h (atoms : List Atom) : (atoms.flatMap parts).any setsColor = atoms.any isColored := by
    rw [List.any_flatMap]
    rfl
  rw [isColored, parts, List.any_cons, inside_eq, h]

/-- The atom is no table with a row that is too short or too long. -/
def hasCheckedTable : Atom → Bool
  | .array table _ => decide table.IsChecked
  | _ => true

/-- Every table in the atom has a cell in every column of every row. -/
def HasCheckedTables (a : Atom) : Prop := ∀ p ∈ a.parts, p.hasCheckedTable = true

instance (a : Atom) : Decidable a.HasCheckedTables :=
  inferInstanceAs (Decidable (∀ p ∈ a.parts, p.hasCheckedTable = true))

theorem HasCheckedTables.child {a b : Atom} (h : a.HasCheckedTables) (hb : b ∈ a.children) :
    b.HasCheckedTables :=
  fun p hp => h p (mem_parts_of_mem_children hb hp)

end Atom

variable {α : Type} [Scalar α]

/-! ## Characters and texts -/

@[simp] theorem isColored_charBox (c : Char) (env : Environment α) (withItalic : Bool) :
    (charBox c env withItalic).isColored = false := by
  rw [charBox, isColored_glyph]

@[simp] theorem isColored_centeredOnAxis (b : Box α) (env : Environment α) :
    (centeredOnAxis b env).isColored = b.isColored := by
  simp [centeredOnAxis]

@[simp] theorem isColored_largeOperatorBox (c : Char) (env : Environment α) :
    (largeOperatorBox c env).isColored = false := by
  simp [largeOperatorBox]

@[simp] theorem isColored_textBox (text : String) (font : Font) (env : Environment α) :
    (textBox text font env).isColored = false := by
  have h (c : Char) : (textCharBox font env c).isColored = false := by
    unfold textCharBox
    split <;> simp [wordSpace]
  simp [textBox, h]

/-! ## Scripts -/

theorem isColored_scriptsBox (n : Nucleus α) (sup sub : Option (Box α)) (env : Environment α) :
    (scriptsBox n sup sub env).isColored =
      (n.box.isColored || (sup.toList ++ sub.toList).any isColored) := by
  cases sup with
  | none => cases sub <;> simp [scriptsBox]
  | some sup =>
    cases sub with
    | none => simp [scriptsBox]
    | some sub =>
      unfold scriptsBox
      generalize bothShifts n sup sub env = shifts
      simp

theorem isColored_limitsBox (op : Box α) (sup sub : Option (Box α)) (env : Environment α) :
    (limitsBox op sup sub env).isColored =
      (op.isColored || (sup.toList ++ sub.toList).any isColored) := by
  cases sup <;> cases sub <;> simp [limitsBox, Bool.or_comm, Bool.or_left_comm]

/-! ## Fractions, radicals and decorations -/

theorem isColored_fractionBox (num den : Box α) (rule : Bool) (env : Environment α) :
    (fractionBox num den rule env).isColored = (num.isColored || den.isColored) := by
  have hbar (w t : α) :
      (if rule = true then Box.rule w t t else strut w 0.0 0.0).isColored = false := by
    split <;> simp
  simp [fractionBox, hbar]

theorem isColored_radicalBox (body : Box α) (degree : Option (Box α)) (env : Environment α) :
    (radicalBox body degree env).isColored =
      (body.isColored || degree.toList.any isColored) := by
  cases degree <;> simp [radicalBox, Bool.or_comm]

theorem isColored_overlineBox (body : Box α) (env : Environment α) :
    (overlineBox body env).isColored = body.isColored := by
  simp [overlineBox]

theorem isColored_underlineBox (body : Box α) (env : Environment α) :
    (underlineBox body env).isColored = body.isColored := by
  simp [underlineBox]

/-! ## Fences and lines -/

@[simp] theorem isColored_delimiterBox (d : Delimiter) (target : α) (env : Environment α) :
    (delimiterBox d target env).isColored = false := by
  cases d with
  | none => simp [delimiterBox]
  | some c =>
    unfold delimiterBox
    simp only
    split <;> simp

/-- Delimiters set no color, however many there are. -/
theorem any_isColored_withMiddles (target : α) (env : Environment α) (bs : List (Box α))
    (ds : List Delimiter) :
    (withMiddles target env bs ds).any isColored = bs.any isColored := by
  fun_induction withMiddles target env bs ds with
  | case1 | case2 => rfl
  | case3 b bs _ ih | case4 b bs d ds _ ih => simp [ih]

theorem isColored_fencedBox (left right : Delimiter) (boxes : List (Box α))
    (middles : List Delimiter) (env : Environment α) :
    (fencedBox left right boxes middles env).isColored = boxes.any isColored := by
  simp only [fencedBox, isColored_hbox, List.any_cons, List.any_append, List.any_nil,
    isColored_delimiterBox, any_isColored_withMiddles, Bool.false_or, Bool.or_false]

theorem isColored_linesBox (boxes : List (Box α)) (align : Option HAlign) (env : Environment α) :
    (linesBox boxes align env).isColored = boxes.any isColored := by
  have hplaced (place : Nat → HAlign) (width : α) (bs : List (Box α)) :
      ((bs.map fun b => lineBox b env).mapIdx fun i b => b.aligned width (place i)).any isColored =
        bs.any isColored := by
    induction bs generalizing place with
    | nil => rfl
    | cons b bs ih =>
      rw [List.map_cons, List.mapIdx_cons, List.any_cons, ih fun i => place (i + 1)]
      simp [lineBox]
  rw [linesBox, isColored_vbox, any_isColored_intersperse (isColored_vkern _)]
  exact hplaced (lineAlign align _) _ boxes

/-! ## Tables -/

namespace Grid

variable (g : Grid α)

theorem any_isColored_boundary (j : Nat) (height depth : α) :
    (g.boundary j height depth).any isColored = false := by
  have hrules : ((List.replicate (g.ruleCount j) (Box.rule g.thickness height depth)).any
      isColored) = false := by
    simp
  simp only [boundary, List.any_cons, List.any_append, List.any_nil, isColored_kern,
    any_isColored_intersperse (isColored_kern _), hrules, Bool.or_false]

@[simp] theorem isColored_ruleBox (span : Option (Nat × Nat)) :
    (g.ruleBox span).isColored = false := by
  unfold ruleBox
  split <;> simp

end Grid

@[simp] theorem isColored_overColor (bg : Option Color) (b : Box α) :
    (overColor bg b).isColored = (bg.isSome || b.isColored) := by
  cases bg <;> simp [overColor]

theorem any_isColored_cellBoxes (f : ColumnFormat) (g : Grid α) (height depth : α) (j : Nat)
    (cells : List (Option Color × Box α)) :
    (cellBoxes f g height depth j cells).any isColored =
      cells.any fun c => c.1.isSome || c.2.isColored := by
  fun_induction cellBoxes f g height depth j cells with
  | case1 j => exact g.any_isColored_boundary j height depth
  | case2 j color b cells ih => simp [g.any_isColored_boundary, cellBox, ih]

omit [Scalar α] in
/-- Cells with their boxes, one for each. -/
theorem any_zip_cells {A : Type} {cells : List (Cell A)} {boxes : List (Box α)}
    (h : cells.length = boxes.length) :
    ((cells.map Cell.color).zip boxes).any (fun c => c.1.isSome || c.2.isColored) =
      (cells.any (fun c => c.color.isSome) || boxes.any isColored) := by
  induction cells generalizing boxes with
  | nil =>
    obtain rfl := List.eq_nil_of_length_eq_zero h.symm
    rfl
  | cons c cells ih =>
    cases boxes with
    | nil => simp at h
    | cons b boxes =>
      simp only [List.map_cons, List.zip_cons_cons, List.any_cons, ih (Nat.succ.inj h)]
      ac_rfl

theorem any_isColored_gridRowBoxes {A : Type} (f : ColumnFormat) (g : Grid α)
    (em strutHeight strutDepth : α) (columns : Nat) {row : TableRow A} {boxes : List (Box α)}
    (h : row.cells.length = boxes.length) :
    (gridRowBoxes f g em strutHeight strutDepth columns row boxes).any isColored =
      (row.color.isSome || row.cells.any (fun c => c.color.isSome) || boxes.any isColored) := by
  have hrules : (row.rules.map fun r => g.ruleBox (r.span columns)).any isColored = false := by
    simp
  have hgap : (row.gap.toList.map fun gap => (vkern (gap.points em) : Box α)).any isColored =
      false := by
    simp
  simp only [gridRowBoxes, gridRowBox, List.any_append, List.any_cons, hrules, hgap,
    isColored_overColor, isColored_hbox, any_isColored_cellBoxes, any_zip_cells h, Bool.or_assoc,
    Bool.false_or, Bool.or_false]

/-- Rows with a box for every cell set their colors and those of the boxes. -/
theorem any_isColored_rows {A : Type} (f : ColumnFormat) (g : Grid α)
    (em strutHeight strutDepth : α) (columns : Nat) {rows : List (TableRow A)}
    {cells : List (List (Box α))}
    (h : List.Forall₂ (fun row boxes => row.cells.length = boxes.length) rows cells) :
    ((rows.zip cells).map fun (row, boxes) =>
      gridRowBoxes f g em strutHeight strutDepth columns row boxes).flatten.any isColored =
    (rows.any (fun r => r.color.isSome || r.cells.any fun c => c.color.isSome) ||
      cells.flatten.any isColored) := by
  induction h with
  | nil => rfl
  | cons hrow _ ih =>
    rw [List.zip_cons_cons, List.map_cons, List.flatten_cons, List.any_append, ih,
      any_isColored_gridRowBoxes f g _ _ _ _ hrow, List.any_cons, List.flatten_cons,
      List.any_append]
    ac_rfl

/-- A table with a box for every cell sets its colors and those of the boxes. -/
theorem isColored_gridBox {A : Type} (t : Table A) (o : TableOptions) (env : Environment α)
    (columns : Nat) {cells : List (List (Box α))}
    (h : List.Forall₂ (fun row boxes => row.cells.length = boxes.length) t.rows cells) :
    (gridBox t o env columns cells).isColored =
      (t.rows.any (fun r => r.color.isSome || r.cells.any fun c => c.color.isSome) ||
        cells.flatten.any isColored) := by
  have htrailing (g : Grid α) :
      (t.trailing.map fun r => g.ruleBox (r.span columns)).any isColored = false := by
    simp
  unfold gridBox
  simp only
  split <;>
    simp only [isColored_hbox, isColored_centeredOnAxis, isColored_vbox, List.any_cons,
      List.any_nil, List.any_append, isColored_delimiterBox, htrailing, Bool.false_or,
      Bool.or_false, any_isColored_rows _ _ _ _ _ _ h]

/-- A checked table sets a color where it has rows and columns: its own colors and those of the
boxes of its cells. -/
theorem Table.IsChecked.isColored_of_tableBox {A : Type} {t : Table A} (h : t.IsChecked)
    {o : TableOptions} {env : Environment α} {cells : List (List (Box α))} {b : Box α}
    (hcells : List.Forall₂ (fun row boxes => row.cells.length = boxes.length) t.rows cells)
    (hb : tableBox t o env cells = .ok b) :
    b.isColored = (!t.rows.isEmpty && t.columnCount != 0 &&
      (t.rows.any (fun r => r.color.isSome || r.cells.any fun c => c.color.isSome) ||
        cells.flatten.any Box.isColored)) := by
  simp only [tableBox, h.firstUneven_eq_none] at hb
  cases hrows : t.rows with
  | nil =>
    rw [hrows, if_pos (.inl rfl)] at hb
    cases hb
    exact isColored_empty
  | cons first rows =>
    rw [h.layoutColumns_eq] at hb
    by_cases hcolumns : t.columnCount = 0
    · rw [if_pos (.inr hcolumns)] at hb
      cases hb
      simp [hcolumns]
    · rw [if_neg (by simp [hrows, hcolumns])] at hb
      cases hb
      rw [isColored_gridBox t o env _ hcells, ← hrows]
      simp [hrows, hcolumns]

/-! ## Rows -/

/-- The item sets a color, or stands under a color declaration. -/
def RowItem.isColored (item : RowItem α) : Bool := item.box.isColored || !item.marks.isEmpty

theorem mem_of_mem_sharedMarks {m : TintMark} {ms ns : List TintMark}
    (h : m ∈ sharedMarks ms ns) : m ∈ ms := by
  fun_induction sharedMarks ms ns with
  | case1 n ns m' ms hid ih =>
    rcases List.mem_cons.mp h with rfl | h
    · exact List.mem_cons_self ..
    · exact List.mem_cons_of_mem _ (ih h)
  | case2 | case3 => simp at h

/-- The pieces of a row are drawn in the tints of its items. -/
theorem forall_marks_rowPieces {Q : TintMark → Prop} {prev : Option (MathClass × List TintMark)}
    {items : List (RowItem α × MathClass)} (hprev : ∀ p ∈ prev, ∀ m ∈ p.2, Q m)
    (h : ∀ i ∈ items, ∀ m ∈ i.1.marks, Q m) : ∀ p ∈ rowPieces prev items, ∀ m ∈ p.marks, Q m := by
  fun_induction rowPieces prev items with
  | case1 => simp
  | case2 prev item rest ih =>
    rw [List.forall_mem_cons] at h ⊢
    exact ⟨h.1, ih hprev h.2⟩
  | case3 prev item c rest _ ih =>
    rw [List.forall_mem_cons] at h
    rw [List.forall_mem_append, List.forall_mem_cons]
    refine ⟨?_, h.1, ih (by simpa using h.1) h.2⟩
    cases prev with
    | none => simp
    | some p =>
      unfold spaceBefore
      simp only
      split
      · simp
      · simpa using fun m hm => hprev p rfl m (mem_of_mem_sharedMarks hm)

/-- The space of a row sets no color of its own. -/
theorem any_isColored_rowPieces (prev : Option (MathClass × List TintMark))
    (items : List (RowItem α × MathClass)) :
    (rowPieces prev items).any Tinted.isColored = items.any fun i => i.1.isColored := by
  have hspace (left c : MathClass) (marks : List TintMark) (item : RowItem α) :
      ((spaceBefore left marks item c).any Tinted.isColored || item.isColored) =
        item.isColored := by
    unfold spaceBefore
    simp only
    split
    · rfl
    · cases hm : item.marks <;> cases marks <;>
        simp [Tinted.isColored, RowItem.isColored, sharedMarks, hm]
  fun_induction rowPieces prev items with
  | case1 => rfl
  | case2 prev item rest ih => simp [ih, Tinted.isColored, RowItem.isColored]
  | case3 prev item c rest _ ih =>
    rw [List.any_append, List.any_cons, ih, List.any_cons]
    cases prev with
    | none => rfl
    | some p =>
      simp only
      rw [← Bool.or_assoc]
      exact congrArg (· || _) (hspace p.1 c p.2 item)

/-- A row sets the colors of its items, where all tints around them have a color. -/
theorem isColored_rowBox {items : List (RowItem α)}
    (h : ∀ i ∈ items, ∀ m ∈ i.marks, m.tint.hasColor = true) :
    (rowBox items).isColored = items.any RowItem.isColored := by
  have hpieces : ∀ p ∈ rowPieces none (items.zip (resolveClasses (items.map RowItem.mathClass))),
      ∀ m ∈ p.marks, m.tint.hasColor = true :=
    forall_marks_rowPieces (by simp) fun i hi => h i.1 (List.of_mem_zip hi).1
  have hzip : (items.zip (resolveClasses (items.map RowItem.mathClass))).map Prod.fst = items :=
    List.map_fst_zip (by simp [resolveClasses, resolveFrom_length])
  rw [rowBox, isColored_hbox, any_isColored_wrapTinted hpieces, any_isColored_rowPieces]
  conv_rhs => rw [← hzip, List.any_map]
  rfl

/-! ## Atoms -/

namespace Atom

/-- The items of atoms are in tints that have a color. -/
theorem forall_marks_rowItems (atoms : List Atom) (env : Environment α) {marks : List TintMark}
    (hmarks : ∀ m ∈ marks, m.tint.hasColor = true) (next : Nat) :
    ∀ i ∈ ((rowItems atoms env marks next).1 : List (RowItem α)), ∀ m ∈ i.marks,
      m.tint.hasColor = true := by
  cases atoms with
  | nil => simp [rowItems]
  | cons a atoms =>
    cases a with
    | switch kind body =>
      have hinner : ∀ m ∈ (kind.enter env marks next).2.1, m.tint.hasColor = true := by
        cases kind with
        | style | font => exact hmarks
        | color c => simpa [SwitchKind.enter, or_imp, forall_and, Tint.hasColor] using hmarks
      rw [rowItems]
      simp only [List.forall_mem_append]
      exact ⟨forall_marks_rowItems body _ hinner _, forall_marks_rowItems atoms _ hmarks _⟩
    | _ =>
      rw [rowItems]
      · rw [List.forall_mem_cons]
        exact ⟨hmarks, forall_marks_rowItems atoms _ hmarks _⟩
      · rintro _ _ ⟨⟩
termination_by atoms
decreasing_by
  all_goals
    simp only [List.cons.sizeOf_spec, Atom.switch.sizeOf_spec]
    omega

/-- Scripts are attached to a box that sets a color if the base does. -/
theorem isColored_nucleus {base : Atom} {env : Environment α}
    (h : (base.layout env).isColored = base.isColored) (hasSup : Bool) :
    (base.nucleus (base.layout env) hasSup env).box.isColored = base.isColored := by
  unfold nucleus
  split
  · split
    · exact h
    · rw [isColored_charBox, isColored_eq]
      simp [setsColor, children]
  · exact h

/-- A checked table without columns has no cells. -/
theorem contents_eq_nil {t : Table Atom} (h : t.IsChecked) (hcolumns : t.columnCount = 0) :
    t.contents = [] := by
  refine List.flatMap_eq_nil_iff.mpr fun r hr => ?_
  have hlength := h r hr
  rw [hcolumns] at hlength
  rw [List.eq_nil_of_length_eq_zero hlength, List.map_nil]

omit [Scalar α] in
/-- A declaration sets its color for the atoms in it that stand in a row. -/
theorem setsColor_switch (kind : SwitchKind) (body : List Atom) (env : Environment α)
    (marks : List TintMark) (next : Nat) :
    (!(kind.enter env marks next).2.1.isEmpty && anyStandsInRow body) =
      (!marks.isEmpty && anyStandsInRow body || (switch kind body).setsColor) := by
  cases kind with
  | style | font => simp [SwitchKind.enter, setsColor]
  | color c => cases marks <;> simp [SwitchKind.enter, setsColor]

mutual

/-- The box of an atom sets a color if and only if the atom or a part of it does. -/
theorem isColored_layout (a : Atom) (h : a.HasCheckedTables) (env : Environment α) :
    (a.layout env).isColored = a.isColored := by
  have hchild {b : Atom} (hb : b ∈ a.children) : b.HasCheckedTables := h.child hb
  rw [isColored_eq]
  cases a with
  | empty | hrule | cellColor | rowColor | space | bigDelimiter | text | operator =>
    simp [layout, setsColor, children]
  | symbol c k =>
    rw [layout]
    split <;> simp [setsColor, children]
  | row atoms =>
    rw [layout, isColored_rowBox (forall_marks_rowItems atoms env (by simp) 0),
      isColored_rowItems atoms (fun b hb => hchild hb)]
    simp [setsColor, children]
  | scripts base sup sub =>
    have hbase := isColored_layout base (hchild (by simp [children])) env
    have hsup := isColored_layoutOption sup (fun b hb => hchild (by simp_all [children])) env.sup
    have hsub := isColored_layoutOption sub (fun b hb => hchild (by simp_all [children])) env.sub
    rw [layout]
    split
    · rw [isColored_limitsBox, hbase, List.any_append, hsup, hsub]
      simp [setsColor, children]
    · rw [isColored_scriptsBox, isColored_nucleus hbase, List.any_append, hsup, hsub]
      simp [setsColor, children]
  | fraction num den bar =>
    rw [layout, isColored_fractionBox,
      isColored_layout num (hchild (by simp [children])),
      isColored_layout den (hchild (by simp [children]))]
    simp [setsColor, children]
  | radical body degree =>
    rw [layout, isColored_radicalBox, isColored_layout body (hchild (by simp [children])),
      isColored_layoutOption degree (fun b hb => hchild (by simp_all [children]))]
    simp [setsColor, children]
  | color body | framed body | styled _ body | font _ body | classed _ body | limits body
  | vcentered body =>
    rw [layout]
    simp [isColored_layout body (hchild (by simp [children])), setsColor, children]
  | array table options =>
    obtain ⟨format, rows, trailing⟩ := table
    have hchecked : Table.IsChecked ⟨format, rows, trailing⟩ :=
      of_decide_eq_true (h _ (List.mem_cons_self ..))
    obtain ⟨b, hb⟩ := hchecked.exists_layout options env
    rw [Table.layout] at hb
    rw [layout, hb]
    simp only
    rw [hchecked.isColored_of_tableBox (forall₂_layoutRows rows _) hb,
      isColored_layoutRows rows (fun b hb => hchild hb)]
    -- Without rows or columns there are no cells.
    cases hrows : rows.isEmpty with
    | true => simp_all [setsColor, children, Table.contents]
    | false =>
      by_cases hcolumns : Table.columnCount ⟨format, rows, trailing⟩ = 0
      · simp [setsColor, children, contents_eq_nil hchecked hcolumns, hcolumns]
      · simp [setsColor, children, Table.contents, hrows, bne_iff_ne.mpr hcolumns]
  | fenced left right segments middles =>
    rw [layout, isColored_fencedBox, isColored_layoutAll segments (fun b hb => hchild hb)]
    simp [setsColor, children]
  | lines parts align =>
    rw [layout, isColored_linesBox, isColored_layoutAll parts (fun b hb => hchild hb)]
    simp [setsColor, children]
  | switch kind body =>
    have hmarks : ∀ m ∈ (kind.enter env [] 0).2.1, m.tint.hasColor = true := by
      cases kind <;> simp [SwitchKind.enter, Tint.hasColor]
    rw [layout]
    simp only
    rw [isColored_rowBox (forall_marks_rowItems body _ hmarks _),
      isColored_rowItems body (fun b hb => hchild hb), setsColor_switch]
    simp [children]
  | decorated body decoration =>
    cases decoration <;>
      simp [layout, isColored_overlineBox, isColored_underlineBox,
        isColored_layout body (hchild (by simp [children])), setsColor, children]
  | rule width height raise => simp [layout, setsColor, children]

theorem isColored_layoutOption (o : Option Atom) (h : ∀ a ∈ o, a.HasCheckedTables)
    (env : Environment α) :
    (layoutOption o env).toList.any Box.isColored = o.toList.any isColored := by
  cases o with
  | none => simp [layoutOption]
  | some a => simp [layoutOption, isColored_layout a (h a rfl) env]

theorem isColored_layoutAll (atoms : List Atom) (h : ∀ a ∈ atoms, a.HasCheckedTables)
    (env : Environment α) :
    (layoutAll atoms env).any Box.isColored = atoms.any isColored := by
  cases atoms with
  | nil => simp [layoutAll]
  | cons a atoms =>
    rw [List.forall_mem_cons] at h
    simp [layoutAll, isColored_layout a h.1 env, isColored_layoutAll atoms h.2 env]

/-- The items of atoms set the colors of the atoms, and that of the tints around them for every atom
that stands in the row. -/
theorem isColored_rowItems (atoms : List Atom) (h : ∀ a ∈ atoms, a.HasCheckedTables)
    (env : Environment α) (marks : List TintMark) (next : Nat) :
    ((rowItems atoms env marks next).1 : List (RowItem α)).any RowItem.isColored =
      (!marks.isEmpty && anyStandsInRow atoms || atoms.any isColored) := by
  cases atoms with
  | nil => simp [rowItems, anyStandsInRow]
  | cons a atoms =>
    rw [List.forall_mem_cons] at h
    cases a with
    | switch kind body =>
      rw [rowItems]
      simp only [List.any_append]
      rw [isColored_rowItems body (fun b hb => h.1.child hb),
        isColored_rowItems atoms h.2, setsColor_switch]
      simp only [anyStandsInRow, standsInRow, List.any_cons, isColored_eq (.switch kind body),
        children]
      generalize (switch kind body).setsColor = c
      cases marks.isEmpty <;> simp [Bool.or_assoc, Bool.or_left_comm]
    | _ =>
      rw [rowItems]
      · simp only [List.any_cons, RowItem.isColored, isColored_rowItems atoms h.2,
          isColored_layout _ h.1 env, anyStandsInRow, standsInRow]
        cases marks.isEmpty <;> simp
      · rintro _ _ ⟨⟩

theorem isColored_layoutCells (cells : List (Cell Atom))
    (h : ∀ a ∈ cells.map Cell.content, a.HasCheckedTables) (env : Environment α) :
    (layoutCells cells env).any Box.isColored = (cells.map Cell.content).any isColored := by
  cases cells with
  | nil => simp [layoutCells]
  | cons c cells =>
    obtain ⟨content, color⟩ := c
    rw [List.map_cons, List.forall_mem_cons] at h
    simp [layoutCells, isColored_layout content h.1 env, isColored_layoutCells cells h.2 env]

theorem isColored_layoutRows (rows : List (TableRow Atom))
    (h : ∀ a ∈ rows.flatMap (fun r => r.cells.map Cell.content), a.HasCheckedTables)
    (env : Environment α) :
    (layoutRows rows env).flatten.any Box.isColored =
      (rows.flatMap fun r => r.cells.map Cell.content).any isColored := by
  cases rows with
  | nil => simp [layoutRows]
  | cons r rows =>
    obtain ⟨cells, rules, color, gap⟩ := r
    rw [List.flatMap_cons, List.forall_mem_append] at h
    simp only [layoutRows, List.flatten_cons, List.any_append, List.flatMap_cons,
      isColored_layoutCells cells h.1 env, isColored_layoutRows rows h.2 env]

end

end Atom

/-- **The color flag is exact.** Where every table has a cell in every column, the box of an atom
sets a color if and only if a part of the atom does: a formula in a foreground or over a background,
a frame with a color, a color declaration with an atom after it that stands in the row, or a table
with rows and columns and a color of a row or a cell. -/
theorem isColored_layout_iff (a : Atom) (h : a.HasCheckedTables) (env : Environment α) :
    (a.layout env).isColored = true ↔ ∃ p ∈ a.parts, p.setsColor = true := by
  rw [a.isColored_layout h env, Atom.isColored, List.any_eq_true]

/-- The cell of a table under a radical sign is colored, while a color declaration with nothing but
another declaration after it is not. -/
theorem isColored_layout_iff_table :
    let red : Color := { r := 255, g := 0, b := 0 }
    let cell : Cell Atom := { content := .ofChar 'x', color := some red }
    let table : Table Atom := { format := .centered, rows := [{ cells := [cell] }] }
    let colored : Atom := .radical (.array table {}) none
    let plain : Atom := .row [.ofChar 'x', .switch (.color red) [.switch (.style .script) []]]
    let env : Environment Float := { style := .display, size := 20.0 }
    (colored.HasCheckedTables ∧ (colored.layout env).isColored = true) ∧
      plain.HasCheckedTables ∧ (plain.layout env).isColored = false := by
  intro red cell table colored plain env
  have hcolored : colored.HasCheckedTables := by decide
  have hplain : plain.HasCheckedTables := by decide
  refine ⟨⟨hcolored, (isColored_layout_iff colored hcolored env).mpr ?_⟩, hplain, ?_⟩
  · exact ⟨.array table {}, by simp [colored, Atom.parts, Atom.inside], by decide⟩
  · rw [← Bool.not_eq_true, isColored_layout_iff plain hplain env]
    simp [plain, Atom.parts, Atom.inside, Atom.partsOfAll, Atom.ofChar, Atom.setsColor,
      Atom.anyStandsInRow, Atom.standsInRow]

end Typeset
