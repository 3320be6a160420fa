import Typeset.Proofs.Layout.Characters

/-!
# Reading in range

The grid of a table is read by numbers of columns and boundaries, with a value to fall back on where
a number is out of range. Here the same is read with nothing to fall back on.

* `Grid.boundaryWidth?`, `Grid.columnStart?`, `gridBox?` and the others: what their namesakes give,
  or nothing if one of the numbers they read at is out of range.
* `Grid.HasColumns`: the grid has a width for every column and one boundary more.
* `Table.layout?_eq`: no table is laid out with a number out of range.
-/

namespace Typeset

variable {α : Type} [Scalar α]

/-- A step that always succeeds, taken for every element. -/
theorem mapM_eq_some_map {β γ : Type} {f : β → Option γ} {g : β → γ} {l : List β}
    (h : ∀ a ∈ l, f a = some (g a)) : l.mapM f = some (l.map g) := by
  induction l with
  | nil => rfl
  | cons a l ih =>
    rw [List.mapM_cons, h a (by simp), ih fun b hb => h b (by simp [hb])]
    rfl

namespace Grid

/-- Width of a boundary. -/
def boundaryWidth? (g : Grid α) (j : Nat) : Option α := do
  let (before, after) ← g.gaps[j]?
  let rules ← g.rules[j]?
  return before + after + Scalar.ofNat rules * g.thickness + Scalar.ofNat (rules - 1) * g.ruleSep

/-- The boxes of a boundary in a row of the given height and depth. -/
def boundary? (g : Grid α) (j : Nat) (height depth : α) : Option (List (Box α)) := do
  let (before, after) ← g.gaps[j]?
  let rules ← g.rules[j]?
  let rule := Box.rule g.thickness height depth
  return .kern before ::
    ((List.replicate rules rule).intersperse (.kern g.ruleSep) ++ [.kern after])

/-- Left edge of a column. The grid must have the boundaries up to it and the columns before it. -/
def columnStart? (g : Grid α) (c : Nat) : Option α := do
  let boundaries ← (List.range (c + 1)).mapM g.boundaryWidth?
  let widths ← (List.range c).mapM fun j => g.widths[j]?
  return Scalar.sum boundaries + Scalar.sum widths

/-- Width of the table. -/
def totalWidth? (g : Grid α) : Option α := do
  let n := g.widths.length
  let start ← g.columnStart? (n - 1)
  let right ← g.boundaryWidth? n
  return start + g.widths.getLast?.getD 0.0 + right

/-- A horizontal rule over a range of columns. -/
def ruleBox? (g : Grid α) : Option (Nat × Nat) → Option (Box α)
  | none => some .empty
  | some (first, last) => do
    let total ← g.totalWidth?
    let box (left right : α) : Box α :=
      .hbox [.kern left, .rule (right - left) g.thickness 0.0, .kern (total - right)]
    if first = 0 ∧ last + 1 = g.widths.length then
      return box 0.0 total
    else
      let start ← g.columnStart? first
      let (_, after) ← g.gaps[first]?
      let stop ← g.columnStart? last
      let width ← g.widths[last]?
      let (before, _) ← g.gaps[last + 1]?
      return box (start - after) (stop + width + before)

/-- The grid has a width for every column, and a boundary before each and after the last. -/
structure HasColumns (g : Grid α) (columns : Nat) : Prop where
  widths : g.widths.length = columns
  gaps : g.gaps.length = columns + 1
  rules : g.rules.length = columns + 1

end Grid

/-- Width of a column. Every row must have a box in it. -/
def naturalWidth? (f : ColumnFormat) (em : α) (cells : List (List (Box α))) (j : Nat) :
    Option α := do
  let widths ← cells.mapM fun row => row[j]?.map Box.width
  let natural := Scalar.largest 0.0 widths
  return match (f.column j).width with
    | none => natural
    | some fixed => Scalar.larger natural (fixed.points em)

/-- The grid of a table in the environment of its cells. Only its widths depend on the boxes. -/
def gridOf? (f : ColumnFormat) (o : TableOptions) (env : Environment α) (columns : Nat)
    (cells : List (List (Box α))) : Option (Grid α) := do
  let widths ← (List.range columns).mapM (naturalWidth? f env.em cells)
  return { gridOf f o env columns cells with widths }

/-- A cell in its column, as high and deep as its row. -/
def cellBox? (f : ColumnFormat) (g : Grid α) (height depth : α) (j : Nat) (color : Option Color)
    (b : Box α) : Option (Box α) := do
  let spec := f.column j
  let align := if spec.width.isSome then .left else spec.align
  let width ← g.widths[j]?
  return overColor color (.hbox [.strut 0.0 height depth, b.aligned width align])

/-- Cells from column `j` on, each after its boundary, and the boundary at the end of the row. -/
def cellBoxes? (f : ColumnFormat) (g : Grid α) (height depth : α) :
    Nat → List (Option Color × Box α) → Option (List (Box α))
  | j, [] => g.boundary? j height depth
  | j, (color, b) :: cells => do
    let boundary ← g.boundary? j height depth
    let cell ← cellBox? f g height depth j color b
    let rest ← cellBoxes? f g height depth (j + 1) cells
    return boundary ++ cell :: rest

/-- The box of a row. -/
def gridRowBox? {A : Type} (f : ColumnFormat) (g : Grid α) (strutHeight strutDepth : α)
    (row : TableRow A) (boxes : List (Box α)) : Option (Box α) := do
  let height := Scalar.largest strutHeight (boxes.map Box.height)
  let depth := Scalar.largest strutDepth (boxes.map Box.depth)
  let cells ← cellBoxes? f g height depth 0 ((row.cells.map Cell.color).zip boxes)
  return overColor row.color (.hbox cells)

/-- A row with the rules above it and the gap below it. -/
def gridRowBoxes? {A : Type} (f : ColumnFormat) (g : Grid α) (em strutHeight strutDepth : α)
    (columns : Nat) (row : TableRow A) (boxes : List (Box α)) : Option (List (Box α)) := do
  let rules ← row.rules.mapM fun r => g.ruleBox? (r.span columns)
  let line ← gridRowBox? f g strutHeight strutDepth row boxes
  return rules ++ line :: row.gap.toList.map fun gap => .vkern (gap.points em)

/-- The box of a table of `columns` columns from the boxes of its cells. -/
def gridBox? {A : Type} (t : Table A) (o : TableOptions) (env : Environment α) (columns : Nat)
    (cells : List (List (Box α))) : Option (Box α) := do
  let cellEnv := env.withStyle o.style
  let em := cellEnv.em
  let g ← gridOf? t.format o cellEnv columns cells
  let strutHeight := 0.84 * o.rowStretch.value * em
  let strutDepth := 0.36 * o.rowStretch.value * em
  let rows ← (t.rows.zip cells).mapM fun (row, boxes) =>
    gridRowBoxes? t.format g em strutHeight strutDepth columns row boxes
  let trailing ← t.trailing.mapM fun r => g.ruleBox? (r.span columns)
  let stacked := rows.flatten
  let afterLast := (t.rows.getLast?.bind TableRow.gap).toList.length
  let body := Box.vbox (stacked ++ trailing) (stacked.length - 1 - afterLast)
  let centered := centeredOnAxis body env
  return if o.isFenced then
      let target := fenceSize centered.height centered.depth env
      .hbox [delimiterBox o.left target env, centered, delimiterBox o.right target env]
    else
      centered

/-- The box of a table from the boxes of its cells. -/
def tableBox? {A : Type} (t : Table A) (o : TableOptions) (env : Environment α)
    (cells : List (List (Box α))) : Option (Except DimensionError (Box α)) :=
  let columns := layoutColumns t
  match firstUneven columns 0 t.rows with
  | some error => some (.error error)
  | none =>
    if t.rows.isEmpty ∨ columns = 0 then some (.ok .empty)
    else (gridBox? t o env columns cells).map .ok

/-- The box of a table of atoms. -/
def Table.layout? (t : Table Atom) (o : TableOptions) (env : Environment α) :
    Option (Except DimensionError (Box α)) :=
  tableBox? t o env (Atom.layoutRows t.rows (env.withStyle o.style))

namespace Grid

variable {g : Grid α} {columns : Nat}

theorem HasColumns.getElem?_gaps (h : g.HasColumns columns) {j : Nat} (hj : j ≤ columns) :
    g.gaps[j]? = some (g.gapBefore j, g.gapAfter j) := by
  have hlt : j < g.gaps.length := by
    rw [h.gaps]
    omega
  simp [gapBefore, gapAfter, hlt]

omit [Scalar α] in
theorem HasColumns.getElem?_rules (h : g.HasColumns columns) {j : Nat} (hj : j ≤ columns) :
    g.rules[j]? = some (g.ruleCount j) := by
  have hlt : j < g.rules.length := by
    rw [h.rules]
    omega
  simp [ruleCount, hlt]

theorem HasColumns.getElem?_widths (h : g.HasColumns columns) {j : Nat} (hj : j < columns) :
    g.widths[j]? = some (g.width j) := by
  have hlt : j < g.widths.length := by rwa [h.widths]
  simp [width, hlt]

theorem HasColumns.boundaryWidth?_eq (h : g.HasColumns columns) {j : Nat} (hj : j ≤ columns) :
    g.boundaryWidth? j = some (g.boundaryWidth j) := by
  rw [boundaryWidth?, h.getElem?_gaps hj, h.getElem?_rules hj]
  rfl

example : (Grid.mk [] [(1, 1)] [0] 1 1 : Grid Rat).boundaryWidth? 1 = none := rfl

theorem HasColumns.boundary?_eq (h : g.HasColumns columns) {j : Nat} (hj : j ≤ columns)
    (height depth : α) : g.boundary? j height depth = some (g.boundary j height depth) := by
  rw [boundary?, h.getElem?_gaps hj, h.getElem?_rules hj]
  rfl

theorem HasColumns.columnStart?_eq (h : g.HasColumns columns) {c : Nat} (hc : c ≤ columns) :
    g.columnStart? c = some (g.columnStart c) := by
  have hboundaries : (List.range (c + 1)).mapM g.boundaryWidth? =
      some ((List.range (c + 1)).map g.boundaryWidth) :=
    mapM_eq_some_map fun j hj => h.boundaryWidth?_eq (by rw [List.mem_range] at hj; omega)
  have hwidths : (List.range c).mapM (fun j => g.widths[j]?) =
      some ((List.range c).map g.width) :=
    mapM_eq_some_map fun j hj => h.getElem?_widths (by rw [List.mem_range] at hj; omega)
  have htake : (List.range c).map g.width = g.widths.take c := by
    have hlength : c ≤ g.widths.length := by rwa [h.widths]
    refine List.ext_getElem (by simpa using hlength) fun j hj _ => ?_
    simp only [List.length_map, List.length_range] at hj
    simp [width, hj.trans_le hlength]
  rw [columnStart?, hboundaries, hwidths, htake]
  rfl

theorem HasColumns.totalWidth?_eq (h : g.HasColumns columns) :
    g.totalWidth? = some g.totalWidth := by
  simp only [totalWidth?, h.widths, h.columnStart?_eq (c := columns - 1) (by omega),
    h.boundaryWidth?_eq (Nat.le_refl columns), totalWidth]
  rfl

/-- A rule is drawn over any range in the table. -/
theorem HasColumns.ruleBox?_eq (h : g.HasColumns columns) {span : Option (Nat × Nat)}
    (hspan : ∀ first last, span = some (first, last) → first ≤ last ∧ last < columns) :
    g.ruleBox? span = some (g.ruleBox span) := by
  cases span with
  | none => rfl
  | some range =>
    obtain ⟨first, last⟩ := range
    obtain ⟨hle, hlt⟩ := hspan first last rfl
    simp only [ruleBox?, ruleBox, h.totalWidth?_eq, h.columnStart?_eq (c := first) (by omega),
      h.columnStart?_eq (c := last) (by omega), h.getElem?_gaps (j := first) (by omega),
      h.getElem?_gaps (j := last + 1) (by omega), h.getElem?_widths hlt]
    split <;> rfl

end Grid

theorem hasColumns_gridOf (f : ColumnFormat) (o : TableOptions) (env : Environment α)
    (columns : Nat) (cells : List (List (Box α))) :
    (gridOf f o env columns cells).HasColumns columns where
  widths := by simp [gridOf]
  gaps := by simp [gridOf]
  rules := by simp [gridOf]

theorem naturalWidth?_eq (f : ColumnFormat) (em : α) {cells : List (List (Box α))} {j : Nat}
    (h : ∀ row ∈ cells, j < row.length) :
    naturalWidth? f em cells j = some (naturalWidth f em cells j) := by
  have hwidths : (cells.mapM fun row => row[j]?.map Box.width) =
      some (cells.map fun row => (row[j]?.map Box.width).getD 0.0) :=
    mapM_eq_some_map fun row hrow => by simp [h row hrow]
  rw [naturalWidth?, hwidths]
  rfl

theorem gridOf?_eq (f : ColumnFormat) (o : TableOptions) (env : Environment α) {columns : Nat}
    {cells : List (List (Box α))} (h : ∀ row ∈ cells, row.length = columns) :
    gridOf? f o env columns cells = some (gridOf f o env columns cells) := by
  have hwidths : (List.range columns).mapM (naturalWidth? f env.em cells) =
      some ((List.range columns).map (naturalWidth f env.em cells)) :=
    mapM_eq_some_map fun j hj => naturalWidth?_eq f env.em fun row hrow => by
      rw [h row hrow]
      exact List.mem_range.mp hj
  rw [gridOf?, hwidths]
  rfl

section

variable {g : Grid α} {columns : Nat} (hg : g.HasColumns columns) (f : ColumnFormat)
include hg

theorem cellBox?_eq (height depth : α) {j : Nat} (hj : j < columns) (color : Option Color)
    (b : Box α) :
    cellBox? f g height depth j color b = some (cellBox f g height depth j color b) := by
  rw [cellBox?, hg.getElem?_widths hj]
  rfl

/-- The cells from column `j` on end at the last column. -/
theorem cellBoxes?_eq (height depth : α) {cells : List (Option Color × Box α)} {j : Nat}
    (hj : j + cells.length = columns) :
    cellBoxes? f g height depth j cells = some (cellBoxes f g height depth j cells) := by
  induction cells generalizing j with
  | nil => exact hg.boundary?_eq (by simpa using hj.le) height depth
  | cons cell cells ih =>
    obtain ⟨color, b⟩ := cell
    rw [List.length_cons] at hj
    rw [cellBoxes?, hg.boundary?_eq (by omega), cellBox?_eq hg f height depth (by omega),
      ih (j := j + 1) (by omega)]
    rfl

theorem gridRowBoxes?_eq {A : Type} (em strutHeight strutDepth : α) {row : TableRow A}
    {boxes : List (Box α)} (hrow : row.cells.length = columns) (hboxes : boxes.length = columns) :
    gridRowBoxes? f g em strutHeight strutDepth columns row boxes =
      some (gridRowBoxes f g em strutHeight strutDepth columns row boxes) := by
  have hrules : (row.rules.mapM fun r => g.ruleBox? (r.span columns)) =
      some (row.rules.map fun r => g.ruleBox (r.span columns)) :=
    mapM_eq_some_map fun r _ => hg.ruleBox?_eq fun _ _ => HRule.span_bounds
  have hline : gridRowBox? f g strutHeight strutDepth row boxes =
      some (gridRowBox f g strutHeight strutDepth row boxes) := by
    rw [gridRowBox?, cellBoxes?_eq hg f _ _ (by simp [hrow, hboxes])]
    rfl
  rw [gridRowBoxes?, hrules, hline]
  rfl

end

/-- Rows of as many cells as there are columns are stacked without a number out of range. -/
theorem gridBox?_eq {A : Type} {t : Table A} (o : TableOptions) (env : Environment α)
    {columns : Nat} {cells : List (List (Box α))}
    (hrows : ∀ row ∈ t.rows, row.cells.length = columns)
    (hcells : ∀ boxes ∈ cells, boxes.length = columns) :
    gridBox? t o env columns cells = some (gridBox t o env columns cells) := by
  have hg := hasColumns_gridOf t.format o (env.withStyle o.style) columns cells
  have hstack (em strutHeight strutDepth : α) :=
    mapM_eq_some_map (l := t.rows.zip cells) fun p hp =>
      gridRowBoxes?_eq hg t.format em strutHeight strutDepth (hrows p.1 (List.of_mem_zip hp).1)
        (hcells p.2 (List.of_mem_zip hp).2)
  have htrailing := mapM_eq_some_map (l := t.trailing) fun r _ =>
    hg.ruleBox?_eq fun _ _ => HRule.span_bounds (r := r)
  simp only [gridBox?, gridOf?_eq t.format o _ hcells, Option.bind_eq_bind, Option.bind_some,
    hstack, htrailing]
  rfl

/-- **No number is out of range.** Whatever the format, the rows and the rules of a table, its
layout reads widths, spaces and numbers of rules only where there are some. -/
theorem Table.layout?_eq (t : Table Atom) (o : TableOptions) (env : Environment α) :
    t.layout? o env = some (t.layout o env) := by
  rw [layout?, layout, tableBox?, tableBox]
  cases huneven : firstUneven (layoutColumns t) 0 t.rows with
  | some e => rfl
  | none =>
    have hrows := (firstUneven_eq_none_iff 0).mp huneven
    have hcells : ∀ boxes ∈ (Atom.layoutRows t.rows (env.withStyle o.style) : List (List (Box α))),
        boxes.length = layoutColumns t := by
      have hlengths : t.rows.map (fun r => r.cells.length) =
          (Atom.layoutRows t.rows (env.withStyle o.style) : List (List (Box α))).map
            List.length := by
        rw [← List.forall₂_eq_eq_eq, List.forall₂_map_left_iff, List.forall₂_map_right_iff]
        exact Atom.forall₂_layoutRows t.rows _
      intro boxes hboxes
      have hlength := List.mem_map_of_mem (f := List.length) hboxes
      rw [← hlengths, List.mem_map] at hlength
      obtain ⟨r, hr, heq⟩ := hlength
      rw [← heq]
      exact hrows r hr
    simp only [gridBox?_eq o env hrows hcells]
    split <;> rfl

end Typeset
