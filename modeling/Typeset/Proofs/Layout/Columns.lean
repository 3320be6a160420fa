import Mathlib.Tactic.Linarith
import Typeset.Proofs.Box.Places
import Typeset.Proofs.Layout.Characters

/-!
# Columns and rules of tables

The rows of a table are built box after box, and its rules are measured by sums. With exact lengths
both agree: every row sets its columns where the sums say, and the rules end at the space beside the
columns that they cover.

* `Grid.sum_boundary`: the boxes of a boundary are as wide as the boundary.
* `Grid.boundaryStart_succ`, `Grid.totalWidth_eq_columnStart`: the sums, column after column.
* `sum_cellBoxes`, `exists_cellBoxes_eq`: how wide a row is, and what stands before a cell of it.
* `Grid.SetsColumn`, `Grid.DrawsRule`: a row, or a rule, keeps to the grid.
* `Table.stands_on_grid`: the lines of a table keep to its grid.
-/

namespace Typeset

open Box

/-! ## Sums -/

namespace Grid

variable (g : Grid Rat)

/-- The rules of a boundary with the space between them. -/
theorem sum_intersperse_rules (n : Nat) (rule between : Box Rat) :
    (((List.replicate n rule).intersperse between).map Box.width).sum =
      n * rule.width + (n - 1 : Nat) * between.width := by
  induction n with
  | zero => simp
  | succ n ih =>
    cases n with
    | zero => simp
    | succ n =>
      rw [List.replicate_succ, List.replicate_succ, List.intersperse_cons_cons,
        ← List.replicate_succ, List.map_cons, List.map_cons, List.sum_cons, List.sum_cons, ih,
        Nat.add_sub_cancel, Nat.add_sub_cancel]
      push_cast
      ring

/-- The boxes of a boundary are as wide as the boundary. -/
theorem sum_boundary (j : Nat) (height depth : Rat) :
    ((g.boundary j height depth).map Box.width).sum = g.boundaryWidth j := by
  simp only [boundary, boundaryWidth, List.map_cons, List.sum_cons, List.map_append,
    List.sum_append, sum_intersperse_rules, Scalar.ofNat_rat]
  simp only [kern, glue, rule, unshifted, List.map_nil, List.sum_nil]
  ring

/-- Left edge of the boundary before column `c`. -/
def boundaryStart (c : Nat) : Rat :=
  ((List.range c).map g.boundaryWidth).sum + (g.widths.take c).sum

theorem columnStart_eq (c : Nat) : g.columnStart c = g.boundaryStart c + g.boundaryWidth c := by
  simp only [columnStart, boundaryStart, Scalar.sum_rat, List.range_succ, List.map_append,
    List.sum_append, List.map_singleton, List.sum_singleton]
  ring

/-- A column and the boundary after it. -/
theorem boundaryStart_succ {c : Nat} (h : c < g.widths.length) :
    g.boundaryStart (c + 1) = g.columnStart c + g.width c := by
  have hwidth : g.widths[c]? = some (g.width c) := by simp [width, h]
  rw [columnStart_eq]
  simp only [boundaryStart, List.range_succ, List.map_append, List.sum_append, List.map_singleton,
    List.sum_singleton, List.take_add_one, hwidth, Option.toList_some]
  ring

/-- The table ends where a further column would start. -/
theorem totalWidth_eq_columnStart (h : 0 < g.widths.length) :
    g.totalWidth = g.columnStart g.widths.length := by
  obtain ⟨n, hn⟩ : ∃ n, g.widths.length = n + 1 := ⟨g.widths.length - 1, by omega⟩
  have hlast : g.widths.getLast?.getD 0.0 = g.width n := by
    rw [List.getLast?_eq_getElem?, hn]
    rfl
  rw [totalWidth, hlast, columnStart_eq g g.widths.length, hn, Nat.add_sub_cancel,
    boundaryStart_succ g (by omega)]

/-- Left edge of the space between the rules before column `c` and the column. -/
def gapLeft (c : Nat) : Rat := g.columnStart c - g.gapAfter c

/-- Right edge of the space between column `c` and the rules after it. -/
def gapRight (c : Nat) : Rat := g.columnStart c + g.width c + g.gapBefore (c + 1)

end Grid

/-! ## Rows -/

section Rows

variable (f : ColumnFormat) {g : Grid Rat} (height depth : Rat)

@[simp] theorem width_kern (width : Rat) : (kern width).width = width := rfl

theorem width_overColor (bg : Option Color) (b : Box Rat) : (overColor bg b).width = b.width := by
  cases bg <;> rfl

/-- A box in a width that holds it fills that width. -/
theorem width_aligned {b : Box Rat} {width : Rat} (h : b.width ≤ width) (align : HAlign) :
    (b.aligned width align).width = width := by
  unfold aligned
  simp only
  split
  · rename_i hextra
    rw [Scalar.zero_rat] at hextra
    linarith
  · have htwo : (2.0 : Rat) = 2 := by norm_num
    cases align <;>
      simp only [hbox, unshifted, kern, glue, Scalar.sum_rat, List.map_cons, List.map_nil,
        List.sum_cons, List.sum_nil, Scalar.zero_rat, htwo] <;> ring

/-- A cell is as wide as its column. -/
theorem width_cellBox {j : Nat} (color : Option Color) {b : Box Rat} (h : b.width ≤ g.width j) :
    (cellBox f g height depth j color b).width = g.width j := by
  simp only [cellBox, width_overColor, hbox, unshifted, Scalar.sum_rat, List.map_cons,
    List.map_nil, List.sum_cons, List.sum_nil, width_aligned h, strut, Scalar.zero_rat]
  ring

/-- Each cell from column `j` on is no wider than its column. -/
def FitsColumns (g : Grid Rat) (j : Nat) (cells : List (Option Color × Box Rat)) : Prop :=
  ∀ i c, cells[i]? = some c → c.2.width ≤ g.width (j + i)

theorem FitsColumns.head {j : Nat} {c : Option Color × Box Rat}
    {cells : List (Option Color × Box Rat)} (h : FitsColumns g j (c :: cells)) :
    c.2.width ≤ g.width j := h 0 c rfl

theorem FitsColumns.tail {j : Nat} {c : Option Color × Box Rat}
    {cells : List (Option Color × Box Rat)} (h : FitsColumns g j (c :: cells)) :
    FitsColumns g (j + 1) cells := by
  intro i d hd
  have hwidth := h (i + 1) d (by simpa using hd)
  rwa [show j + (i + 1) = j + 1 + i by omega] at hwidth

/-- The boxes of the cells from column `j` on, with their boundaries, reach to the end of the
table. -/
theorem sum_cellBoxes {j : Nat} {cells : List (Option Color × Box Rat)}
    (hfits : FitsColumns g j cells) (hj : j + cells.length = g.widths.length) :
    g.boundaryStart j + ((cellBoxes f g height depth j cells).map Box.width).sum =
      g.columnStart g.widths.length := by
  induction cells generalizing j with
  | nil =>
    obtain rfl : j = g.widths.length := by simpa using hj
    rw [cellBoxes, g.sum_boundary, g.columnStart_eq]
  | cons c cells ih =>
    obtain ⟨color, b⟩ := c
    rw [List.length_cons] at hj
    have hrest := ih hfits.tail (by omega)
    rw [g.boundaryStart_succ (by omega), g.columnStart_eq] at hrest
    rw [cellBoxes, List.map_append, List.sum_append, g.sum_boundary, List.map_cons, List.sum_cons,
      width_cellBox f height depth color hfits.head]
    linarith

/-- The cells from column `j` on start with the space before the rules of their boundary. -/
theorem exists_cellBoxes_cons (j : Nat) (cells : List (Option Color × Box Rat)) :
    ∃ rest, cellBoxes f g height depth j cells = kern (g.gapBefore j) :: rest := by
  cases cells with
  | nil => exact ⟨_, rfl⟩
  | cons c cells => exact ⟨_, rfl⟩

/-- A cell stands between the spaces beside its column, and before it stands what makes up the start
of its column. -/
theorem exists_cellBoxes_eq {j i : Nat} {cells : List (Option Color × Box Rat)}
    {color : Option Color} {b : Box Rat} (hfits : FitsColumns g j cells)
    (hj : j + cells.length = g.widths.length) (hi : cells[i]? = some (color, b)) :
    ∃ before after, cellBoxes f g height depth j cells =
        before ++ kern (g.gapAfter (j + i)) :: cellBox f g height depth (j + i) color b ::
          kern (g.gapBefore (j + i + 1)) :: after ∧
      g.boundaryStart j + (before.map Box.width).sum = g.gapLeft (j + i) := by
  induction cells generalizing j i with
  | nil => simp at hi
  | cons c cells ih =>
    obtain ⟨color', b'⟩ := c
    rw [List.length_cons] at hj
    cases i with
    | zero =>
      obtain ⟨rfl, rfl⟩ : color' = color ∧ b' = b := by simpa using hi
      obtain ⟨rest, hrest⟩ := exists_cellBoxes_cons f (g := g) height depth (j + 1) cells
      let rules := (List.replicate (g.ruleCount j) (rule g.thickness height depth)).intersperse
        (kern g.ruleSep)
      have hboundary : g.boundary j height depth =
          (kern (g.gapBefore j) :: rules) ++ [kern (g.gapAfter j)] := rfl
      refine ⟨kern (g.gapBefore j) :: rules, rest, ?_, ?_⟩
      · rw [cellBoxes, hboundary, hrest, List.append_assoc]
        rfl
      · have hsum := g.sum_boundary j height depth
        rw [hboundary, List.map_append, List.sum_append, List.map_singleton, List.sum_singleton,
          width_kern] at hsum
        rw [Nat.add_zero, Grid.gapLeft, g.columnStart_eq]
        linarith
    | succ i =>
      obtain ⟨before, after, heq, hsum⟩ := ih hfits.tail (by omega) (by simpa using hi)
      rw [show j + 1 + i = j + (i + 1) by omega] at heq hsum
      refine ⟨g.boundary j height depth ++ cellBox f g height depth j color' b' :: before, after,
        ?_, ?_⟩
      · rw [cellBoxes, heq, List.append_assoc]
        rfl
      · rw [g.boundaryStart_succ (by omega), g.columnStart_eq] at hsum
        rw [List.map_append, List.sum_append, g.sum_boundary, List.map_cons, List.sum_cons,
          width_cellBox f height depth color' hfits.head]
        linarith

end Rows

/-! ## Columns of a row -/

namespace Grid

/-- The line sets a box in column `j` of the grid. Its row has a cell for it between the two spaces
beside the column. The cell, and in it the box in the width of the column, fills the column, and the
spaces reach from the column to their edges. -/
def SetsColumn (g : Grid Rat) (j : Nat) (natural tree : Box Rat) (line : Placement) : Prop :=
  ∃ row ∈ tree.placements, ∃ (i : Nat) (cell : Box Rat),
    line.path <+: row.path ∧
    row.box.children[i]? = some (kern (g.gapAfter j)) ∧
    row.box.children[i + 1]? = some cell ∧
    row.box.children[i + 2]? = some (kern (g.gapBefore (j + 1))) ∧
    cell.width = g.width j ∧
    (∃ content ∈ tree.placements, ∃ align,
      (row.child (i + 1) cell).path <+: content.path ∧
      content.box = natural.aligned (g.width j) align ∧ content.box.width = g.width j ∧
      ∀ x, content.left x = line.left x + g.columnStart j) ∧
    ∀ x, (row.child i (kern (g.gapAfter j))).left x = line.left x + g.gapLeft j ∧
      (row.child (i + 1) cell).left x = line.left x + g.columnStart j ∧
      (row.child (i + 2) (kern (g.gapBefore (j + 1)))).right x = line.left x + g.gapRight j

/-- The line draws a rule over the columns from `first` to `last`: over the whole width, if these
are all columns, and else from the space before the first one to the space after the last one. -/
def DrawsRule (g : Grid Rat) (first last : Nat) (tree : Box Rat) (line : Placement) : Prop :=
  ∃ bar ∈ tree.placements, line.path <+: bar.path ∧ bar.box.content = .rule ∧
    ∀ x, if first = 0 ∧ last + 1 = g.widths.length then
      bar.left x = line.left x ∧ bar.right x = line.left x + g.totalWidth
    else
      bar.left x = line.left x + g.gapLeft first ∧ bar.right x = line.left x + g.gapRight last

end Grid

/-- A child of a row starts after the widths of those before it. -/
theorem Box.childRight_append {b : Box Rat} (before : List (Box Rat)) {after : List (Box Rat)}
    (h : b.content = .hbox (before ++ after)) :
    b.childRight before.length = (before.map Box.width).sum := by
  simp [childRight, h]

theorem Box.childRight_succ {b c : Box Rat} (before : List (Box Rat)) {after : List (Box Rat)}
    (h : b.content = .hbox (before ++ c :: after)) :
    b.childRight (before.length + 1) = b.childRight before.length + c.width := by
  have happend : b.content = .hbox ((before ++ [c]) ++ after) := by simp [h]
  have hnext := childRight_append _ happend
  rw [List.length_append, List.length_singleton] at hnext
  rw [hnext, childRight_append before h, List.map_append, List.sum_append, List.map_singleton,
    List.sum_singleton]

section Lines

variable {f : ColumnFormat} {g : Grid Rat} {tree : Box Rat} {line : Placement}

/-- A box over a background starts where the background does. -/
theorem exists_place_overColor {m : Placement} (hm : m ∈ tree.placements) {bg : Option Color}
    {c : Box Rat} (h : m.box = overColor bg c) :
    ∃ p ∈ tree.placements, m.path <+: p.path ∧ p.box = c ∧ ∀ x, p.left x = m.left x := by
  cases bg with
  | none => exact ⟨m, hm, List.prefix_rfl, h, fun x => rfl⟩
  | some color =>
    have hchild : m.box.children[0]? = some c := by
      rw [h]
      rfl
    refine ⟨m.child 0 c, child_mem_placementsIn hm hchild, m.path_prefix_child .., rfl,
      fun x => ?_⟩
    have hright : m.box.childRight 0 = 0 := by
      rw [h]
      rfl
    rw [Placement.left_child, hright, add_zero]

/-- The content of a cell starts where the cell does. -/
theorem exists_place_cellBox {m : Placement} (hm : m ∈ tree.placements) {height depth : Rat}
    {j : Nat} {color : Option Color} {b : Box Rat}
    (h : m.box = cellBox f g height depth j color b) :
    ∃ p ∈ tree.placements, ∃ align, m.path <+: p.path ∧ p.box = b.aligned (g.width j) align ∧
      ∀ x, p.left x = m.left x := by
  obtain ⟨row, hrow, hpath, hbox, hleft⟩ := exists_place_overColor hm h
  let align := if (f.column j).width.isSome then HAlign.left else (f.column j).align
  have hchild : row.box.children[1]? = some (b.aligned (g.width j) align) := by
    rw [hbox]
    rfl
  refine ⟨row.child 1 _, child_mem_placementsIn hrow hchild, align,
    hpath.trans (row.path_prefix_child ..), rfl, fun x => ?_⟩
  have hright : row.box.childRight 1 = 0 := by
    rw [hbox]
    show 0.0 + 0 = (0 : Rat)
    rw [Scalar.zero_rat, add_zero]
  rw [Placement.left_child, hright, add_zero, hleft]

variable {A : Type} {row : TableRow A} {boxes : List (Box Rat)} {strutHeight strutDepth : Rat}

theorem fitsColumns_row (hfits : ∀ j b, boxes[j]? = some b → b.width ≤ g.width j) :
    FitsColumns g 0 ((row.cells.map Cell.color).zip boxes) := by
  intro i c hc
  rw [Nat.zero_add]
  exact hfits i c.2 (List.getElem?_zip_eq_some.mp hc).2

theorem length_row (hcells : row.cells.length = g.widths.length)
    (hboxes : boxes.length = g.widths.length) :
    0 + ((row.cells.map Cell.color).zip boxes).length = g.widths.length := by
  simp [hcells, hboxes]

/-- A row is as wide as the table. -/
theorem width_gridRowBox (hfits : ∀ j b, boxes[j]? = some b → b.width ≤ g.width j)
    (hpos : 0 < g.widths.length) (hcells : row.cells.length = g.widths.length)
    (hboxes : boxes.length = g.widths.length) :
    (gridRowBox f g strutHeight strutDepth row boxes).width = g.totalWidth := by
  have hsum := sum_cellBoxes f (Scalar.largest strutHeight (boxes.map Box.height))
    (Scalar.largest strutDepth (boxes.map Box.depth)) (fitsColumns_row hfits)
    (length_row hcells hboxes)
  rw [gridRowBox, width_overColor, g.totalWidth_eq_columnStart hpos, ← hsum]
  simp [hbox, unshifted, Scalar.sum_rat, Grid.boundaryStart]

/-- The cell of every box of a row, and how wide the row is before it. -/
theorem exists_rowBoxes_eq (f : ColumnFormat) (height depth : Rat)
    (hfits : ∀ j b, boxes[j]? = some b → b.width ≤ g.width j)
    (hcells : row.cells.length = g.widths.length) (hboxes : boxes.length = g.widths.length)
    {j : Nat} {b : Box Rat} (hb : boxes[j]? = some b) :
    ∃ color before after, cellBoxes f g height depth 0 ((row.cells.map Cell.color).zip boxes) =
        before ++ kern (g.gapAfter j) :: cellBox f g height depth j color b ::
          kern (g.gapBefore (j + 1)) :: after ∧
      (before.map Box.width).sum = g.gapLeft j := by
  have hj : j < row.cells.length := by
    rw [hcells, ← hboxes]
    exact (List.getElem?_eq_some_iff.mp hb).1
  have hcell : ((row.cells.map Cell.color).zip boxes)[j]? = some (row.cells[j].color, b) := by
    simp [List.getElem?_zip_eq_some, hb, hj]
  obtain ⟨before, after, heq, hsum⟩ := exists_cellBoxes_eq f height depth (fitsColumns_row hfits)
    (length_row hcells hboxes) hcell
  rw [Nat.zero_add] at heq hsum
  exact ⟨_, before, after, heq, by simpa [Grid.boundaryStart] using hsum⟩

/-- A row sets every box in its column. -/
theorem setsColumn_gridRowBox (hline : line ∈ tree.placements)
    (hbox : line.box = gridRowBox f g strutHeight strutDepth row boxes)
    (hfits : ∀ j b, boxes[j]? = some b → b.width ≤ g.width j)
    (hcells : row.cells.length = g.widths.length) (hboxes : boxes.length = g.widths.length)
    {j : Nat} {b : Box Rat} (hb : boxes[j]? = some b) : g.SetsColumn j b tree line := by
  obtain ⟨inner, hinner, hpath, hcontent, hleft⟩ := exists_place_overColor hline hbox
  obtain ⟨color, before, after, heq, hsum⟩ := exists_rowBoxes_eq f
    (Scalar.largest strutHeight (boxes.map Box.height))
    (Scalar.largest strutDepth (boxes.map Box.depth)) hfits hcells hboxes hb
  generalize hc : cellBox f g _ _ j color b = cell at heq
  have hwidth : cell.width = g.width j := by
    rw [← hc, width_cellBox f _ _ _ (hfits j b hb)]
  have hrow : inner.box.content =
      .hbox (before ++ kern (g.gapAfter j) :: cell :: kern (g.gapBefore (j + 1)) :: after) := by
    rw [hcontent, ← heq]
    rfl
  have hchildren : inner.box.children =
      before ++ kern (g.gapAfter j) :: cell :: kern (g.gapBefore (j + 1)) :: after := by
    rw [children, hrow]
    rfl
  have hgap : inner.box.childRight before.length = g.gapLeft j := by
    rw [childRight_append before hrow, hsum]
  have hstart : inner.box.childRight (before.length + 1) = g.columnStart j := by
    rw [childRight_succ before hrow, hgap, Grid.gapLeft, width_kern, sub_add_cancel]
  have hend : inner.box.childRight (before.length + 2) = g.columnStart j + g.width j := by
    have happend : inner.box.content = .hbox
        ((before ++ [kern (g.gapAfter j)]) ++ cell :: kern (g.gapBefore (j + 1)) :: after) := by
      simp [hrow]
    have hnext := childRight_succ _ happend
    rwa [List.length_append, List.length_singleton, hstart, hwidth] at hnext
  have hchild : inner.box.children[before.length + 1]? = some cell := by simp [hchildren]
  have hinside : inner.child (before.length + 1) cell ∈ tree.placements :=
    child_mem_placementsIn hinner hchild
  have hcellLeft (x : Rat) :
      (inner.child (before.length + 1) cell).left x = line.left x + g.columnStart j := by
    rw [Placement.left_child, hstart, hleft]
  obtain ⟨content, hmem, align, hcontentPath, hcontentBox, hcontentLeft⟩ :=
    exists_place_cellBox hinside (h := hc.symm)
  refine ⟨inner, hinner, before.length, cell, hpath, by simp [hchildren], hchild,
    by simp [hchildren], hwidth, ⟨content, hmem, align, hcontentPath, hcontentBox, ?_, ?_⟩, ?_⟩
  · rw [hcontentBox, width_aligned (hfits j b hb)]
  · intro x
    rw [hcontentLeft, hcellLeft]
  · intro x
    refine ⟨?_, hcellLeft x, ?_⟩
    · rw [Placement.left_child, hgap, hleft]
    · rw [Placement.right, Placement.left_child, Placement.box_child, width_kern, hend, hleft,
        Grid.gapRight, add_assoc]

/-- The box of a rule is as wide as the table. -/
theorem width_ruleBox (g : Grid Rat) (first last : Nat) :
    (g.ruleBox (some (first, last))).width = g.totalWidth := by
  simp only [Grid.ruleBox, Box.hbox, unshifted, rule, Scalar.sum_rat, List.map_cons, List.map_nil,
    List.sum_cons, List.sum_nil, width_kern]
  ring

/-- The box of a rule draws it over its columns. -/
theorem drawsRule_ruleBox (hline : line ∈ tree.placements) {first last : Nat}
    (hbox : line.box = g.ruleBox (some (first, last))) : g.DrawsRule first last tree line := by
  let all := first = 0 ∧ last + 1 = g.widths.length
  let start : Rat := if all then 0.0 else g.gapLeft first
  let stop := if all then g.totalWidth else g.gapRight last
  let bar := rule (stop - start) g.thickness 0.0
  have hcontent : line.box.content = .hbox [kern start, bar, kern (g.totalWidth - stop)] := by
    rw [hbox]
    rfl
  have hbar : line.box.children[1]? = some bar := by
    rw [children, hcontent]
    rfl
  have hright : line.box.childRight 1 = start := by
    have hsum := childRight_append [kern start] hcontent
    rwa [List.map_singleton, List.sum_singleton, width_kern] at hsum
  refine ⟨line.child 1 bar, child_mem_placementsIn hline hbar, line.path_prefix_child .., rfl,
    fun x => ?_⟩
  have hleft : (line.child 1 bar).left x = line.left x + start := by
    rw [Placement.left_child, hright]
  have hend : (line.child 1 bar).right x = line.left x + stop := by
    rw [Placement.right, hleft, Placement.box_child, show bar.width = stop - start from rfl]
    ring
  by_cases hall : all
  · rw [if_pos hall, hleft, hend]
    simp only [start, stop, if_pos hall, Scalar.zero_rat, add_zero, and_self]
  · rw [if_neg hall, hleft, hend]
    simp only [start, stop, if_neg hall, and_self]

end Lines

/-! ## Tables -/

/-- What is centred on the axis is in the tree. -/
theorem exists_place_centeredOnAxis {tree : Box Rat} {m : Placement} (hm : m ∈ tree.placements)
    {b : Box Rat} {env : Environment Rat} (h : m.box = centeredOnAxis b env) :
    ∃ p ∈ tree.placements, p.box.content = b.content := by
  have hchild : ∃ c, m.box.children[0]? = some c ∧ c.content = b.content := by
    rw [h]
    exact ⟨_, rfl, rfl⟩
  obtain ⟨c, hc, hcontent⟩ := hchild
  exact ⟨m.child 0 c, child_mem_placementsIn hm hc, hcontent⟩

/-- A column is at least as wide as each of its cells. -/
theorem width_le_gridOf (f : ColumnFormat) (o : TableOptions) (env : Environment Rat)
    {columns : Nat} {cells : List (List (Box Rat))} {boxes : List (Box Rat)}
    (hboxes : boxes ∈ cells) {j : Nat} (hj : j < columns) {b : Box Rat} (hb : boxes[j]? = some b) :
    b.width ≤ (gridOf f o env columns cells).width j := by
  have hwidth : (gridOf f o env columns cells).width j = naturalWidth f env.em cells j := by
    simp [Grid.width, gridOf, hj]
  have hnatural : b.width ≤
      Scalar.largest 0.0 (cells.map fun row => (row[j]?.map Box.width).getD 0.0) :=
    Scalar.le_largest_of_mem (List.mem_map.mpr ⟨boxes, hboxes, by rw [hb]; rfl⟩)
  rw [hwidth, naturalWidth]
  cases (f.column j).width with
  | none => exact hnatural
  | some fixed =>
    simp only [Scalar.larger_rat]
    exact hnatural.trans (le_max_left _ _)

namespace Table

/-- The lines of a table from the top: of every row the rules above it, the row itself and the gap
below it, and then the rules below the last row. -/
def lines {A : Type} (t : Table A) (o : TableOptions) (env : Environment Rat)
    (cells : List (List (Box Rat))) : List (Box Rat) :=
  let em := (env.withStyle o.style).em
  let g := gridOf t.format o (env.withStyle o.style) t.columnCount cells
  let ruleLine (r : HRule) := g.ruleBox (r.span t.columnCount)
  let rowLine (row : TableRow A) (boxes : List (Box Rat)) :=
    gridRowBox t.format g (0.84 * o.rowStretch.value * em) (0.36 * o.rowStretch.value * em) row
      boxes
  ((t.rows.zip cells).flatMap fun line =>
    line.1.rules.map ruleLine ++ rowLine line.1 line.2 ::
      line.1.gap.toList.map fun gap => .vkern (gap.points em)) ++ t.trailing.map ruleLine

/-- Every rule of a table is one of its lines. -/
theorem ruleBox_mem_lines {A : Type} {t : Table A} (o : TableOptions) (env : Environment Rat)
    {cells : List (List (Box Rat))} (hcells : t.rows.length ≤ cells.length) {r : HRule}
    (hr : r ∈ t.rows.flatMap TableRow.rules ++ t.trailing) :
    (gridOf t.format o (env.withStyle o.style) t.columnCount cells).ruleBox (r.span t.columnCount) ∈
      t.lines o env cells := by
  rcases List.mem_append.mp hr with hr | hr
  · obtain ⟨row, hrow, hr⟩ := List.mem_flatMap.mp hr
    rw [← List.map_fst_zip hcells] at hrow
    obtain ⟨line, hline, rfl⟩ := List.mem_map.mp hrow
    exact List.mem_append_left _
      (List.mem_flatMap.mpr ⟨line, hline, List.mem_append_left _ (List.mem_map_of_mem hr)⟩)
  · exact List.mem_append_right _ (List.mem_map_of_mem hr)

/-- The lines of a table stand below each other in its box. -/
theorem exists_place_lines {A : Type} (t : Table A) (o : TableOptions) (env : Environment Rat)
    (cells : List (List (Box Rat))) :
    let tree := gridBox t o env t.columnCount cells
    ∃ body ∈ tree.placements, ∃ baseline,
      body.box.content = .vbox (t.lines o env cells) baseline := by
  intro tree
  by_cases hfence : o.isFenced
  · have hchild : ∃ c baseline, tree.children[1]? = some c ∧
        c = centeredOnAxis (.vbox (t.lines o env cells) baseline) env := by
      simp only [tree, gridBox, if_pos hfence, lines, List.flatMap_def]
      exact ⟨_, _, rfl, rfl⟩
    obtain ⟨c, baseline, hc, hbox⟩ := hchild
    have hinside := child_mem_placementsIn tree.root_mem_placements hc
    obtain ⟨body, hbody, hcontent⟩ := exists_place_centeredOnAxis hinside hbox
    exact ⟨body, hbody, baseline, hcontent⟩
  · have hbox : ∃ baseline, tree = centeredOnAxis (.vbox (t.lines o env cells) baseline) env := by
      simp only [tree, gridBox, if_neg hfence, lines, List.flatMap_def]
      exact ⟨_, rfl⟩
    obtain ⟨baseline, hbox⟩ := hbox
    obtain ⟨body, hbody, hcontent⟩ := exists_place_centeredOnAxis tree.root_mem_placements hbox
    exact ⟨body, hbody, baseline, hcontent⟩

/-- **The lines of a table keep to its grid.** A checked table with rows and columns has, with exact
lengths, a box in every environment, and in it its rows, rules and gaps stand below each other and
start at one left edge. Every row is as wide as the grid, has a box for every column that is no
wider than the column, and sets that box in the column. Every rule that covers columns, above a row
or below the last one, is such a line: it is as wide as the grid and drawn over its columns. -/
theorem stands_on_grid {t : Table Atom} (ht : t.IsChecked) (hrows : 0 < t.rows.length)
    (hcolumns : 0 < t.columnCount) (o : TableOptions) (env : Environment Rat) :
    let inner := env.withStyle o.style
    let cells := Atom.layoutRows t.rows inner
    let g := gridOf t.format o inner t.columnCount cells
    ∃ tree, t.layout o env = .ok tree ∧ ∃ body ∈ tree.placements,
      body.box.children = t.lines o env cells ∧
      (∀ i line, body.box.children[i]? = some line →
        body.child i line ∈ tree.placements ∧ (∀ x, (body.child i line).left x = body.left x) ∧
        (∀ row boxes strutHeight strutDepth, (row, boxes) ∈ t.rows.zip cells →
          line = gridRowBox t.format g strutHeight strutDepth row boxes →
          line.width = g.totalWidth ∧ boxes.length = t.columnCount ∧
          ∀ j b, boxes[j]? = some b →
            b.width ≤ g.width j ∧ g.SetsColumn j b tree (body.child i line)) ∧
        ∀ (r : HRule) (first last : Nat), r.span t.columnCount = some (first, last) →
          line = g.ruleBox (r.span t.columnCount) →
          line.width = g.totalWidth ∧ g.DrawsRule first last tree (body.child i line)) ∧
      ∀ r ∈ t.rows.flatMap TableRow.rules ++ t.trailing, ∀ (first last : Nat),
        r.span t.columnCount = some (first, last) →
        ∃ i line, body.box.children[i]? = some line ∧
          line = g.ruleBox (r.span t.columnCount) ∧ line.width = g.totalWidth ∧
          g.DrawsRule first last tree (body.child i line) := by
  intro inner cells g
  have hlength : g.widths.length = t.columnCount := by simp [g, gridOf]
  obtain ⟨body, hbody, baseline, hcontent⟩ := exists_place_lines t o env cells
  have hchildren : body.box.children = t.lines o env cells := by
    rw [Box.children, hcontent]
    rfl
  have hruleLine {i : Nat} {line : Box Rat} (hi : body.box.children[i]? = some line)
      {span : Option (Nat × Nat)} {first last : Nat} (hspan : span = some (first, last))
      (hbox : line = g.ruleBox span) :
      line.width = g.totalWidth ∧
        g.DrawsRule first last (gridBox t o env t.columnCount cells) (body.child i line) := by
    rw [hspan] at hbox
    exact ⟨by rw [hbox, width_ruleBox], drawsRule_ruleBox (child_mem_placementsIn hbody hi) hbox⟩
  refine ⟨gridBox t o env t.columnCount cells, ?_, body, hbody, hchildren, fun i line hi => ?_,
    fun r hr first last hspan => ?_⟩
  · rw [layout, ht.tableBox_eq hrows hcolumns, ht.layoutColumns_eq]
  · have hline := child_mem_placementsIn hbody hi
    refine ⟨hline, fun x => ?_, fun row boxes strutHeight strutDepth hrow hbox => ?_,
      fun r first last hspan hbox => hruleLine hi hspan hbox⟩
    · rw [Placement.left_child, Box.childRight, hcontent]
      exact add_zero _
    · have hcells : row.cells.length = t.columnCount := ht row (List.of_mem_zip hrow).1
      have hboxes : boxes.length = t.columnCount :=
        (List.forall₂_zip (Atom.forall₂_layoutRows t.rows inner) hrow).symm.trans hcells
      have hfits (j : Nat) (b : Box Rat) (hb : boxes[j]? = some b) : b.width ≤ g.width j :=
        width_le_gridOf t.format o inner (List.of_mem_zip hrow).2
          (hboxes ▸ (List.getElem?_eq_some_iff.mp hb).1) hb
      refine ⟨?_, hboxes, fun j b hb => ⟨hfits j b hb, ?_⟩⟩
      · rw [hbox, width_gridRowBox hfits (hlength ▸ hcolumns) (hcells.trans hlength.symm)
          (hboxes.trans hlength.symm)]
      · exact setsColumn_gridRowBox hline hbox hfits (hcells.trans hlength.symm)
          (hboxes.trans hlength.symm) hb
  · have hcells : t.rows.length ≤ cells.length :=
      (Atom.forall₂_layoutRows t.rows inner).length_eq.le
    have hmem : g.ruleBox (r.span t.columnCount) ∈ body.box.children :=
      hchildren ▸ ruleBox_mem_lines o env hcells hr
    obtain ⟨i, hi⟩ := List.getElem?_of_mem hmem
    exact ⟨i, _, hi, rfl, hruleLine hi hspan rfl⟩

/-- Columns of an `x` and an `m` in ten points with two rules between them, a rule above the row,
and below it and a gap a rule over the second column. The first rule is as wide as the table, the
last one starts and ends five points beside the column. -/
theorem stands_on_grid_double_rule :
    let t : Table Atom :=
      { format :=
          { columns := [{ align := .left }, { align := .right }]
            boundaries := [{}, { rules := 2 }, {}]
            pattern := [] }
        rows :=
          [{ cells := [{ content := .ofChar 'x' }, { content := .ofChar 'm' }]
             rules := [.full]
             gap := some ⟨.ofNat 1, .em⟩ }]
        trailing := [.columns 2 2] }
    let env : Environment Rat := { style := .text, size := 10 }
    t.IsChecked ∧ 0 < t.rows.length ∧ 0 < t.columnCount ∧
      ∃ tree, t.layout {} env = .ok tree ∧
        ∃ content ∈ tree.placements, ∃ top ∈ tree.placements, ∃ bar ∈ tree.placements,
          content.box.width = 8.78 ∧ top.box.content = .rule ∧ bar.box.content = .rule ∧
          ∀ x, top.left x = content.left x - 23.52 ∧ top.right x = content.right x + 5 ∧
            bar.left x = content.left x - 5 ∧ bar.right x = content.right x + 5 := by
  intro t env
  have ht : t.IsChecked := by decide
  have hrows : 0 < t.rows.length := by decide
  have hcolumns : 0 < t.columnCount := by decide
  obtain ⟨tree, htree, body, hbody, hchildren, hlines, hrules⟩ :=
    stands_on_grid ht hrows hcolumns {} env
  let x := (Atom.ofChar 'x').layout (env.withStyle .text)
  let m := (Atom.ofChar 'm').layout (env.withStyle .text)
  let g := gridOf t.format {} (env.withStyle .text) t.columnCount [[x, m]]
  have hstart : g.columnStart 1 = 23.52 := by decide +kernel
  have htotal : g.totalWidth = 23.52 + 8.78 + 5 := by decide +kernel
  have hbefore : g.gapLeft 1 = 23.52 - 5 := by decide +kernel
  have hafter : g.gapRight 1 = 23.52 + 8.78 + 5 := by decide +kernel
  have hcells : Atom.layoutRows t.rows (env.withStyle .text) = [[x, m]] := by
    simp [t, x, m, Atom.layoutRows, Atom.layoutCells]
  rw [hcells] at hchildren hlines hrules
  obtain ⟨-, hrowLeft, hrow, -⟩ := hlines 1 _ (by rw [hchildren]; rfl)
  obtain ⟨-, -, hset⟩ := hrow _ [x, m] _ _ (by exact List.mem_cons_self) rfl
  obtain ⟨-, row, -, i, cell, -, -, -, -, -, ⟨content, hcontent, align, -, -, hwidth, hleft⟩, -⟩ :=
    hset 1 m rfl
  have hwide : content.box.width = 8.78 := by
    rw [hwidth]
    decide +kernel
  have hcontentLeft (pen : Rat) : content.left pen = body.left pen + 23.52 := by
    rw [hleft, hrowLeft]
    exact congrArg _ hstart
  obtain ⟨j, _, hj, -, -, top, htop, -, htopInk, htopPlace⟩ :=
    hrules .full (by decide) 0 1 (by decide)
  obtain ⟨k, _, hk, -, -, bar, hbar, -, hbarInk, hbarPlace⟩ :=
    hrules (.columns 2 2) (by decide) 1 1 (by decide)
  refine ⟨ht, hrows, hcolumns, tree, htree, content, hcontent, top, htop, bar, hbar, hwide, htopInk,
    hbarInk, fun pen => ?_⟩
  have htopEnds := htopPlace pen
  have hbarEnds := hbarPlace pen
  rw [if_pos (by decide), (hlines j _ hj).2.1, htotal] at htopEnds
  rw [if_neg (by simp), (hlines k _ hk).2.1, hbefore, hafter] at hbarEnds
  rw [htopEnds.1, htopEnds.2, hbarEnds.1, hbarEnds.2, Placement.right, hcontentLeft, hwide]
  refine ⟨?_, ?_, ?_, ?_⟩ <;> ring

end Table

end Typeset
