import Typeset.Layout.Formula
import Typeset.Table.Basic

/-!
# Grids

The box of a table from the boxes of its cells.

* `Grid`: the widths of the columns and what stands between them, the same for every row.
* `Grid.columnStart`, `Grid.totalWidth`: where columns start and the table ends.
* `gridBox`: rows, rules and gaps below each other, centred on the axis, between delimiters.
* `tableBox`: the same of a table that has a cell in every column, an error of any other.
-/

namespace Typeset

variable {α : Type} [Scalar α]

/-- The horizontal measures of a table. Boundary number `j` stands to the left of column `j`. -/
structure Grid (α : Type) where
  widths : List α
  /-- The space before and after the rules of each boundary. -/
  gaps : List (α × α)
  /-- The number of rules of each boundary. -/
  rules : List Nat
  /-- Thickness of rules. -/
  thickness : α
  /-- Space between rules of one boundary. -/
  ruleSep : α

namespace Grid

/-- Space before the rules of a boundary. -/
def gapBefore (g : Grid α) (j : Nat) : α := (g.gaps[j]?.map Prod.fst).getD 0.0

/-- Space after the rules of a boundary. -/
def gapAfter (g : Grid α) (j : Nat) : α := (g.gaps[j]?.map Prod.snd).getD 0.0

/-- The number of rules of a boundary. -/
def ruleCount (g : Grid α) (j : Nat) : Nat := g.rules[j]?.getD 0

/-- Width of a column. -/
def width (g : Grid α) (j : Nat) : α := g.widths[j]?.getD 0.0

/-- Width of a boundary. -/
def boundaryWidth (g : Grid α) (j : Nat) : α :=
  g.gapBefore j + g.gapAfter j + Scalar.ofNat (g.ruleCount j) * g.thickness +
    Scalar.ofNat (g.ruleCount j - 1) * g.ruleSep

/-- The boxes of a boundary in a row of the given height and depth. -/
def boundary (g : Grid α) (j : Nat) (height depth : α) : List (Box α) :=
  let rule := Box.rule g.thickness height depth
  .kern (g.gapBefore j) ::
    ((List.replicate (g.ruleCount j) rule).intersperse (.kern g.ruleSep) ++ [.kern (g.gapAfter j)])

/-- Left edge of a column. -/
def columnStart (g : Grid α) (c : Nat) : α :=
  Scalar.sum ((List.range (c + 1)).map g.boundaryWidth) + Scalar.sum (g.widths.take c)

/-- Width of the table. -/
def totalWidth (g : Grid α) : α :=
  let n := g.widths.length
  g.columnStart (n - 1) + g.widths.getLast?.getD 0.0 + g.boundaryWidth n

/-- A horizontal rule over a range of columns. A rule over all columns covers the whole width; any
other reaches over the space beside its columns. -/
def ruleBox (g : Grid α) (span : Option (Nat × Nat)) : Box α :=
  match span with
  | none => .empty
  | some (first, last) =>
    let total := g.totalWidth
    let all := first = 0 ∧ last + 1 = g.widths.length
    let left := if all then 0.0 else g.columnStart first - g.gapAfter first
    let right := if all then total else g.columnStart last + g.width last + g.gapBefore (last + 1)
    .hbox [.kern left, .rule (right - left) g.thickness 0.0, .kern (total - right)]

end Grid

/-- Space before and after the rules of boundary number `j` in a table of `columns` columns. -/
def boundaryGap (f : ColumnFormat) (o : TableOptions) (em : α) (columns j : Nat) : α × α :=
  let half := o.columnGap.value * em / 2.0
  let outer := if o.outerGap then half else 0.0
  if (f.boundary j).tight then (0.0, 0.0)
  else if j = 0 then (0.0, outer)
  else if j = columns then (outer, 0.0)
  else if o.paired ∧ j % 2 = 1 then (0.0, 0.0)
  else (half, half)

/-- Width of column number `j`: that of its widest cell, or more if the format asks for it. -/
def naturalWidth (f : ColumnFormat) (em : α) (cells : List (List (Box α))) (j : Nat) : α :=
  let natural := Scalar.largest 0.0 (cells.map fun row => (row[j]?.map Box.width).getD 0.0)
  match (f.column j).width with
  | none => natural
  | some fixed => Scalar.larger natural (fixed.points em)

/-- The grid of a table in the environment of its cells. -/
def gridOf (f : ColumnFormat) (o : TableOptions) (env : Environment α) (columns : Nat)
    (cells : List (List (Box α))) : Grid α :=
  let boundaries := List.range (columns + 1)
  { widths := (List.range columns).map (naturalWidth f env.em cells)
    gaps := boundaries.map (boundaryGap f o env.em columns)
    rules := boundaries.map fun j => (f.boundary j).rules
    thickness := env.ruleThickness
    ruleSep := 0.2 * env.em }

/-- A box over a background, if there is one. -/
def overColor (bg : Option Color) (b : Box α) : Box α :=
  match bg with
  | none => b
  | some c => b.colored none (some c)

/-- A cell in its column, as high and deep as its row. A column with a width of its own sets its
cells to the left. -/
def cellBox (f : ColumnFormat) (g : Grid α) (height depth : α) (j : Nat) (color : Option Color)
    (b : Box α) : Box α :=
  let spec := f.column j
  let align := if spec.width.isSome then .left else spec.align
  overColor color (.hbox [.strut 0.0 height depth, b.aligned (g.width j) align])

/-- Cells from column `j` on, each after its boundary, and the boundary at the end of the row. -/
def cellBoxes (f : ColumnFormat) (g : Grid α) (height depth : α) :
    Nat → List (Option Color × Box α) → List (Box α)
  | j, [] => g.boundary j height depth
  | j, (color, b) :: cells =>
    g.boundary j height depth ++ cellBox f g height depth j color b ::
      cellBoxes f g height depth (j + 1) cells

/-- The box of a row. It is at least as high and as deep as the strut. -/
def gridRowBox {A : Type} (f : ColumnFormat) (g : Grid α) (strutHeight strutDepth : α)
    (row : TableRow A) (boxes : List (Box α)) : Box α :=
  let height := Scalar.largest strutHeight (boxes.map Box.height)
  let depth := Scalar.largest strutDepth (boxes.map Box.depth)
  let cells := (row.cells.map Cell.color).zip boxes
  overColor row.color (.hbox (cellBoxes f g height depth 0 cells))

/-- A row with the rules above it and the gap below it. -/
def gridRowBoxes {A : Type} (f : ColumnFormat) (g : Grid α) (em strutHeight strutDepth : α)
    (columns : Nat) (row : TableRow A) (boxes : List (Box α)) : List (Box α) :=
  row.rules.map (fun r => g.ruleBox (r.span columns)) ++
    gridRowBox f g strutHeight strutDepth row boxes ::
    row.gap.toList.map fun gap => .vkern (gap.points em)

/-- The box of a table of `columns` columns from the boxes of its cells. Its baseline is that of
the last row before it is centred. -/
def gridBox {A : Type} (t : Table A) (o : TableOptions) (env : Environment α) (columns : Nat)
    (cells : List (List (Box α))) : Box α :=
  let cellEnv := env.withStyle o.style
  let em := cellEnv.em
  let g := gridOf t.format o cellEnv columns cells
  let strutHeight := 0.84 * o.rowStretch.value * em
  let strutDepth := 0.36 * o.rowStretch.value * em
  let rows := (t.rows.zip cells).map fun (row, boxes) =>
    gridRowBoxes t.format g em strutHeight strutDepth columns row boxes
  let stacked := rows.flatten
  let afterLast := (t.rows.getLast?.bind TableRow.gap).toList.length
  let trailing := t.trailing.map fun r => g.ruleBox (r.span columns)
  let body := Box.vbox (stacked ++ trailing) (stacked.length - 1 - afterLast)
  let centered := centeredOnAxis body env
  if o.isFenced then
    let target := fenceSize centered.height centered.depth env
    .hbox [delimiterBox o.left target env, centered, delimiterBox o.right target env]
  else
    centered

/-- The first row, from number `index` on, that has not `columns` cells. -/
def firstUneven {A : Type} (columns : Nat) : Nat → List (TableRow A) → Option DimensionError
  | _, [] => none
  | index, r :: rows =>
    if r.cells.length = columns then firstUneven columns (index + 1) rows
    else some { row := index, cells := r.cells.length, columns }

/-- The number of columns that a table is laid out in: that of the format, else of the first
row. -/
def layoutColumns {A : Type} (t : Table A) : Nat :=
  t.format.declared.getD ((t.rows.head?.map fun r => r.cells.length).getD 0)

/-- The box of a table from the boxes of its cells. A table without rows or columns is nothing; a
row without a cell in every column is an error. -/
def tableBox {A : Type} (t : Table A) (o : TableOptions) (env : Environment α)
    (cells : List (List (Box α))) : Except DimensionError (Box α) :=
  let columns := layoutColumns t
  match firstUneven columns 0 t.rows with
  | some error => .error error
  | none =>
    if t.rows.isEmpty ∨ columns = 0 then .ok .empty else .ok (gridBox t o env columns cells)

end Typeset
