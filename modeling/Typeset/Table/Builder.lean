import Typeset.Atom

/-!
# Building tables

A table takes shape while its atoms, column separators and row separators arrive.

* `TableBuilder.addAtom`: an atom joins the current cell; a rule or a color goes to the row or cell
  it belongs to.
* `TableBuilder.addColumn`, `TableBuilder.addRow`: the separators.
* `TableBuilder.check`: closes the last row and pads every row to the column count.
* `TableKind.finish`: the atom of the environment.
-/

namespace Typeset

/-- A table under construction. -/
structure TableBuilder where
  /-- The rows that are closed. -/
  table : Table Atom
  /-- The row being filled, with its closed cells. -/
  row : TableRow Atom := { cells := [] }
  /-- The atoms of the cell being filled. -/
  cell : List Atom := []
  cellColor : Option Color := none
  /-- Rules given after the current row had content; they belong above the next row. -/
  pending : List HRule := []

namespace TableBuilder

/-- The empty table of a format. -/
def start (format : ColumnFormat) : TableBuilder := { table := { format, rows := [] } }

/-- A table of closed rows with one atom in each cell. -/
def ofRows (format : ColumnFormat) (rows : List (List Atom)) : TableBuilder :=
  let row (cells : List Atom) : TableRow Atom := { cells := cells.map fun a => { content := a } }
  { table := { format, rows := rows.map row } }

/-- The current row has neither a closed cell nor an atom. -/
def isFresh (b : TableBuilder) : Bool := b.row.cells.isEmpty && b.cell.isEmpty

/-- A rule joins the current row while that is fresh, and else the next one. -/
def addRule (b : TableBuilder) (r : HRule) : TableBuilder :=
  if b.isFresh then { b with row := { b.row with rules := b.row.rules ++ [r] } }
  else { b with pending := b.pending ++ [r] }

/-- An atom joins the current cell; markers are applied. -/
def addAtom (b : TableBuilder) : Atom → TableBuilder
  | .hrule r => b.addRule r
  | .cellColor c => { b with cellColor := some c }
  | .rowColor c => { b with row := { b.row with color := some c } }
  | a => { b with cell := b.cell ++ [a] }

/-- The current cell is closed. -/
def addColumn (b : TableBuilder) : TableBuilder :=
  { b with
    row := { b.row with cells := b.row.cells ++ [{ content := .row b.cell, color := b.cellColor }] }
    cell := []
    cellColor := none }

/-- The current row is closed, with extra space below it. -/
def addRow (b : TableBuilder) (gap : Option Length) : TableBuilder :=
  let b := b.addColumn
  { b with
    table := { b.table with rows := b.table.rows ++ [{ b.row with gap }] }
    row := { cells := [], rules := b.pending }
    pending := [] }

/-- The number of columns of the closed rows. -/
def columnCount (b : TableBuilder) : Nat := b.table.columnCount

/-- The last row is closed. A row without cells, atoms and color is none: its rules stand below
the table. -/
def close (b : TableBuilder) : TableBuilder :=
  if b.isFresh && b.row.color.isNone then
    { b with
      table := { b.table with trailing := b.table.trailing ++ b.row.rules ++ b.pending }
      row := { cells := [] }
      pending := [] }
  else
    let c := b.addColumn
    { c with
      table := { c.table with
        rows := c.table.rows ++ [c.row]
        trailing := c.table.trailing ++ c.pending }
      row := { cells := [] }
      pending := [] }

/-- A cell with nothing in it. -/
def emptyCell : Cell Atom := { content := .row [] }

/-- The row with empty cells on the right, up to `columns` cells. -/
def padRow (columns : Nat) (r : TableRow Atom) : TableRow Atom :=
  { r with cells := r.cells ++ List.replicate (columns - r.cells.length) emptyCell }

/-- The rows padded to `columns` cells, up to the first one that has more. -/
def padRows (columns : Nat) :
    Nat → List (TableRow Atom) → List (TableRow Atom) × Option DimensionError
  | _, [] => ([], none)
  | index, r :: rows =>
    if columns < r.cells.length then
      (r :: rows, some { row := index, cells := r.cells.length, columns })
    else
      let (padded, error) := padRows columns (index + 1) rows
      (padRow columns r :: padded, error)

/-- The last row is closed and every row padded to the column count. The first row with more
cells is an error. -/
def check (b : TableBuilder) : TableBuilder × Option DimensionError :=
  let b := b.close
  let (rows, error) := padRows b.columnCount 0 b.table.rows
  ({ b with table := { b.table with rows } }, error)

/-- The checked table. -/
def checked (b : TableBuilder) : Except DimensionError (Table Atom) :=
  match b.check with
  | (_, some error) => .error error
  | (b, none) => .ok b.table

end TableBuilder

namespace TableKind

/-- The right-hand side of a pair starts after an invisible ordinary atom, so that a relation at
its start is spaced as one. -/
def startOrdinary (c : Cell Atom) : Cell Atom :=
  match c.content with
  | .row (a :: atoms) => { c with content := .row (.row [] :: a :: atoms) }
  | _ => c

/-- Every second cell changed by `f`. -/
def mapSecond {A : Type} (f : A → A) : List A → List A
  | a :: b :: rest => a :: f b :: mapSecond f rest
  | rest => rest

/-- The atom of an environment with the given body. -/
def finish (k : TableKind) (b : TableBuilder) : Except DimensionError Atom := do
  let t ← b.checked
  match k with
  | lines align =>
    return .lines (t.rows.map fun r => Atom.ofList (r.cells.map Cell.content)) align
  | aligned =>
    let rows := t.rows.map fun r => { r with cells := mapSecond startOrdinary r.cells }
    return .array { t with rows } k.options
  | array | matrix _ _ | smallMatrix | cases | gathered => return .array t k.options

end TableKind

end Typeset
