import Typeset.Color.Basic
import Typeset.Style
import Typeset.Symbol
import Typeset.Table.Format
import Typeset.Table.Rule

/-!
# Tables

Finished tables, over any type of cell contents.

* `Table`: rows of cells with the rules above them, and the rules below the last row.
* `Table.columnCount`: the columns of the format, or those of the longest row.
* `TableOptions`: how a table is presented.
-/

namespace Typeset

/-- A cell of a table. -/
structure Cell (A : Type) where
  content : A
  color : Option Color := none

/-- A row of a table. -/
structure TableRow (A : Type) where
  cells : List (Cell A)
  /-- The rules above the row, from the top. -/
  rules : List HRule := []
  color : Option Color := none
  /-- Extra space below the row. -/
  gap : Option Length := none

/-- A table of finished rows. -/
structure Table (A : Type) where
  format : ColumnFormat
  rows : List (TableRow A)
  /-- The rules below the last row, from the top. -/
  trailing : List HRule := []

namespace Table

variable {A : Type}

/-- The number of cells in the longest row. -/
def longest (rows : List (TableRow A)) : Nat := rows.foldl (fun n r => max n r.cells.length) 0

/-- The number of columns: that of the format, else that of the longest row. -/
def columnCount (t : Table A) : Nat := t.format.declared.getD (longest t.rows)

/-- Every row has a cell in every column. -/
def IsChecked (t : Table A) : Prop := ∀ r ∈ t.rows, r.cells.length = t.columnCount

/-- The contents of the cells, row by row. -/
def contents (t : Table A) : List A := t.rows.flatMap fun r => r.cells.map Cell.content

end Table

/-- Row number `row` has `cells` cells in a table of `columns` columns. -/
structure DimensionError where
  row : Nat
  cells : Nat
  columns : Nat
  deriving DecidableEq, Repr

/-- The presentation of a table. -/
structure TableOptions where
  /-- The style of the cells. -/
  style : Style := .text
  /-- Space between columns, in em. -/
  columnGap : Numeral := .ofDecimal 1 0
  /-- Half of it stands outside the first and the last column. -/
  outerGap : Bool := true
  /-- Columns come in pairs with no space inside a pair. -/
  paired : Bool := false
  /-- The least height and depth of a row are multiplied by this. -/
  rowStretch : Numeral := .ofDecimal 1 0
  left : Delimiter := none
  right : Delimiter := none
  deriving DecidableEq, Repr

/-- The table stands between delimiters. -/
def TableOptions.isFenced (o : TableOptions) : Bool := o.left.isSome || o.right.isSome

end Typeset
