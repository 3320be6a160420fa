import Typeset.Table.Basic

/-!
# Kinds of tables

The environments that hold a table, and what each asks of its columns and its presentation.
-/

namespace Typeset

/-- The kind of an environment. -/
inductive TableKind where
  /-- Columns as the environment's argument specifies them. -/
  | array
  /-- Centred columns between delimiters. -/
  | matrix (left right : Delimiter)
  | smallMatrix
  /-- Left-aligned columns after a brace. -/
  | cases
  /-- Pairs of a right-aligned and a left-aligned column in display style. -/
  | aligned
  /-- Centred columns in display style. -/
  | gathered
  /-- One line per row; without an alignment the first line stands left and the last one right. -/
  | lines (align : Option HAlign)
  deriving DecidableEq, Repr

namespace TableKind

/-- The kind of an environment's name. Stars at its end do not count. -/
def named? (name : String) : Option TableKind :=
  match String.ofList (Text.trimEnd (· == '*') name.toList) with
  | "array" => some array
  | "matrix" => some (matrix none none)
  | "pmatrix" => some (matrix (some '(') (some ')'))
  | "bmatrix" => some (matrix (some '[') (some ']'))
  | "Bmatrix" => some (matrix (some '{') (some '}'))
  | "vmatrix" => some (matrix (some '|') (some '|'))
  | "Vmatrix" => some (matrix (some '\u2016') (some '\u2016'))
  | "smallmatrix" => some smallMatrix
  | "cases" => some cases
  | "aligned" | "align" | "split" | "eqnarray" => some aligned
  | "gathered" => some gathered
  | "gather" => some (lines (some .center))
  | "multline" => some (lines none)
  | _ => none

/-- An argument with a column specification follows the name. -/
def takesSpec (k : TableKind) : Bool := k == array

/-- The columns of the environment; `spec` is its column specification. -/
def format (k : TableKind) (spec : Option (List Char)) : ColumnFormat :=
  match k with
  | array => (spec.map ColumnFormat.read).getD .centered
  | cases => .natural [{ align := .left }]
  | aligned => .natural [{ align := .right }, { align := .left }]
  | matrix _ _ | smallMatrix | gathered | lines _ => .centered

/-- The presentation of the environment. -/
def options (k : TableKind) : TableOptions :=
  match k with
  | array | lines _ => {}
  | matrix left right => { outerGap := false, left, right }
  | smallMatrix => { style := .script, outerGap := false, rowStretch := .ofDecimal 7 1 }
  | cases => { outerGap := false, left := some '{' }
  | aligned =>
    { style := .display, columnGap := .ofDecimal 2 0, outerGap := false, paired := true }
  | gathered => { style := .display, outerGap := false }

end TableKind

end Typeset
