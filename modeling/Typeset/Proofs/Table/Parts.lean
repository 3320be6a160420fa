import Mathlib.Data.List.Induction
import Mathlib.Data.List.TakeWhile
import Typeset.Proofs.Nest.Salvage
import Typeset.Proofs.Table.Builder

/-!
# Tables cut at their separators

The builder of a table keeps a cell, a row and rules that wait for the next row. What it makes of
atoms and separators is said here without it, by cutting them at the separators.

* `TableInput`: what is fed to a builder; `TableBuilder.feed` is one step.
* `cutRows`, `cutCells`: the parts between the row separators, and the pieces of a part between its
  column separators.
* `rowsFrom`, `rulesBelow`: the rows of the parts with the rules above them, and the rules that are
  left below the last one.
* `tableOf`: the table of what is fed; `tableOf_rules`: it has every rule once, in order.
* `TableBuilder.feed_ofInputs`, `TableBuilder.foldl_feed`: what a builder holds after each step, and
  after all of them.
* `TableBuilder.checked_foldl_feed`: the checked table is the table of what was fed.
-/

namespace Typeset

/-- What is fed to a table: atoms, and the separators between cells and between rows. -/
inductive TableInput where
  | atom (a : Atom)
  | column
  | row (gap : Option Length)

namespace TableInput

/-- The input ends a cell. -/
def isColumn : TableInput → Bool
  | column => true
  | _ => false

/-- An atom that stands in a cell. -/
def ordinary? : TableInput → Option Atom
  | atom a => if a.isMarker then none else some a
  | _ => none

def rule? : TableInput → Option HRule
  | atom (.hrule r) => some r
  | _ => none

def cellColor? : TableInput → Option Color
  | atom (.cellColor c) => some c
  | _ => none

def rowColor? : TableInput → Option Color
  | atom (.rowColor c) => some c
  | _ => none

/-- The input gives the row a cell, or an atom in one. -/
def isContent (i : TableInput) : Bool := i.isColumn || i.ordinary?.isSome

end TableInput

open TableInput

/-! ## The table of what is fed -/

/-- The parts before each row separator, with the gap of the separator, and the part after the last
one. -/
def cutRows : List TableInput → List (List TableInput × Option Length) × List TableInput
  | [] => ([], [])
  | .row gap :: inputs => (([], gap) :: (cutRows inputs).1, (cutRows inputs).2)
  | i :: inputs =>
    match cutRows inputs with
    | ([], last) => ([], i :: last)
    | ((part, gap) :: parts, last) => ((i :: part, gap) :: parts, last)

/-- The pieces of a part between its column separators. -/
def cutCells (part : List TableInput) : List (List TableInput) := part.splitOnP isColumn

/-- The cell of a piece: its atoms in a row, and the last color that is given in it. -/
def cellOf (piece : List TableInput) : Cell Atom :=
  { content := .row (piece.filterMap ordinary?), color := (piece.filterMap cellColor?).getLast? }

/-- The rules of a part before its first atom or column separator. -/
def earlyRules (part : List TableInput) : List HRule :=
  (part.takeWhile fun i => !i.isContent).filterMap rule?

/-- The rules of a part after its first atom or column separator. -/
def lateRules (part : List TableInput) : List HRule :=
  (part.dropWhile fun i => !i.isContent).filterMap rule?

@[simp] theorem earlyRules_nil : earlyRules [] = [] := rfl

@[simp] theorem lateRules_nil : lateRules [] = [] := rfl

/-- The row of a part, with rules above it that were given before the part. -/
def rowOf (above : List HRule) (part : List TableInput) (gap : Option Length) : TableRow Atom :=
  { cells := (cutCells part).map cellOf
    rules := above ++ earlyRules part
    color := (part.filterMap rowColor?).getLast?
    gap }

/-- The rows of parts. The late rules of a part stand above the next row. -/
def rowsFrom (above : List HRule) : List (List TableInput × Option Length) → List (TableRow Atom)
  | [] => []
  | (part, gap) :: parts => rowOf above part gap :: rowsFrom (lateRules part) parts

/-- The rules that are left below the last row. -/
def rulesBelow (above : List HRule) : List (List TableInput × Option Length) → List HRule
  | [] => above
  | (part, _) :: parts => rulesBelow (lateRules part) parts

/-- The last part is no row: it has no atom, no column separator and no row color. -/
def isBlankPart (part : List TableInput) : Bool :=
  part.all fun i => !i.isContent && i.rowColor?.isNone

/-- The parts that are rows. -/
def rowParts (inputs : List TableInput) : List (List TableInput × Option Length) :=
  if isBlankPart (cutRows inputs).2 then (cutRows inputs).1
  else (cutRows inputs).1 ++ [((cutRows inputs).2, none)]

/-- The rules of the last part, if it is no row. -/
def strayRules (inputs : List TableInput) : List HRule :=
  if isBlankPart (cutRows inputs).2 then (cutRows inputs).2.filterMap rule? else []

/-- The table of a format and of what is fed, before its rows are padded. -/
def unpaddedTableOf (format : ColumnFormat) (inputs : List TableInput) : Table Atom :=
  { format
    rows := rowsFrom [] (rowParts inputs)
    trailing := rulesBelow [] (rowParts inputs) ++ strayRules inputs }

/-- The table of a format and of what is fed. Every row that is short ends with cells that have
nothing in them. -/
def tableOf (format : ColumnFormat) (inputs : List TableInput) : Table Atom :=
  let t := unpaddedTableOf format inputs
  let empty : Cell Atom := { content := .row [] }
  { t with
    rows := t.rows.map fun r =>
      { r with cells := r.cells ++ List.replicate (t.columnCount - r.cells.length) empty } }

/-! ## Rules -/

theorem earlyRules_append_lateRules (part : List TableInput) :
    earlyRules part ++ lateRules part = part.filterMap rule? := by
  rw [earlyRules, lateRules, ← List.filterMap_append, List.takeWhile_append_dropWhile]

/-- The rows and what is left below them have every rule of the parts once, in order. -/
theorem flatMap_rules_rowsFrom (above : List HRule)
    (parts : List (List TableInput × Option Length)) :
    (rowsFrom above parts).flatMap TableRow.rules ++ rulesBelow above parts =
      above ++ parts.flatMap fun part => part.1.filterMap rule? := by
  induction parts generalizing above with
  | nil => simp [rowsFrom, rulesBelow]
  | cons part parts ih =>
    rw [rowsFrom, rulesBelow, List.flatMap_cons, List.append_assoc, ih, List.flatMap_cons,
      ← earlyRules_append_lateRules]
    simp [rowOf]

theorem flatMap_rules_cutRows (inputs : List TableInput) :
    ((cutRows inputs).1.flatMap fun part => part.1.filterMap rule?) ++
      (cutRows inputs).2.filterMap rule? = inputs.filterMap rule? := by
  fun_induction cutRows inputs with
  | case1 => rfl
  | case2 gap inputs ih =>
    rw [List.filterMap_cons_none rfl, ← ih]
    rfl
  | case3 i inputs hi last hcut ih =>
    rw [hcut] at ih
    simp only [List.flatMap_nil, List.nil_append] at ih ⊢
    rw [List.filterMap_cons, List.filterMap_cons, ih]
  | case4 i inputs hi part gap parts last hcut ih =>
    rw [hcut] at ih
    simp only [List.flatMap_cons, List.append_assoc] at ih ⊢
    rw [List.filterMap_cons, List.filterMap_cons]
    cases i.rule? <;> simp [ih]

/-- Reading the rules above the rows and then those below the table gives every rule once, in the
order in which it was fed. -/
theorem tableOf_rules (format : ColumnFormat) (inputs : List TableInput) :
    (tableOf format inputs).rows.flatMap TableRow.rules ++ (tableOf format inputs).trailing =
      inputs.filterMap rule? := by
  have hpad : (tableOf format inputs).rows.flatMap TableRow.rules =
      (rowsFrom [] (rowParts inputs)).flatMap TableRow.rules := by
    simp [tableOf, unpaddedTableOf, List.flatMap_map]
  have hrules := flatMap_rules_rowsFrom [] (rowParts inputs)
  rw [hpad, ← flatMap_rules_cutRows]
  simp only [tableOf, unpaddedTableOf, ← List.append_assoc]
  rw [hrules, List.nil_append, rowParts, strayRules]
  split <;> simp

/-! ## One more input -/

theorem cutRows_append_row (inputs : List TableInput) (gap : Option Length) :
    cutRows (inputs ++ [.row gap]) = ((cutRows inputs).1 ++ [((cutRows inputs).2, gap)], []) := by
  fun_induction cutRows inputs with
  | case1 => rfl
  | case2 gap' inputs ih => rw [List.cons_append, cutRows, ih]; rfl
  | case3 i inputs hi last hcut ih =>
    rw [hcut] at ih
    rw [List.cons_append, cutRows, ih]
    · rfl
    · exact hi
  | case4 i inputs hi part gap' parts last hcut ih =>
    rw [hcut] at ih
    rw [List.cons_append, cutRows, ih]
    · rfl
    · exact hi

theorem cutRows_append {i : TableInput} (h : ∀ gap, i ≠ .row gap) (inputs : List TableInput) :
    cutRows (inputs ++ [i]) = ((cutRows inputs).1, (cutRows inputs).2 ++ [i]) := by
  fun_induction cutRows inputs with
  | case1 =>
    rw [List.nil_append, cutRows]
    · rfl
    · exact h
  | case2 gap' inputs ih => rw [List.cons_append, cutRows, ih]
  | case3 j inputs hj last hcut ih =>
    rw [hcut] at ih
    rw [List.cons_append, cutRows, ih]
    · rfl
    · exact hj
  | case4 j inputs hj part gap' parts last hcut ih =>
    rw [hcut] at ih
    rw [List.cons_append, cutRows, ih]
    exact hj

/-- One more row takes the rules that were left below the rows so far. -/
theorem rowsFrom_append (above : List HRule) (parts : List (List TableInput × Option Length))
    (part : List TableInput) (gap : Option Length) :
    rowsFrom above (parts ++ [(part, gap)]) =
      rowsFrom above parts ++ [rowOf (rulesBelow above parts) part gap] := by
  induction parts generalizing above with
  | nil => rfl
  | cons head parts ih => rw [List.cons_append, rowsFrom, rowsFrom, rulesBelow, ih]; rfl

theorem rulesBelow_append (above : List HRule) (parts : List (List TableInput × Option Length))
    (part : List TableInput) (gap : Option Length) :
    rulesBelow above (parts ++ [(part, gap)]) = lateRules part := by
  induction parts generalizing above with
  | nil => rfl
  | cons head parts ih => rw [List.cons_append, rulesBelow, ih]

/-- The pieces of a part that a column separator ends. -/
def closedPieces (part : List TableInput) : List (List TableInput) := (cutCells part).dropLast

/-- The piece of a part after its last column separator. -/
def lastPiece (part : List TableInput) : List TableInput := (cutCells part).getLastD []

@[simp] theorem closedPieces_nil : closedPieces [] = [] := rfl

@[simp] theorem lastPiece_nil : lastPiece [] = [] := rfl

theorem cutCells_eq (part : List TableInput) :
    cutCells part = closedPieces part ++ [lastPiece part] := by
  have hne : cutCells part ≠ [] := List.splitOnP_ne_nil _ _
  rw [closedPieces, lastPiece, List.getLastD_eq_getLast?, List.getLast?_eq_some_getLast hne,
    Option.getD_some, List.dropLast_concat_getLast]

theorem pieces_of_cutCells {part : List TableInput} {cells : List (List TableInput)}
    {piece : List TableInput} (h : cutCells part = cells ++ [piece]) :
    closedPieces part = cells ∧ lastPiece part = piece := by
  simp [closedPieces, lastPiece, h]

/-- Inputs without column separators join the last piece. -/
theorem exists_cutCells_append (part : List TableInput) : ∃ cells piece,
    ∀ more : List TableInput, (∀ i ∈ more, i.isColumn = false) →
      cutCells (part ++ more) = cells ++ [piece ++ more] := by
  induction part with
  | nil => exact ⟨[], [], fun more h => List.splitOnP_eq_singleton h⟩
  | cons i part ih =>
    have hcons (part : List TableInput) : cutCells (i :: part) =
        if i.isColumn then [] :: cutCells part else (cutCells part).modifyHead (i :: ·) :=
      List.splitOnP_cons_eq_if_modifyHead i part
    obtain ⟨cells, piece, hcut⟩ := ih
    by_cases hi : i.isColumn = true
    · exact ⟨[] :: cells, piece, fun more h => by
        rw [List.cons_append, hcons, if_pos hi, hcut more h, List.cons_append]⟩
    · cases cells with
      | nil =>
        exact ⟨[], i :: piece, fun more h => by
          rw [List.cons_append, hcons, if_neg hi, hcut more h]
          rfl⟩
      | cons cell cells =>
        exact ⟨(i :: cell) :: cells, piece, fun more h => by
          rw [List.cons_append, hcons, if_neg hi, hcut more h]
          rfl⟩

/-- An input that is no column separator joins the last piece. -/
theorem pieces_append {i : TableInput} (hi : i.isColumn = false) (part : List TableInput) :
    closedPieces (part ++ [i]) = closedPieces part ∧
      lastPiece (part ++ [i]) = lastPiece part ++ [i] := by
  obtain ⟨cells, piece, hcut⟩ := exists_cutCells_append part
  have hpart : cutCells part = cells ++ [piece] := by simpa using hcut [] (by simp)
  obtain ⟨hclosed, hlast⟩ := pieces_of_cutCells hpart
  rw [hclosed, hlast]
  exact pieces_of_cutCells (hcut [i] (by simpa using hi))

/-- A column separator ends the last piece. -/
theorem pieces_append_column (part : List TableInput) :
    closedPieces (part ++ [.column]) = closedPieces part ++ [lastPiece part] ∧
      lastPiece (part ++ [.column]) = [] := by
  refine pieces_of_cutCells ?_
  rw [← cutCells_eq]
  exact List.splitOnP_append_cons part [] rfl

/-- A part has content if it has a piece that is ended, or an atom in the last one. -/
theorem any_isContent (part : List TableInput) : part.any isContent =
    !((closedPieces part).isEmpty && ((lastPiece part).filterMap ordinary?).isEmpty) := by
  induction part using List.reverseRecOn with
  | nil => rfl
  | append_singleton part i ih =>
    rw [List.any_append, ih]
    cases hi : i.isColumn with
    | true =>
      obtain rfl : i = .column := by cases i <;> first | rfl | cases hi
      simp [pieces_append_column, isContent, isColumn]
    | false =>
      obtain ⟨hclosed, hlast⟩ := pieces_append hi part
      rw [hclosed, hlast]
      cases ho : i.ordinary? <;> simp [isContent, hi, ho]

/-- What is content is no rule. -/
theorem TableInput.rule?_of_isContent {i : TableInput} (h : i.isContent = true) :
    i.rule? = none := by
  cases i with
  | atom a => cases a <;> first | rfl | cases h
  | column | row => rfl

theorem earlyRules_cons (i : TableInput) (part : List TableInput) :
    earlyRules (i :: part) = if i.isContent then [] else i.rule?.toList ++ earlyRules part := by
  cases hi : i.isContent
  · simp only [earlyRules, List.takeWhile_cons, hi]
    cases hr : i.rule? <;> simp [hr]
  · simp [earlyRules, hi]

theorem lateRules_cons (i : TableInput) (part : List TableInput) :
    lateRules (i :: part) = if i.isContent then part.filterMap rule? else lateRules part := by
  cases hi : i.isContent
  · simp [lateRules, hi]
  · simp [lateRules, hi, rule?_of_isContent hi]

/-- A rule that joins a part is early as long as the part has no content. -/
theorem earlyRules_append (part : List TableInput) (i : TableInput) :
    earlyRules (part ++ [i]) =
      earlyRules part ++ if part.any isContent then [] else i.rule?.toList := by
  induction part with
  | nil =>
    cases hi : i.isContent
    · simp [earlyRules_cons, hi]
    · simp [earlyRules_cons, hi, rule?_of_isContent hi]
  | cons j part ih => cases hj : j.isContent <;> simp [earlyRules_cons, hj, ih]

/-- A rule that joins a part is late as soon as the part has content. -/
theorem lateRules_append (part : List TableInput) (i : TableInput) :
    lateRules (part ++ [i]) =
      lateRules part ++ if part.any isContent then i.rule?.toList else [] := by
  induction part with
  | nil => cases hi : i.isContent <;> simp [lateRules_cons, hi]
  | cons j part ih =>
    cases hj : j.isContent
    · simp [lateRules_cons, hj, ih]
    · cases hi : i.rule? <;> simp [lateRules_cons, hj, hi]

/-! ## The builder -/

namespace TableBuilder

/-- One step of a builder. -/
def feed (b : TableBuilder) : TableInput → TableBuilder
  | .atom a => b.addAtom a
  | .column => b.addColumn
  | .row gap => b.addRow gap

/-- What a builder holds after its inputs: the rows of the parts that are ended, and the pieces of
the last part. -/
def ofInputs (format : ColumnFormat) (inputs : List TableInput) : TableBuilder :=
  let (ended, last) := cutRows inputs
  { table := { format, rows := rowsFrom [] ended }
    row :=
      { cells := (closedPieces last).map cellOf
        rules := rulesBelow [] ended ++ earlyRules last
        color := (last.filterMap rowColor?).getLast? }
    cell := (lastPiece last).filterMap ordinary?
    cellColor := ((lastPiece last).filterMap cellColor?).getLast?
    pending := lateRules last }

variable {format : ColumnFormat} {inputs : List TableInput}

/-- A row is fresh as long as its part has no content. -/
theorem isFresh_ofInputs (format : ColumnFormat) (inputs : List TableInput) :
    (ofInputs format inputs).isFresh = !(cutRows inputs).2.any isContent := by
  simp [isFresh, ofInputs, any_isContent]

/-- What an atom changes: it joins the cell or sets a color, and a rule goes above the row or waits
for the next one. -/
theorem addAtom_eq (b : TableBuilder) (a : Atom) :
    b.addAtom a =
      { b with
        row :=
          { b.row with
            rules := b.row.rules ++ if b.isFresh then (TableInput.atom a).rule?.toList else []
            color := (TableInput.atom a).rowColor?.or b.row.color }
        cell := b.cell ++ (TableInput.atom a).ordinary?.toList
        cellColor := (TableInput.atom a).cellColor?.or b.cellColor
        pending := b.pending ++ if b.isFresh then [] else (TableInput.atom a).rule?.toList } := by
  cases a with
  | hrule r =>
    have hstep : b.addAtom (.hrule r) = b.addRule r := rfl
    rw [hstep, addRule]
    cases b.isFresh <;> simp [rule?, rowColor?, ordinary?, cellColor?, Atom.isMarker]
  | cellColor c | rowColor c =>
    simp [addAtom, rule?, rowColor?, ordinary?, cellColor?, Atom.isMarker]
  | _ => simp [addAtom, rule?, rowColor?, ordinary?, cellColor?, Atom.isMarker]

/-- The last value that a list gives, with one more element. -/
theorem getLast?_filterMap_append {α β : Type} (f : α → Option β) (l : List α) (a : α) :
    ((l ++ [a]).filterMap f).getLast? = (f a).or (l.filterMap f).getLast? := by
  cases h : f a <;> simp [h]

theorem filterMap_append_singleton {α β : Type} (f : α → Option β) (l : List α) (a : α) :
    (l ++ [a]).filterMap f = l.filterMap f ++ (f a).toList := by
  cases h : f a <;> simp [h]

/-- **A step of a builder** adds one input to what it holds. -/
theorem feed_ofInputs (format : ColumnFormat) (inputs : List TableInput) (i : TableInput) :
    (ofInputs format inputs).feed i = ofInputs format (inputs ++ [i]) := by
  cases i with
  | atom a =>
    have hrows := cutRows_append (i := .atom a) (by simp) inputs
    obtain ⟨hclosed, hlast⟩ := pieces_append (i := .atom a) rfl (cutRows inputs).2
    rw [feed, addAtom_eq, isFresh_ofInputs]
    simp only [ofInputs, hrows, hclosed, hlast, earlyRules_append, lateRules_append,
      getLast?_filterMap_append]
    simp only [filterMap_append_singleton]
    cases (cutRows inputs).2.any isContent <;> simp [List.append_assoc]
  | column =>
    have hrows := cutRows_append (i := .column) (by simp) inputs
    obtain ⟨hclosed, hlast⟩ := pieces_append_column (cutRows inputs).2
    have hrule : TableInput.column.rule? = none := rfl
    have hcolor : TableInput.column.rowColor? = none := rfl
    simp only [feed, addColumn, ofInputs, hrows, hclosed, hlast, earlyRules_append,
      lateRules_append, getLast?_filterMap_append, hrule, hcolor]
    simp [cellOf]
  | row gap =>
    have hrows := cutRows_append_row inputs gap
    simp only [feed, addRow, addColumn, ofInputs, hrows, rowsFrom_append, rulesBelow_append,
      rowOf, cutCells_eq]
    simp [cellOf]

/-- **The builder** after any inputs holds their parts and pieces. -/
theorem foldl_feed (format : ColumnFormat) (inputs : List TableInput) :
    inputs.foldl feed (start format) = ofInputs format inputs := by
  induction inputs using List.reverseRecOn with
  | nil => rfl
  | append_singleton inputs i ih =>
    rw [List.foldl_append, List.foldl_cons, List.foldl_nil, ih, feed_ofInputs]

/-- The last part is no row if the row of the builder is fresh and has no color. -/
theorem isBlankPart_eq (format : ColumnFormat) (inputs : List TableInput) :
    isBlankPart (cutRows inputs).2 =
      ((ofInputs format inputs).isFresh && (ofInputs format inputs).row.color.isNone) := by
  have hcolor : (ofInputs format inputs).row.color =
      ((cutRows inputs).2.filterMap rowColor?).getLast? := rfl
  rw [isFresh_ofInputs, hcolor, Bool.eq_iff_iff]
  simp [isBlankPart, forall_and]

/-- All rules of a part that is no row are early. -/
theorem rules_of_isBlankPart {part : List TableInput} (h : isBlankPart part = true) :
    earlyRules part = part.filterMap rule? ∧ lateRules part = [] := by
  have hblank : ∀ i ∈ part, (!i.isContent) = true := fun i hi =>
    (Bool.and_eq_true_iff.mp (List.all_eq_true.mp h i hi)).1
  rw [earlyRules, lateRules, List.takeWhile_eq_self_iff.mpr hblank,
    List.dropWhile_eq_nil_iff.mpr hblank]
  exact ⟨rfl, rfl⟩

theorem close_ofInputs (format : ColumnFormat) (inputs : List TableInput) :
    (ofInputs format inputs).close.table = unpaddedTableOf format inputs := by
  rw [close, ← isBlankPart_eq]
  split
  · rename_i hblank
    obtain ⟨hearly, hlate⟩ := rules_of_isBlankPart hblank
    simp [ofInputs, unpaddedTableOf, rowParts, strayRules, hblank, hearly, hlate]
  · rename_i hblank
    simp [ofInputs, unpaddedTableOf, rowParts, strayRules, hblank, rowsFrom_append,
      rulesBelow_append, addColumn, rowOf, cutCells_eq, cellOf]

/-- **Splitting at the separators.** When a builder of any format is fed any atoms, column
separators and row separators and its last row is closed, no row has too many cells exactly if the
check succeeds, and the checked table is the one that is cut at the separators. Its rules, read from
the top, are all those that were fed, in order. -/
theorem checked_foldl_feed (format : ColumnFormat) (inputs : List TableInput) :
    (∀ t, (inputs.foldl feed (start format)).checked = .ok t ↔
      (unpaddedTableOf format inputs).Fits ∧ t = tableOf format inputs) ∧
    (tableOf format inputs).rows.flatMap TableRow.rules ++ (tableOf format inputs).trailing =
      inputs.filterMap rule? := by
  refine ⟨fun t => ?_, tableOf_rules format inputs⟩
  rw [checked_eq_ok_iff, foldl_feed, columnCount, close_ofInputs]
  rfl

end TableBuilder

end Typeset
