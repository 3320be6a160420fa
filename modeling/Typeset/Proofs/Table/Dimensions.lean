import Typeset.Proofs.Layout.InRange

/-!
# Dimensions

The check of a table and its layout count the columns in different ways: one takes the longest row,
the other the first. They agree on what the check leaves.

* `TableBuilder.check_eq_none_iff`, `TableBuilder.namesFirst_of_check`: the check fails exactly if
  the format gives the number of columns and a row has more cells, and it names the first such row.
* `TableBuilder.check_of_isChecked`: a checked table passes the check again, unchanged.
* `HRule.isCut`: the columns under a rule are those that it asks for, as far as there are any.
* `TableBuilder.check_agrees_with_layout`: what passes the check is laid out, and nothing is read
  out of range.
-/

namespace Typeset

/-! ## Rules -/

namespace HRule

/-- The rule is asked for below column number `j`, counted from one. -/
def AsksFor : HRule → Nat → Prop
  | .full, _ => True
  | .columns first last, j => first ≤ j ∧ j ≤ last

/-- The columns under the rule in a table of `columns` columns, counted from zero, are those of the
table that the rule asks for. If there are none, the rule has no span. -/
def IsCut (r : HRule) (columns : Nat) : Prop :=
  match r.span columns with
  | none => ∀ j < columns, ¬r.AsksFor (j + 1)
  | some (first, last) => first ≤ last ∧ last < columns ∧
    ∀ j, first ≤ j ∧ j ≤ last ↔ j < columns ∧ r.AsksFor (j + 1)

/-- A rule may ask for column zero, for columns beyond the table, or from the right to the left. -/
theorem isCut (r : HRule) (columns : Nat) : r.IsCut columns := by
  unfold IsCut
  split
  · rename_i hspan
    cases r with
    | full =>
      simp only [span, ite_eq_right_iff, reduceCtorEq, imp_false] at hspan
      omega
    | columns first last =>
      simp only [span, ite_eq_right_iff, reduceCtorEq, imp_false] at hspan
      simp only [AsksFor]
      omega
  · rename_i a c hspan
    obtain ⟨hle, hlt⟩ := span_bounds hspan
    refine ⟨hle, hlt, fun j => ?_⟩
    cases r with
    | full =>
      simp only [span, Option.ite_none_right_eq_some, Option.some.injEq, Prod.mk.injEq] at hspan
      simp only [AsksFor, and_true]
      omega
    | columns first last =>
      simp only [span, Option.ite_none_right_eq_some, Option.some.injEq, Prod.mk.injEq] at hspan
      simp only [AsksFor]
      omega

end HRule

/-! ## The check -/

/-- The error names the first of the rows that have more than `columns` cells. -/
structure DimensionError.NamesFirst (e : DimensionError) (columns : Nat)
    (rows : List (TableRow Atom)) : Prop where
  columns_eq : e.columns = columns
  getElem_row : rows[e.row]?.map (fun r => r.cells.length) = some e.cells
  lt_cells : columns < e.cells
  le_before : ∀ r ∈ rows.take e.row, r.cells.length ≤ columns

/-- No row has too many cells unless the format gives the number of columns. -/
theorem Table.fits_iff {A : Type} {t : Table A} :
    t.Fits ↔ ∀ n ∈ t.format.declared, ∀ r ∈ t.rows, r.cells.length ≤ n := by
  cases hd : t.format.declared with
  | none => simpa using fits_of_declared_eq_none hd
  | some n => simp [Fits, columnCount, hd]

namespace TableBuilder

variable {b : TableBuilder}

/-- The error of rows that are numbered from `index` on. -/
theorem exists_of_padRows_error {columns index : Nat} {rows : List (TableRow Atom)}
    {e : DimensionError} (h : (padRows columns index rows).2 = some e) :
    ∃ k, e.row = index + k ∧ ({ e with row := k } : DimensionError).NamesFirst columns rows := by
  induction rows generalizing index with
  | nil => cases h
  | cons r rows ih =>
    rw [padRows] at h
    split at h
    · rename_i hr
      cases h
      exact ⟨0, rfl, rfl, by simp, hr, by simp⟩
    · rename_i hr
      obtain ⟨k, hk, hcolumns, hrow, hlt, hbefore⟩ := ih h
      exact ⟨k + 1, by omega, hcolumns, by simpa using hrow, hlt,
        by simpa using ⟨by omega, hbefore⟩⟩

theorem close_columnCount {n : Nat} (h : b.table.format.declared = some n) :
    b.close.columnCount = n := by
  rw [columnCount, Table.columnCount, close_format, h, Option.getD_some]

/-- What the check leaves of rows that fit. -/
theorem check_of_fits (h : b.close.table.Fits) :
    b.check = ({ b.close with table := { b.close.table with
      rows := b.close.table.rows.map (padRow b.close.columnCount) } }, none) := by
  have hpad : padRows b.close.columnCount 0 b.close.table.rows =
      (b.close.table.rows.map (padRow b.close.columnCount), none) := padRows_of_forall h 0
  simp only [check, hpad]

theorem check_eq_none_iff_fits : b.check.2 = none ↔ b.close.table.Fits := by
  constructor
  · intro h
    by_contra hfits
    obtain ⟨padded, e, hpad⟩ := exists_padRows_error hfits 0
    have herror : b.check.2 = some e := congrArg Prod.snd hpad
    rw [h] at herror
    cases herror
  · intro h
    rw [check_of_fits h]

/-- **When the check fails.** Some row, the last one included, has more cells than the format gives
columns. -/
theorem check_eq_none_iff : b.check.2 = none ↔
    ∀ n ∈ b.table.format.declared, ∀ r ∈ b.table.rows ++ b.lastRow, r.cells.length ≤ n := by
  rw [check_eq_none_iff_fits, Table.fits_iff, close_format, close_rows]

/-- **What the error says.** -/
theorem namesFirst_of_check {e : DimensionError} (h : b.check.2 = some e) :
    ∃ n ∈ b.table.format.declared, e.NamesFirst n (b.table.rows ++ b.lastRow) := by
  cases hd : b.table.format.declared with
  | none =>
    have hnone : b.check.2 = none := check_eq_none_iff.mpr (by simp [hd])
    rw [hnone] at h
    cases h
  | some n =>
    have hpad : (padRows b.close.columnCount 0 b.close.table.rows).2 = some e := h
    rw [close_columnCount hd, close_rows] at hpad
    obtain ⟨k, hk, hnames⟩ := exists_of_padRows_error hpad
    obtain rfl : e.row = k := by omega
    exact ⟨n, rfl, hnames⟩

/-- Closing leaves nothing to close, whatever the table is. -/
theorem close_with (b : TableBuilder) (t : Table Atom) :
    ({ b.close with table := t }).close = { b.close with table := t } := by
  have hclosed : b.close.row = { cells := [] } ∧ b.close.cell = [] ∧ b.close.pending = [] := by
    unfold close
    split
    · rename_i hfresh
      simp only [isFresh, Bool.and_eq_true, List.isEmpty_iff] at hfresh
      exact ⟨rfl, hfresh.1.2, rfl⟩
    · exact ⟨rfl, rfl, rfl⟩
  generalize b.close = c at hclosed ⊢
  obtain ⟨hrow, hcell, hpending⟩ := hclosed
  simp [close, isFresh, hrow, hcell, hpending]

theorem padRow_eq_self {r : TableRow Atom} {columns : Nat} (h : r.cells.length = columns) :
    padRow columns r = r := by
  simp [padRow, h]

/-- **Checking twice.** A closed table with a cell in every column passes the check unchanged. -/
theorem check_of_isChecked {t : Table Atom} (h : t.IsChecked) :
    ({ b.close with table := t }).check = ({ b.close with table := t }, none) := by
  have hclose := close_with b t
  have hfits : ({ b.close with table := t }).close.table.Fits := by
    rw [hclose]
    exact fun r hr => (h r hr).le
  have hrows : t.rows.map (padRow t.columnCount) = t.rows :=
    (List.map_congr_left fun r hr => padRow_eq_self (h r hr)).trans (List.map_id t.rows)
  rw [check_of_fits hfits, hclose]
  simp only [columnCount, hrows]

/-- The checked rows have a cell in every column. -/
theorem isChecked_of_check (h : b.check.2 = none) : b.check.1.table.IsChecked := by
  have hfits := check_eq_none_iff_fits.mp h
  rw [check_of_fits hfits]
  refine Table.isChecked_of_forall ?_
  simp only [List.mem_map, forall_exists_index, and_imp, forall_apply_eq_imp_iff₂]
  exact fun r hr => padRow_length (hfits r hr)

end TableBuilder

theorem TableKind.finish_eq_error_iff {kind : TableKind} {b : TableBuilder}
    {e : DimensionError} : kind.finish b = .error e ↔ b.check.2 = some e := by
  rw [finish_eq, TableBuilder.checked]
  split <;> rename_i hcheck <;> simp [hcheck, Except.map]

/-- The table of an environment has a cell in every column. -/
theorem TableKind.isChecked_of_finish {kind : TableKind} {b : TableBuilder} {t : Table Atom}
    {o : TableOptions} (h : kind.finish b = .ok (.array t o)) : t.IsChecked := by
  obtain ⟨s, hs, heq, -⟩ := exists_of_finish h
  have hbuilt := kind.isBuilt_ofTable hs
  rw [← heq] at hbuilt
  simpa [Atom.isBuilt, Atom.isSymbol, Atom.fits, Atom.hasScript] using hbuilt

/-- The table is laid out in the columns that it counts itself, in every environment, and nothing
is read out of range. -/
structure Table.LaysOut (t : Table Atom) : Prop where
  isChecked : t.IsChecked
  layoutColumns_eq : layoutColumns t = t.columnCount
  exists_box : ∀ {α : Type} [Scalar α] (o : TableOptions) (env : Environment α),
    ∃ box, t.layout o env = .ok box ∧ t.layout? o env = some (.ok box)

theorem Table.IsChecked.laysOut {t : Table Atom} (h : t.IsChecked) : t.LaysOut where
  isChecked := h
  layoutColumns_eq := h.layoutColumns_eq
  exists_box o env := by
    obtain ⟨box, hbox⟩ := h.exists_layout o env
    exact ⟨box, hbox, by rw [layout?_eq, hbox]⟩

/-- **The check and the layout agree.** Whatever calls have filled a builder of whatever format:

* the check succeeds exactly if no row has more cells than the format gives columns, and otherwise
  names the first such row, its cells and the columns. The environment fails with the same error;
* a table that passed the check passes it again unchanged, also with the invisible atoms that start
  the right-hand cells of aligned pairs, and is laid out without reading anything out of range;
* a rule in any table covers those columns that it asks for, as far as the table has them. -/
theorem TableBuilder.check_agrees_with_layout (b : TableBuilder) :
    (b.check.2 = none ↔
      ∀ n ∈ b.table.format.declared, ∀ r ∈ b.table.rows ++ b.lastRow, r.cells.length ≤ n) ∧
    (∀ e, b.check.2 = some e →
      ∃ n ∈ b.table.format.declared, e.NamesFirst n (b.table.rows ++ b.lastRow)) ∧
    (∀ (kind : TableKind) (e : DimensionError),
      kind.finish b = .error e ↔ b.check.2 = some e) ∧
    (b.check.2 = none → b.check.1.check = (b.check.1, none) ∧ b.check.1.table.LaysOut) ∧
    (∀ (kind : TableKind) (t : Table Atom) (o : TableOptions),
      kind.finish b = .ok (.array t o) →
        ({ b.check.1 with table := t }).check = ({ b.check.1 with table := t }, none) ∧
          t.LaysOut) ∧
    ∀ (r : HRule) (columns : Nat), r.IsCut columns := by
  refine ⟨check_eq_none_iff, fun e => namesFirst_of_check, fun kind e => kind.finish_eq_error_iff,
    fun h => ?_, fun kind t o h => ?_, HRule.isCut⟩
  · have hchecked := isChecked_of_check h
    exact ⟨check_of_isChecked hchecked, hchecked.laysOut⟩
  · have hchecked := TableKind.isChecked_of_finish h
    exact ⟨check_of_isChecked hchecked, hchecked.laysOut⟩

/-- In a table of two columns a short row is padded, also in an environment of aligned pairs, while
a row with a third cell is an error. -/
theorem TableBuilder.check_agrees_with_layout_rows :
    let two : ColumnFormat := { columns := [{}, {}], boundaries := [{}, {}, {}], pattern := [] }
    let short : TableBuilder :=
      { table := { format := two, rows := [] }
        row := { cells := [{ content := .row [.ofChar 'a'] }], rules := [.columns 0 9] }
        cell := [.ofChar 'b'] }
    let next := (short.addRow none).addAtom (.ofChar 'c')
    let long := next.addColumn.addColumn
    (next.check.2 = none ∧ next.check.1.check = (next.check.1, none) ∧
        next.check.1.table.LaysOut) ∧
      (∃ t o, TableKind.aligned.finish next = .ok (.array t o) ∧ t.LaysOut) ∧
      (∃ e, long.check.2 = some e ∧ e.row = 1 ∧
        ∃ n ∈ two.declared, e.NamesFirst n (long.table.rows ++ long.lastRow)) := by
  intro two short next long
  obtain ⟨-, -, -, hagain, hfinish, -⟩ := check_agrees_with_layout next
  obtain ⟨-, hnames, -⟩ := check_agrees_with_layout long
  have hnext : next.check.2 = none := rfl
  have hlong : long.check.2 = some { row := 1, cells := 3, columns := 2 } := rfl
  exact ⟨⟨hnext, hagain hnext⟩, ⟨_, _, rfl, (hfinish .aligned _ _ rfl).2⟩,
    ⟨_, hlong, rfl, hnames _ hlong⟩⟩

end Typeset
