import Typeset.Table.Builder

/-!
# The table of a body

When the body of an environment makes a table, and what the atoms of its last cell are in it.

* `TableBuilder.checked_eq_ok_iff`: the table has the closed rows, padded, if none has too many
  cells.
* `TableBuilder.fits_close_iff`: a row has too many cells only if the format gives the number of
  columns. The atoms in the last cell do not matter.
* `TableKind.finish_cell_inj`: the atom of the environment shows the atoms in the last cell.
-/

namespace Typeset

namespace Table

variable {A : Type}

/-- No row has more cells than there are columns. -/
def Fits (t : Table A) : Prop := ∀ r ∈ t.rows, r.cells.length ≤ t.columnCount

/-- The count goes up to the longest row from wherever it starts. -/
private theorem le_foldl_max (rows : List (TableRow A)) (n : Nat) :
    n ≤ rows.foldl (fun n r => max n r.cells.length) n ∧
      ∀ r ∈ rows, r.cells.length ≤ rows.foldl (fun n r => max n r.cells.length) n := by
  induction rows generalizing n with
  | nil => simp
  | cons row rows ih =>
    obtain ⟨hn, hr⟩ := ih (max n row.cells.length)
    simp only [List.foldl_cons, List.mem_cons, forall_eq_or_imp]
    exact ⟨by omega, by omega, hr⟩

theorem cells_length_le_longest {rows : List (TableRow A)} {r : TableRow A} (h : r ∈ rows) :
    r.cells.length ≤ longest rows :=
  (le_foldl_max rows 0).2 r h

/-- Without a number of columns in the format, there are as many as needed. -/
theorem fits_of_declared_eq_none {t : Table A} (h : t.format.declared = none) : t.Fits := by
  intro r hr
  rw [columnCount, h]
  exact cells_length_le_longest hr

end Table

/-- A format that gives the number of columns gives at least one. -/
theorem ColumnFormat.declared_pos {f : ColumnFormat} {n : Nat} (h : f.declared = some n) :
    0 < n := by
  unfold declared at h
  split at h
  · cases h
  · cases h
    exact List.length_pos_iff.mpr ‹_›

namespace TableBuilder

theorem padRows_of_forall {columns : Nat} {rows : List (TableRow Atom)}
    (h : ∀ r ∈ rows, r.cells.length ≤ columns) (index : Nat) :
    padRows columns index rows = (rows.map (padRow columns), none) := by
  induction rows generalizing index with
  | nil => rfl
  | cons r rows ih =>
    have hr := h r (by simp)
    rw [padRows, if_neg (by omega), ih fun r hr => h r (by simp [hr])]
    rfl

theorem exists_padRows_error {columns : Nat} {rows : List (TableRow Atom)}
    (h : ¬∀ r ∈ rows, r.cells.length ≤ columns) (index : Nat) :
    ∃ padded e, padRows columns index rows = (padded, some e) := by
  induction rows generalizing index with
  | nil => exact absurd (by simp) h
  | cons r rows ih =>
    by_cases hr : columns < r.cells.length
    · exact ⟨_, _, by rw [padRows, if_pos hr]⟩
    · have hrows : ¬∀ r ∈ rows, r.cells.length ≤ columns := fun hrows =>
        h (by simpa using ⟨by omega, hrows⟩)
      obtain ⟨padded, e, hp⟩ := ih hrows (index + 1)
      exact ⟨_, _, by rw [padRows, if_neg hr, hp]⟩

/-- The table has the closed rows, padded, if none of them has too many cells. -/
theorem checked_eq_ok_iff {b : TableBuilder} {t : Table Atom} :
    b.checked = .ok t ↔ b.close.table.Fits ∧
      t = { b.close.table with
        rows := b.close.table.rows.map (padRow b.close.columnCount) } := by
  by_cases h : b.close.table.Fits
  · have hp := padRows_of_forall h 0
    simp only [checked, check, columnCount, hp, h, true_and, Except.ok.injEq]
    exact eq_comm
  · obtain ⟨padded, e, hp⟩ := exists_padRows_error h 0
    simp only [checked, check, columnCount, hp, h, false_and, reduceCtorEq]

/-- The last row, if there is one. -/
def lastRow (b : TableBuilder) : List (TableRow Atom) :=
  if b.isFresh && b.row.color.isNone then [] else [b.addColumn.row]

/-- There is no last row only if there is no atom in the last cell. -/
theorem lastRow_cases (b : TableBuilder) : b.lastRow = [] ∧ b.cell = [] ∨
    b.lastRow = [b.addColumn.row] := by
  unfold lastRow
  split
  · rename_i hf
    simp only [isFresh, Bool.and_eq_true, List.isEmpty_iff] at hf
    exact .inl ⟨rfl, hf.1.2⟩
  · exact .inr rfl

theorem close_rows (b : TableBuilder) : b.close.table.rows = b.table.rows ++ b.lastRow := by
  unfold close lastRow
  split <;> simp [addColumn]

theorem map_close_rows {b : TableBuilder} (h : b.lastRow = [b.addColumn.row])
    (f : TableRow Atom → TableRow Atom) :
    b.close.table.rows.map f = b.table.rows.map f ++ [f b.addColumn.row] := by
  rw [close_rows, h, List.map_append, List.map_singleton]

theorem close_format (b : TableBuilder) : b.close.table.format = b.table.format := by
  unfold close
  split <;> rfl

/-- A last row with other atoms in its last cell asks for the same columns. -/
theorem close_columnCount_cell {b : TableBuilder} {cell cell' : List Atom}
    (h : ({ b with cell }).lastRow = [({ b with cell }).addColumn.row])
    (h' : ({ b with cell := cell' }).lastRow = [({ b with cell := cell' }).addColumn.row]) :
    ({ b with cell }).close.columnCount = ({ b with cell := cell' }).close.columnCount := by
  rw [columnCount, columnCount, Table.columnCount, Table.columnCount, close_format, close_format,
    close_rows, close_rows, h, h']
  simp [Table.longest, addColumn]

/-- A row has too many cells only against a number of columns in the format. The cell being filled
counts for one, whatever is in it. -/
theorem fits_close_iff {b : TableBuilder} :
    b.close.table.Fits ↔ ∀ n ∈ b.table.format.declared,
      (∀ r ∈ b.table.rows, r.cells.length ≤ n) ∧ b.row.cells.length < n := by
  cases hd : b.table.format.declared with
  | none =>
    have := Table.fits_of_declared_eq_none (t := b.close.table) (by rw [close_format, hd])
    simpa using this
  | some n =>
    have hpos := ColumnFormat.declared_pos hd
    have hc : b.close.table.columnCount = n := by rw [Table.columnCount, close_format, hd]; rfl
    simp only [Table.Fits, hc, close_rows, List.mem_append, or_imp, forall_and,
      Option.mem_some_iff, forall_eq']
    refine and_congr_right fun _ => ?_
    unfold lastRow
    split
    · rename_i hf
      simp only [isFresh, Bool.and_eq_true, List.isEmpty_iff] at hf
      simp only [List.not_mem_nil, false_imp_iff, implies_true, true_iff, hf.1.1, List.length_nil]
      exact hpos
    · simp only [List.mem_singleton, forall_eq, addColumn, List.length_append, List.length_cons,
        List.length_nil]
      omega

end TableBuilder

/-- Atoms in equal number that make the same atom are the same. -/
theorem Atom.ofList_inj {as bs : List Atom} (hl : as.length = bs.length)
    (h : Atom.ofList as = Atom.ofList bs) : as = bs := by
  match as, bs, hl with
  | [], [], _ => rfl
  | [a], [b], _ => exact congrArg (fun x => [x]) h
  | a :: a' :: as, b :: b' :: bs, _ => simpa [ofList] using h

namespace TableKind

/-- Starting a cell after an invisible atom hides nothing of the cell. -/
theorem startOrdinary_inj {c d : Cell Atom} (h : startOrdinary c = startOrdinary d) : c = d := by
  unfold startOrdinary at h
  cases c
  cases d
  grind

theorem mapSecond_inj {A : Type} {f : A → A} (hf : ∀ a b, f a = f b → a = b) {as bs : List A}
    (h : mapSecond f as = mapSecond f bs) : as = bs := by
  fun_induction mapSecond f as generalizing bs with
  | case1 a a' as ih =>
    match bs with
    | [] | [b] => simp [mapSecond] at h
    | b :: b' :: bs =>
      simp only [mapSecond, List.cons.injEq] at h
      rw [h.1, hf _ _ h.2.1, ih h.2.2]
  | case2 as has =>
    match as, bs with
    | [], [] => rfl
    | [], [b] | [], b :: b' :: bs => simp [mapSecond] at h
    | [a], [] | [a], b :: b' :: bs => simp [mapSecond] at h
    | [a], [b] => exact h
    | a :: a' :: as, _ => exact (has a a' as rfl).elim

/-- The atom of a checked table. -/
def ofTable (k : TableKind) (t : Table Atom) : Atom :=
  match k with
  | lines align => .lines (t.rows.map fun r => Atom.ofList (r.cells.map Cell.content)) align
  | aligned =>
    .array { t with rows := t.rows.map fun r =>
      { r with cells := mapSecond startOrdinary r.cells } } k.options
  | array | matrix _ _ | smallMatrix | cases | gathered => .array t k.options

theorem finish_eq (k : TableKind) (b : TableBuilder) : k.finish b = b.checked.map k.ofTable := by
  unfold finish
  cases b.checked with
  | error e => rfl
  | ok t => cases k <;> rfl

/-- The atom of a table shows how many rows it has. -/
theorem rows_length_of_ofTable {k : TableKind} {s t : Table Atom} (h : k.ofTable s = k.ofTable t) :
    s.rows.length = t.rows.length := by
  cases k with
  | lines align =>
    simp only [ofTable, Atom.lines.injEq] at h
    simpa using congrArg List.length h.1
  | aligned =>
    simp only [ofTable, Atom.array.injEq, Table.mk.injEq] at h
    simpa using congrArg List.length h.1.2.1
  | _ =>
    simp only [ofTable, Atom.array.injEq] at h
    rw [h.1]

/-- The atom of a table shows what is in its last row. -/
theorem last_cells_of_ofTable {k : TableKind} {s t : Table Atom} {rows rows' : List (TableRow Atom)}
    {r r' : TableRow Atom} (hs : s.rows = rows ++ [r]) (ht : t.rows = rows' ++ [r'])
    (hl : r.cells.length = r'.cells.length) (h : k.ofTable s = k.ofTable t) :
    r.cells.map Cell.content = r'.cells.map Cell.content := by
  cases k with
  | lines align =>
    simp only [ofTable, Atom.lines.injEq, hs, ht, List.map_append, List.map_cons,
      List.map_nil] at h
    exact Atom.ofList_inj (by simpa using hl)
      (List.head_eq_of_cons_eq (List.append_inj_right' h.1 rfl))
  | aligned =>
    simp only [ofTable, Atom.array.injEq, Table.mk.injEq, hs, ht, List.map_append, List.map_cons,
      List.map_nil] at h
    have hr := List.head_eq_of_cons_eq (List.append_inj_right' h.1.2.1 rfl)
    have hc := mapSecond_inj (fun _ _ => startOrdinary_inj) (congrArg TableRow.cells hr)
    rw [hc]
  | _ =>
    simp only [ofTable, Atom.array.injEq] at h
    have hrows := congrArg Table.rows h.1
    rw [hs, ht] at hrows
    rw [List.head_eq_of_cons_eq (List.append_inj_right' hrows rfl)]

theorem finish_eq_ok_iff {k : TableKind} {b : TableBuilder} {a : Atom} :
    k.finish b = .ok a ↔ b.close.table.Fits ∧
      a = k.ofTable { b.close.table with
        rows := b.close.table.rows.map (TableBuilder.padRow b.close.columnCount) } := by
  rw [finish_eq]
  cases hc : b.checked with
  | error e =>
    have hf : ¬b.close.table.Fits := fun hf => by
      have := TableBuilder.checked_eq_ok_iff.mpr ⟨hf, rfl⟩
      rw [hc] at this
      cases this
    simp [Except.map, hf]
  | ok t =>
    obtain ⟨hf, rfl⟩ := TableBuilder.checked_eq_ok_iff.mp hc
    simp only [Except.map, Except.ok.injEq, hf, true_and]
    exact eq_comm

theorem isOk_finish_iff {k : TableKind} {b : TableBuilder} :
    (k.finish b).isOk = true ↔ b.close.table.Fits := by
  constructor
  · intro h
    cases hf : k.finish b with
    | ok a => exact (finish_eq_ok_iff.mp hf).1
    | error e =>
      rw [hf] at h
      cases h
  · intro h
    rw [finish_eq_ok_iff.mpr ⟨h, rfl⟩]
    rfl

/-- Whether an environment is sound does not depend on the atoms in its last cell. -/
theorem isOk_finish_cell (k : TableKind) (b : TableBuilder) (cell : List Atom) :
    (k.finish { b with cell }).isOk = (k.finish b).isOk := by
  rw [Bool.eq_iff_iff, isOk_finish_iff, isOk_finish_iff, TableBuilder.fits_close_iff,
    TableBuilder.fits_close_iff]

/-- The atom of an environment shows the atoms in its last cell. -/
theorem finish_cell_inj {k : TableKind} {b : TableBuilder} {cell cell' : List Atom} {a : Atom}
    (h : k.finish { b with cell } = .ok a) (h' : k.finish { b with cell := cell' } = .ok a) :
    cell = cell' := by
  rw [finish_eq_ok_iff] at h h'
  have ht := h.2.symm.trans h'.2
  have hrows := rows_length_of_ofTable ht
  simp only [TableBuilder.close_rows, List.length_map, List.length_append] at hrows
  rcases TableBuilder.lastRow_cases { b with cell } with ⟨hl, hc⟩ | hl <;>
    rcases TableBuilder.lastRow_cases { b with cell := cell' } with ⟨hl', hc'⟩ | hl'
  · exact hc.trans hc'.symm
  · simp [hl, hl'] at hrows
  · simp [hl, hl'] at hrows
  · rw [TableBuilder.close_columnCount_cell hl hl'] at ht
    have hcells := last_cells_of_ofTable (TableBuilder.map_close_rows hl _)
      (TableBuilder.map_close_rows hl' _) (by simp [TableBuilder.padRow, TableBuilder.addColumn]) ht
    simpa [TableBuilder.padRow, TableBuilder.addColumn] using hcells

end TableKind

end Typeset
