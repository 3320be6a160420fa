import Typeset.Layout
import Typeset.Proofs.Atom.Fits
import Typeset.Proofs.Table.Builder

/-!
# Checked tables

The body of an environment becomes a table with a cell in every column of every row, and such a
table has a box.

* `Table.IsChecked.exists_layout`: a checked table can be laid out in every environment.
* `TableKind.exists_of_finish`: the table that the body of an environment becomes.
* `TableKind.isBuilt_ofTable`, `Atom.Spares.pick_ofTable`: the atom of a checked table fits together
  and has the parts of its cells.
-/

namespace Typeset

namespace Table

variable {A : Type}

/-- The longest of rows of one length has that length. -/
theorem longest_of_forall {rows : List (TableRow A)} {n : Nat} (hne : rows ≠ [])
    (h : ∀ r ∈ rows, r.cells.length = n) : longest rows = n := by
  have hfold (rows : List (TableRow A)) (h : ∀ r ∈ rows, r.cells.length = n) (m : Nat)
      (hm : m ≤ n) :
      rows.foldl (fun n r => max n r.cells.length) m = if rows = [] then m else n := by
    induction rows generalizing m with
    | nil => rfl
    | cons r rows ih =>
      have hr : max m r.cells.length = n := by
        rw [h r (by simp)]
        omega
      rw [List.foldl_cons, hr, ih (fun r hr => h r (by simp [hr])) n (Nat.le_refl n)]
      simp
  rw [longest, hfold rows h 0 (Nat.zero_le n), if_neg hne]

/-- A table whose rows are all as long as its number of columns was before is checked. -/
theorem isChecked_of_forall {t : Table A} {rows : List (TableRow A)}
    (h : ∀ r ∈ rows, r.cells.length = t.columnCount) : ({ t with rows }).IsChecked := by
  intro r hr
  rw [h r hr, columnCount, columnCount]
  cases hd : t.format.declared with
  | some n => rfl
  | none =>
    rw [columnCount, hd] at h
    exact (longest_of_forall (List.ne_nil_of_mem hr) h).symm

/-- A checked table is laid out in its own number of columns. -/
theorem IsChecked.layoutColumns_eq {t : Table A} (h : t.IsChecked) :
    layoutColumns t = t.columnCount := by
  unfold layoutColumns
  cases hd : t.format.declared with
  | some n => rw [columnCount, hd, Option.getD_some, Option.getD_some]
  | none =>
    cases hrows : t.rows with
    | nil => rw [columnCount, hd, hrows]; rfl
    | cons first rows => simp [h first (by simp [hrows])]

theorem firstUneven_eq_none_iff {columns : Nat} {rows : List (TableRow A)} (index : Nat) :
    firstUneven columns index rows = none ↔ ∀ r ∈ rows, r.cells.length = columns := by
  induction rows generalizing index with
  | nil => simp [firstUneven]
  | cons r rows ih =>
    rw [firstUneven, List.forall_mem_cons, ← ih (index + 1)]
    split <;> simp [*]

/-- No row of a checked table is uneven. -/
theorem IsChecked.firstUneven_eq_none {t : Table A} (h : t.IsChecked) :
    firstUneven (layoutColumns t) 0 t.rows = none :=
  (firstUneven_eq_none_iff 0).mpr fun r hr => (h r hr).trans h.layoutColumns_eq.symm

/-- A checked table has a box in every environment. -/
theorem IsChecked.exists_layout {t : Table Atom} (h : t.IsChecked) {α : Type} [Scalar α]
    (o : TableOptions) (env : Environment α) : ∃ b, t.layout o env = .ok b := by
  simp only [layout, tableBox, h.firstUneven_eq_none]
  split
  · exact ⟨_, rfl⟩
  · exact ⟨_, rfl⟩

end Table

theorem TableBuilder.padRow_length {columns : Nat} {r : TableRow Atom}
    (h : r.cells.length ≤ columns) : (padRow columns r).cells.length = columns := by
  simp only [padRow, List.length_append, List.length_replicate]
  omega

theorem TableKind.mapSecond_length {A : Type} (f : A → A) (as : List A) :
    (mapSecond f as).length = as.length := by
  fun_induction mapSecond f as with
  | case1 a b rest ih => simp [ih]
  | case2 => rfl

/-- The atom of an environment is made of the checked table of its body. -/
theorem TableKind.exists_of_finish {kind : TableKind} {b : TableBuilder} {a : Atom}
    (h : kind.finish b = .ok a) :
    ∃ t : Table Atom, t.IsChecked ∧ a = kind.ofTable t ∧
      t.rows = b.close.table.rows.map (TableBuilder.padRow b.close.columnCount) := by
  obtain ⟨hfits, rfl⟩ := finish_eq_ok_iff.mp h
  refine ⟨_, Table.isChecked_of_forall ?_, rfl, rfl⟩
  simp only [List.mem_map, forall_exists_index, and_imp, forall_apply_eq_imp_iff₂]
  exact fun r hr => TableBuilder.padRow_length (hfits r hr)

/-- The atom of a checked table fits together. -/
theorem TableKind.isBuilt_ofTable (kind : TableKind) {t : Table Atom} (h : t.IsChecked) :
    (kind.ofTable t).isBuilt = true := by
  cases kind with
  | lines align => rfl
  | aligned =>
    have hs : ({ t with rows := t.rows.map fun r =>
        { r with cells := mapSecond startOrdinary r.cells } } : Table Atom).IsChecked := by
      refine Table.isChecked_of_forall ?_
      simp only [List.mem_map, forall_exists_index, and_imp, forall_apply_eq_imp_iff₂,
        mapSecond_length]
      exact h
    simpa [ofTable, Atom.isBuilt, Atom.isSymbol, Atom.fits, Atom.hasScript] using hs
  | _ => simpa [ofTable, Atom.isBuilt, Atom.isSymbol, Atom.fits, Atom.hasScript] using h

namespace Atom

variable {p : Atom → Bool}

/-- An invisible atom at the start of a cell is not picked. -/
theorem Spares.pick_startOrdinary (hp : Spares p) (c : Cell Atom) :
    (TableKind.startOrdinary c).content.pick p = c.content.pick p := by
  unfold TableKind.startOrdinary
  split
  · rename_i a atoms hc
    simp [hc, hp.pick_row]
  · rfl

theorem Spares.pickAll_mapSecond (hp : Spares p) (cells : List (Cell Atom)) :
    pickAll p ((TableKind.mapSecond TableKind.startOrdinary cells).map Cell.content) =
      pickAll p (cells.map Cell.content) := by
  fun_induction TableKind.mapSecond TableKind.startOrdinary cells with
  | case1 a b rest ih => simp [ih, hp.pick_startOrdinary]
  | case2 => rfl

/-- The atom of a checked table has the parts of its cells. -/
theorem Spares.pick_ofTable (hp : Spares p) (kind : TableKind) {t : Table Atom}
    (h : t.IsChecked) : (kind.ofTable t).pick p = pickAll p t.contents := by
  rw [hp.pick (kind.isBuilt_ofTable h)]
  have hrows (f : TableRow Atom → List Atom) (rows : List (TableRow Atom))
      (hf : ∀ r, pickAll p (f r) = pickAll p (r.cells.map Cell.content)) :
      pickAll p (rows.flatMap f) = pickAll p (rows.flatMap fun r => r.cells.map Cell.content) := by
    induction rows with
    | nil => rfl
    | cons r rows ih => simp [hf, ih]
  cases kind with
  | lines align =>
    have hlines := hrows (fun r => [ofList (r.cells.map Cell.content)]) t.rows
      fun r => by simp [hp.pick_ofList]
    simpa [TableKind.ofTable, children, Table.contents, ← List.map_eq_flatMap] using hlines
  | aligned =>
    have haligned := hrows (fun r => (TableKind.mapSecond TableKind.startOrdinary r.cells).map
      Cell.content) t.rows fun r => hp.pickAll_mapSecond r.cells
    simpa [TableKind.ofTable, children, Table.contents, List.flatMap_map] using haligned
  | _ => rfl

end Atom

end Typeset
