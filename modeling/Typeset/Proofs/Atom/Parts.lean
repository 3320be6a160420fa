import Mathlib.Algebra.BigOperators.Group.List.Basic
import Mathlib.Algebra.Order.Group.Multiset
import Mathlib.Tactic.Abel
import Typeset.Atom

/-!
# Parts of atoms

An atom with everything inside it, and the parts of one sort.

* `Atom.parts`: the atom and everything inside it; `Atom.inside_eq` leads it back to the children.
* `Atom.pick`: the parts that a predicate picks out, as a multiset; `Atom.pickAll` for several
  atoms. An atom that is not picked itself has those of its children (`Atom.pick_of_not`).
-/

namespace Typeset

namespace Atom

/-! ## Everything inside an atom -/

mutual

/-- Everything inside the atom, in reading order. -/
def inside : Atom → List Atom
  | .row atoms | .switch _ atoms | .fenced _ _ atoms _ | .lines atoms _ => partsOfAll atoms
  | .scripts base sup sub => base :: (base.inside ++ partsOfOption sup ++ partsOfOption sub)
  | .fraction num den _ => num :: num.inside ++ den :: den.inside
  | .radical body degree => body :: (body.inside ++ partsOfOption degree)
  | .color body _ _ | .framed body _ _ _ | .styled _ body | .font _ body | .classed _ body
  | .decorated body _ | .limits body _ | .vcentered body => body :: body.inside
  | .array table _ => partsOfRows table.rows
  | .empty | .symbol .. | .bigDelimiter .. | .space _ | .text .. | .operator .. | .rule ..
  | .hrule _ | .cellColor _ | .rowColor _ => []

/-- An atom that may be missing, and everything inside it. -/
def partsOfOption : Option Atom → List Atom
  | none => []
  | some a => a :: a.inside

/-- Atoms, and everything inside them. -/
def partsOfAll : List Atom → List Atom
  | [] => []
  | a :: atoms => a :: (a.inside ++ partsOfAll atoms)

/-- The contents of cells, and everything inside them. -/
def partsOfCells : List (Cell Atom) → List Atom
  | [] => []
  | ⟨content, _⟩ :: cells => content :: (content.inside ++ partsOfCells cells)

/-- The contents of rows of cells, and everything inside them. -/
def partsOfRows : List (TableRow Atom) → List Atom
  | [] => []
  | ⟨cells, _, _, _⟩ :: rows => partsOfCells cells ++ partsOfRows rows

end

/-- The atom and everything inside it, in reading order. -/
def parts (a : Atom) : List Atom := a :: a.inside

theorem partsOfOption_eq (o : Option Atom) : partsOfOption o = o.toList.flatMap parts := by
  cases o <;> simp [partsOfOption, parts]

theorem partsOfAll_eq (atoms : List Atom) : partsOfAll atoms = atoms.flatMap parts := by
  induction atoms with
  | nil => rfl
  | cons a atoms ih => simp [partsOfAll, parts, ih]

theorem partsOfCells_eq (cells : List (Cell Atom)) :
    partsOfCells cells = (cells.map Cell.content).flatMap parts := by
  induction cells with
  | nil => rfl
  | cons c cells ih => simp [partsOfCells, parts, ih]

theorem partsOfRows_eq (rows : List (TableRow Atom)) :
    partsOfRows rows = (rows.flatMap fun r => r.cells.map Cell.content).flatMap parts := by
  induction rows with
  | nil => rfl
  | cons r rows ih => simp [partsOfRows, partsOfCells_eq, ih]

/-- What is inside an atom is its children and what is inside them. -/
theorem inside_eq (a : Atom) : a.inside = a.children.flatMap parts := by
  cases a with
  | array table options => exact partsOfRows_eq table.rows
  | _ => simp [inside, children, parts, partsOfOption_eq, partsOfAll_eq]

/-- The parts of a child are parts of the atom. -/
theorem mem_parts_of_mem_children {a b p : Atom} (hb : b ∈ a.children) (hp : p ∈ b.parts) :
    p ∈ a.parts := by
  refine List.mem_cons_of_mem _ ?_
  rw [inside_eq]
  exact List.mem_flatMap.mpr ⟨b, hb, hp⟩

/-! ## The parts of one sort -/

variable (p : Atom → Bool)

/-- The parts of the atom that `p` picks out. -/
def pick (a : Atom) : Multiset Atom := ↑(a.parts.filter p)

/-- The parts of atoms that `p` picks out. -/
def pickAll (atoms : List Atom) : Multiset Atom := (atoms.map (pick p)).sum

@[simp] theorem pickAll_nil : pickAll p [] = 0 := rfl

@[simp] theorem pickAll_cons (a : Atom) (atoms : List Atom) :
    pickAll p (a :: atoms) = a.pick p + pickAll p atoms := by
  simp [pickAll]

@[simp] theorem pickAll_append (as bs : List Atom) :
    pickAll p (as ++ bs) = pickAll p as + pickAll p bs := by
  simp [pickAll]

/-- What is picked out of atoms one by one is picked out of them all. -/
theorem pickAll_eq_filter (atoms : List Atom) :
    pickAll p atoms = ↑((atoms.flatMap parts).filter p) := by
  induction atoms with
  | nil => rfl
  | cons a atoms ih =>
    rw [pickAll_cons, ih, pick, List.flatMap_cons, List.filter_append, Multiset.coe_add]

variable {p} {a : Atom}

theorem mem_pick {b : Atom} : b ∈ a.pick p ↔ b ∈ a.parts ∧ p b = true := by
  simp [pick]

theorem mem_pickAll {b : Atom} {atoms : List Atom} :
    b ∈ pickAll p atoms ↔ (∃ a ∈ atoms, b ∈ a.parts) ∧ p b = true := by
  simp [pickAll_eq_filter]

theorem pick_eq_zero : a.pick p = 0 ↔ ∀ b ∈ a.parts, p b = false := by
  simp [pick]

/-- An atom that is not picked itself has what is picked out of its children. -/
theorem pick_of_not (h : p a = false) : a.pick p = pickAll p a.children := by
  rw [pickAll_eq_filter, ← inside_eq, pick, parts, List.filter_cons_of_neg (by simp [h])]

end Atom

end Typeset
