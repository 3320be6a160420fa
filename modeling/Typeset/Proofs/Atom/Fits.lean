import Typeset.Proofs.Atom.Parts
import Typeset.Proofs.Nest.Sound

/-!
# Atoms that fit together

What holds of every atom that a parse puts together, apart from signs, which it only passes on.

* `Atom.fits`: the children of an atom go together.
* `Atom.isBuilt`: the atom is no sign, it fits, and scripts are not missing.
* `Atom.Spares`: a predicate that picks no such atom. It picks as much out of one as out of its
  children (`Atom.Spares.pick`), so putting atoms together keeps the parts that it picks.
-/

namespace Typeset

instance {A : Type} (t : Table A) : Decidable t.IsChecked :=
  inferInstanceAs (Decidable (∀ r ∈ t.rows, r.cells.length = t.columnCount))

namespace Atom

/-- The atom is a sign. -/
def isSymbol : Atom → Bool
  | .symbol .. => true
  | _ => false

/-- Scripts stand on a base that has none, a fence has one more segment than inner delimiters, and
a table has a cell in every column of every row. -/
def fits : Atom → Bool
  | .scripts base _ _ => !base.isScripts
  | .fenced _ _ segments middles => segments.length == middles.length + 1
  | .array table _ => decide table.IsChecked
  | _ => true

/-- An atom for scripts has one. -/
def hasScript : Atom → Bool
  | .scripts _ sup sub => sup.isSome || sub.isSome
  | _ => true

/-- The atom is one that a parse puts together. -/
def isBuilt (a : Atom) : Bool := !a.isSymbol && a.fits && a.hasScript

/-- Any children fit the atom, and it is no sign. -/
def isSimple : Atom → Bool
  | .symbol .. | .scripts .. | .fenced .. | .array .. => false
  | _ => true

theorem isBuilt_of_isSimple {a : Atom} (h : a.isSimple = true) : a.isBuilt = true := by
  cases a <;> first | rfl | cases h

/-- The predicate picks no atom that a parse puts together. -/
def Spares (p : Atom → Bool) : Prop := ∀ a : Atom, a.isBuilt = true → p a = false

theorem spares_isSymbol : Spares isSymbol := by
  intro a h
  cases a <;> first | rfl | cases h

variable {p : Atom → Bool} {a : Atom}

theorem Spares.pick (hp : Spares p) (h : a.isBuilt = true) : a.pick p = pickAll p a.children :=
  pick_of_not (hp a h)

theorem Spares.pick_simple (hp : Spares p) (h : a.isSimple = true) :
    a.pick p = pickAll p a.children :=
  hp.pick (isBuilt_of_isSimple h)

theorem Spares.pick_of_child (hp : Spares p) {b : Atom} (h : a.isSimple = true)
    (hc : a.children = [b]) : a.pick p = b.pick p := by
  rw [hp.pick_simple h, hc]
  simp

theorem Spares.pick_row (hp : Spares p) (atoms : List Atom) :
    (row atoms).pick p = pickAll p atoms :=
  hp.pick_simple rfl

theorem Spares.pick_fraction (hp : Spares p) (num den : Atom) (rule : Bool) :
    (fraction num den rule).pick p = num.pick p + den.pick p := by
  rw [hp.pick_simple rfl]
  simp [children]

theorem Spares.pick_fenced (hp : Spares p) {left right : Delimiter} {segments : List Atom}
    {middles : List Delimiter} (h : segments.length = middles.length + 1) :
    (fenced left right segments middles).pick p = pickAll p segments :=
  hp.pick (by simp [isBuilt, isSymbol, fits, hasScript, h])

theorem Spares.pick_scripts (hp : Spares p) {base : Atom} {sup sub : Option Atom}
    (hb : base.isScripts = false) (h : (scripts base sup sub).hasScript = true) :
    (scripts base sup sub).pick p =
      base.pick p + pickAll p sup.toList + pickAll p sub.toList := by
  rw [hp.pick (by simp [isBuilt, isSymbol, fits, hb, h])]
  simp [children, add_assoc]

/-- One atom for several has what is picked out of them. -/
theorem Spares.pick_ofList (hp : Spares p) (atoms : List Atom) :
    (ofList atoms).pick p = pickAll p atoms := by
  unfold ofList
  split
  · simp
  · exact hp.pick_row _

theorem Spares.pick_unwrapped (hp : Spares p) (a : Atom) : a.unwrapped.pick p = a.pick p := by
  cases a with
  | row atoms => rw [unwrapped, hp.pick_ofList, hp.pick_row]
  | _ => rfl

/-- The atom of a group has what is picked out of its lines and its row. -/
theorem Spares.pick_groupAtom (hp : Spares p) (atoms lines : List Atom) :
    (groupAtom atoms lines).pick p = pickAll p lines + pickAll p atoms := by
  unfold groupAtom
  split
  · simp [hp.pick_row]
  · rw [hp.pick_simple rfl]
    simp [children, hp.pick_row]

/-- An atom after primes stands in one row with them. -/
theorem Spares.pick_afterPrimes (hp : Spares p) (primes a : Atom) :
    (afterPrimes primes a).pick p = primes.pick p + a.pick p := by
  unfold afterPrimes
  split <;> simp [hp.pick_row]

end Atom

end Typeset
