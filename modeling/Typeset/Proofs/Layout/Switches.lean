import Typeset.Proofs.Box.Opened
import Typeset.Proofs.Layout.Measured

/-!
# Color declarations do not change geometry

A color declaration only marks the atoms after it with a tint. So the row without it holds the same
boxes with the same space between them, wrapped in other tints.

* `RowItem.bare`: an item of a row without its tints. The boxes of a row depend on nothing else
  (`map_box_rowPieces`).
* `Atom.bareItems`: the bare items of atoms. A declaration gives those of the atoms after it in the
  environment that it makes, and a color makes none.
* `Atom.Uncolors`: some color declarations of a row give way to the atoms after them.
* `boxes_of_uncolors`: the row holds the same boxes as before.
-/

namespace Typeset

open Box

variable {α : Type} [Scalar α]

/-! ## Rows without their tints -/

/-- The item without its tints. -/
def RowItem.bare (item : RowItem α) : RowItem α := { item with marks := [] }

/-- The boxes of a row do not depend on the tints of its items. -/
theorem map_box_rowPieces (prev : Option (MathClass × List TintMark))
    (items : List (RowItem α × MathClass)) :
    (rowPieces prev items).map Tinted.box =
      (rowPieces (prev.map fun p => (p.1, [])) (items.map fun i => (i.1.bare, i.2))).map
        Tinted.box := by
  have hspace (left c : MathClass) (marks : List TintMark) (item : RowItem α) :
      (spaceBefore left marks item c).map Tinted.box =
        (spaceBefore left [] item.bare c).map Tinted.box := by
    by_cases hmu : (Glue.between left c).mu item.env.style = 0 <;>
      simp [spaceBefore, RowItem.bare, hmu]
  fun_induction rowPieces prev items with
  | case1 => rfl
  | case2 prev item rest ih => simpa [rowPieces, RowItem.bare] using ih
  | case3 prev item c rest hc ih =>
    rw [List.map_cons]
    conv_rhs => rw [rowPieces.eq_def]
    cases prev with
    | none => simpa [RowItem.bare] using ih
    | some p => simpa [RowItem.bare, hspace] using ih

/-- The boxes of a row, the space between them among them. -/
def rowBoxes (items : List (RowItem α)) : List (Box α) :=
  (rowPieces none (items.zip (resolveClasses (items.map RowItem.mathClass)))).map Tinted.box

theorem rowBoxes_bare (items : List (RowItem α)) :
    rowBoxes (items.map RowItem.bare) = rowBoxes items := by
  have hclasses : (items.map RowItem.bare).map RowItem.mathClass = items.map RowItem.mathClass := by
    simp [RowItem.bare, Function.comp_def]
  unfold rowBoxes
  rw [hclasses, map_box_rowPieces none (items.zip _), List.zip_map_left]
  rfl

theorem map_box_pieces_rowBox (hz : Scalar.isZero (0.0 : α) = true) (items : List (RowItem α)) :
    (rowBox items).pieces.map Tinted.box = openedBoxes (rowBoxes items) := by
  rw [map_box_pieces]
  exact openedBoxes_wrapTinted hz _

namespace Atom

/-! ## Atoms without their tints -/

omit [Scalar α] in
/-- The tints around a declaration do not matter for what the atoms after it are set in. -/
theorem enter_env (kind : SwitchKind) (env : Environment α) (marks marks' : List TintMark)
    (next next' : Nat) : (kind.enter env marks next).1 = (kind.enter env marks' next').1 := by
  cases kind <;> rfl

/-- The items of atoms without their tints. -/
def bareItems (atoms : List Atom) (env : Environment α) : List (RowItem α) :=
  (rowItems atoms env [] 0).1.map RowItem.bare

/-- The tints around atoms matter for nothing else in their items. -/
theorem map_bare_rowItems (atoms : List Atom) (env : Environment α) (marks marks' : List TintMark)
    (next next' : Nat) :
    (rowItems atoms env marks next).1.map RowItem.bare =
      (rowItems atoms env marks' next').1.map RowItem.bare := by
  cases atoms with
  | nil => simp [rowItems]
  | cons a atoms =>
    cases a with
    | switch kind body =>
      rw [rowItems, rowItems]
      simp only [List.map_append]
      rw [enter_env kind env marks marks' next next']
      congr 1
      · exact map_bare_rowItems body _ _ _ _ _
      · exact map_bare_rowItems atoms _ _ _ _ _
    | _ =>
      rw [rowItems, rowItems]
      · simp only [List.map_cons, RowItem.bare]
        congr 1
        exact map_bare_rowItems atoms _ _ _ _ _
      all_goals rintro _ _ ⟨⟩

theorem bareItems_eq (atoms : List Atom) (env : Environment α) (marks : List TintMark)
    (next : Nat) : (rowItems atoms env marks next).1.map RowItem.bare = bareItems atoms env :=
  map_bare_rowItems atoms env marks [] next 0

/-- A declaration gives the items of its atoms in the environment that it makes. -/
theorem bareItems_switch (kind : SwitchKind) (body atoms : List Atom) (env : Environment α) :
    bareItems (.switch kind body :: atoms) env =
      bareItems body (kind.enter env [] 0).1 ++ bareItems atoms env := by
  rw [bareItems, rowItems]
  simp only [List.map_append, bareItems_eq]

theorem bareItems_cons (a : Atom) (atoms : List Atom) (env : Environment α) :
    bareItems (a :: atoms) env = bareItems [a] env ++ bareItems atoms env := by
  cases a with
  | switch kind body =>
    rw [bareItems_switch, bareItems_switch]
    simp [bareItems, rowItems]
  | _ =>
    rw [bareItems, bareItems, rowItems, rowItems]
    · simp [bareItems_eq, rowItems]
    all_goals rintro _ _ ⟨⟩

theorem bareItems_append (as bs : List Atom) (env : Environment α) :
    bareItems (as ++ bs) env = bareItems as env ++ bareItems bs env := by
  induction as with
  | nil => simp [bareItems, rowItems]
  | cons a as ih =>
    rw [List.cons_append, bareItems_cons, ih, bareItems_cons a as, List.append_assoc]

/-! ## Rows without color declarations -/

/-- Some of the color declarations in a row, and in the declarations of the row at any depth, give
way to the atoms after them. -/
inductive Uncolors : List Atom → List Atom → Prop
  | nil : Uncolors [] []
  /-- An atom stays. -/
  | keep (a : Atom) {as bs : List Atom} (rest : Uncolors as bs) : Uncolors (a :: as) (a :: bs)
  /-- A declaration stays; there may be changes in it. -/
  | within (kind : SwitchKind) {body body' as bs : List Atom} (inner : Uncolors body body')
      (rest : Uncolors as bs) : Uncolors (.switch kind body :: as) (.switch kind body' :: bs)
  /-- A color declaration gives way. -/
  | drop (c : Color) {body body' as bs : List Atom} (inner : Uncolors body body')
      (rest : Uncolors as bs) : Uncolors (.switch (.color c) body :: as) (body' ++ bs)

/-- The items are the same but for their tints. -/
theorem Uncolors.bareItems_eq {as bs : List Atom} (h : Uncolors as bs) (env : Environment α) :
    bareItems as env = bareItems bs env := by
  induction h generalizing env with
  | nil => rfl
  | keep a _ ih =>
    rw [bareItems_cons, ih, ← bareItems_cons]
  | within kind _ _ ihb ih => rw [bareItems_switch, bareItems_switch, ihb, ih]
  | drop c _ _ ihb ih =>
    -- A color leaves the environment as it is.
    rw [bareItems_switch, bareItems_append, ← ihb, ← ih]
    rfl

theorem Uncolors.rowBoxes_eq {as bs : List Atom} (h : Uncolors as bs) (env : Environment α) :
    rowBoxes (rowItems as env [] 0).1 = rowBoxes (rowItems bs env [] 0).1 := by
  have hbare := h.bareItems_eq env
  unfold bareItems at hbare
  rw [← rowBoxes_bare, hbare, rowBoxes_bare]

end Atom

/-- **Color declarations do not change geometry.** Where color declarations of a row give way to the
atoms after them, any number of them and at any depth of declarations, the row holds the same boxes
as before, once its colored rows are opened: the same boxes of atoms, with the same space between
them, as wide and as breakable. With exact lengths the row also has the same width, height and
depth. -/
theorem boxes_of_uncolors {as bs : List Atom} (h : Atom.Uncolors as bs) :
    (∀ {α : Type} [Scalar α], Scalar.isZero (0.0 : α) = true → ∀ env : Environment α,
      ((Atom.row as).layout env).pieces.map Tinted.box =
        ((Atom.row bs).layout env).pieces.map Tinted.box) ∧
    ∀ env : Environment Rat,
      ((Atom.row as).layout env).width = ((Atom.row bs).layout env).width ∧
      ((Atom.row as).layout env).height = ((Atom.row bs).layout env).height ∧
      ((Atom.row as).layout env).depth = ((Atom.row bs).layout env).depth := by
  have hmeasures (items : List (RowItem Rat)) :
      (rowBox items).width = (hbox (rowBoxes items)).width ∧
        (rowBox items).height = (hbox (rowBoxes items)).height ∧
        (rowBox items).depth = (hbox (rowBoxes items)).depth := measures_hbox_wrapTinted _
  refine ⟨fun hz env => ?_, fun env => ?_⟩
  · simp only [Atom.layout, map_box_pieces_rowBox hz, h.rowBoxes_eq env]
  · simp only [Atom.layout, hmeasures, h.rowBoxes_eq env, and_self]

/-- A sum whose sign stands in a color, inside a declaration of a style. -/
theorem boxes_of_uncolors_sum :
    let x : Atom := .ofChar 'x'
    let red : Color := { r := 255, g := 0, b := 0, a := 255 }
    let colored := [x, .switch (.style .text) [.switch (.color red) [.ofChar '+'], x]]
    let plain := [x, .switch (.style .text) [.ofChar '+', x]]
    let env : Environment Float := { style := .display, size := 20.0 }
    Atom.Uncolors colored plain ∧ Scalar.isZero (0.0 : Float) = true ∧
      ((Atom.row colored).layout env).pieces.map Tinted.box =
        ((Atom.row plain).layout env).pieces.map Tinted.box := by
  intro x red colored plain env
  have h : Atom.Uncolors colored plain :=
    .keep x (.within _ (.drop red (.keep _ .nil) (.keep x .nil)) .nil)
  exact ⟨h, by decide, (boxes_of_uncolors h).1 (by decide) env⟩

end Typeset
