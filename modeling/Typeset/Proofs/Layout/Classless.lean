import Mathlib.Data.List.Pairwise
import Mathlib.Data.List.Triplewise
import Typeset.Layout
import Typeset.Proofs.Box.Padded
import Typeset.Proofs.Layout.Classes
import Typeset.Proofs.Number.Sums

/-!
# Atoms without a class

An atom that takes no part in spacing may stand anywhere in a row: all other atoms keep their class
and their box, and the spaces between them stay as they are.

* `RowPart`: an atom of a row, or the space between two of them. `Atom.rowParts` are the parts of a
  row; its box holds their boxes (`Atom.layout_row`).
* `Atom.Pads`: a row with atoms put in, at any depth of its declarations.
* `nextClass_of_padded`, `padded_resolved`: the classes around them are resolved as before.
* `Atom.Pads.padded_rowParts`: the parts of the row are those from before.
* `RowItem.Nested`: the tints of the atoms in a row are nested (`Atom.nested_rowItems`), so that an
  atom that is put in splits no run of a tint (`pads_rowPieces`).
* `row_of_pads`: all of it; and atoms of no size do not change the measures of the row.
-/

namespace Typeset

open Box

variable {α : Type} [Scalar α]

/-! ## The parts of a row -/

/-- A part of a row. -/
inductive RowPart (α : Type) where
  /-- An atom with the class that it resolves to. -/
  | atom (item : RowItem α) (mathClass : MathClass)
  /-- The space between two atoms, each with its class. -/
  | space (left right : RowItem α × MathClass) (piece : Tinted α)

/-- The box of an item in its tints. -/
def RowItem.piece (item : RowItem α) : Tinted α := { box := item.box, marks := item.marks }

/-- The box of a part in its tints. -/
def RowPart.piece : RowPart α → Tinted α
  | .atom item _ => item.piece
  | .space _ _ piece => piece

/-- The space between an atom and the last one before it that takes part in spacing. -/
def spaceParts (prev : Option (RowItem α × MathClass)) (right : RowItem α × MathClass) :
    List (RowPart α) :=
  match prev with
  | none => []
  | some left => (spaceBefore left.2 left.1.marks right.1 right.2).map (.space left right)

/-- The parts of a row from the items with resolved classes, after `prev`. -/
def partsAfter (prev : Option (RowItem α × MathClass)) :
    List (RowItem α × MathClass) → List (RowPart α)
  | [] => []
  | (item, .none) :: rest => .atom item .none :: partsAfter prev rest
  | (item, c) :: rest =>
    spaceParts prev (item, c) ++ .atom item c :: partsAfter (some (item, c)) rest

theorem partsAfter_cons (prev : Option (RowItem α × MathClass)) (item : RowItem α) {c : MathClass}
    (h : c ≠ .none) (rest : List (RowItem α × MathClass)) :
    partsAfter prev ((item, c) :: rest) =
      spaceParts prev (item, c) ++ .atom item c :: partsAfter (some (item, c)) rest := by
  cases c with
  | none => exact absurd rfl h
  | _ => rfl

/-- An item with a class stands behind the space that its class asks for. -/
theorem rowPieces_cons (prev : Option (MathClass × List TintMark)) (item : RowItem α)
    {c : MathClass} (h : c ≠ .none) (rest : List (RowItem α × MathClass)) :
    rowPieces prev ((item, c) :: rest) =
      (prev.elim [] fun left => spaceBefore left.1 left.2 item c) ++
        item.piece :: rowPieces (some (c, item.marks)) rest := by
  cases c with
  | none => exact absurd rfl h
  | _ => cases prev <;> rfl

/-- The parts of a row have its pieces. -/
theorem map_piece_partsAfter (prev : Option (RowItem α × MathClass))
    (items : List (RowItem α × MathClass)) :
    (partsAfter prev items).map RowPart.piece =
      rowPieces (prev.map fun left => (left.2, left.1.marks)) items := by
  have hspace (prev : Option (RowItem α × MathClass)) (item : RowItem α) (c : MathClass) :
      (spaceParts prev (item, c)).map RowPart.piece =
        (prev.map fun left => (left.2, left.1.marks)).elim [] fun left =>
          spaceBefore left.1 left.2 item c := by
    cases prev with
    | none => rfl
    | some left =>
      rw [spaceParts, List.map_map]
      exact List.map_id' _
  fun_induction partsAfter prev items with
  | case1 => rfl
  | case2 prev item rest ih => rw [List.map_cons, ih]; rfl
  | case3 prev item c rest hc ih =>
    rw [List.map_append, List.map_cons, ih, hspace, rowPieces_cons _ _ hc]
    rfl

/-- The items with the classes that they resolve to. -/
def resolvedItems (items : List (RowItem α)) : List (RowItem α × MathClass) :=
  items.zip (resolveClasses (items.map RowItem.mathClass))

namespace Atom

/-- The parts of a row of atoms. -/
def rowParts (atoms : List Atom) (env : Environment α) : List (RowPart α) :=
  partsAfter none (resolvedItems (rowItems atoms env [] 0).1)

theorem layout_row (atoms : List Atom) (env : Environment α) :
    (row atoms).layout env = hbox (wrapTinted ((rowParts atoms env).map RowPart.piece)) := by
  rw [rowParts, map_piece_partsAfter, layout]
  rfl

/-! ## Atoms put in -/

/-- The atom is a declaration. -/
def isDeclaration : Atom → Bool
  | .switch _ _ => true
  | _ => false

/-- The atom takes no part in spacing, and is no declaration. -/
def IsClassless (a : Atom) : Prop := a.mathClass = .none ∧ a.isDeclaration = false

/-- The atom is nothing, or marks a rule or a color of the table around. -/
def isBoxless : Atom → Bool
  | .empty | .hrule _ | .cellColor _ | .rowColor _ => true
  | _ => false

/-- The second row is the first one with further atoms put in, each of which has `P`, also in the
declarations of the row at any depth. -/
inductive Pads (P : Atom → Prop) : List Atom → List Atom → Prop
  | nil : Pads P [] []
  | keep (a : Atom) {as bs : List Atom} (rest : Pads P as bs) : Pads P (a :: as) (a :: bs)
  | within (kind : SwitchKind) {body body' as bs : List Atom} (inner : Pads P body body')
    (rest : Pads P as bs) : Pads P (.switch kind body :: as) (.switch kind body' :: bs)
  | pad {a : Atom} (h : P a) {as bs : List Atom} (rest : Pads P as bs) : Pads P as (a :: bs)

theorem isClassless_of_isBoxless {a : Atom} (h : a.isBoxless = true) : a.IsClassless := by
  cases a with
  | empty | hrule | cellColor | rowColor => exact ⟨rfl, rfl⟩
  | _ => cases h

theorem layout_of_isBoxless {a : Atom} (h : a.isBoxless = true) (env : Environment α) :
    a.layout env = Box.empty := by
  cases a with
  | empty | hrule | cellColor | rowColor => simp only [layout]
  | _ => cases h

/-- The item of an atom that is no declaration. -/
def rowItem (a : Atom) (env : Environment α) (marks : List TintMark) : RowItem α :=
  { mathClass := a.mathClass, env, marks, box := a.layout env }

theorem rowItems_cons {a : Atom} (h : a.isDeclaration = false) (atoms : List Atom)
    (env : Environment α) (marks : List TintMark) (next : Nat) :
    rowItems (a :: atoms) env marks next =
      (a.rowItem env marks :: (rowItems atoms env marks next).1,
        (rowItems atoms env marks next).2) := by
  cases a with
  | switch => cases h
  | _ =>
    rw [rowItems]
    · rfl
    · rintro _ _ ⟨⟩

theorem rowItems_switch (kind : SwitchKind) (body atoms : List Atom) (env : Environment α)
    (marks : List TintMark) (next : Nat) :
    rowItems (.switch kind body :: atoms) env marks next =
      let inner := kind.enter env marks next
      let first := rowItems body inner.1 inner.2.1 inner.2.2
      let rest := rowItems atoms env marks first.2
      (first.1 ++ rest.1, rest.2) := by
  rw [rowItems]

end Atom

/-- The item is that of an atom with `P`. -/
def RowItem.IsOf (P : Atom → Prop) (item : RowItem α) : Prop :=
  ∃ a env marks, P a ∧ item = a.rowItem env marks

theorem RowItem.IsOf.mathClass_eq_none {P : Atom → Prop} (hP : ∀ a, P a → a.mathClass = .none)
    {i : RowItem α} (h : i.IsOf P) : i.mathClass = .none := by
  obtain ⟨a, env, marks, ha, rfl⟩ := h
  exact hP a ha

/-- The items of a row with atoms put in are those of the row and of these atoms. Color declarations
are numbered as before. -/
theorem Atom.Pads.padded_rowItems {P : Atom → Prop} (hP : ∀ a, P a → a.isDeclaration = false)
    {as bs : List Atom} (h : Atom.Pads P as bs) (env : Environment α) (marks : List TintMark)
    (next : Nat) :
    Padded (RowItem.IsOf P) (rowItems as env marks next).1 (rowItems bs env marks next).1 ∧
      (rowItems as env marks next).2 = (rowItems bs env marks next).2 := by
  induction h generalizing env marks next with
  | nil => exact ⟨.refl _ _, rfl⟩
  | keep a _ ih =>
    cases ha : a.isDeclaration with
    | false =>
      rw [rowItems_cons ha, rowItems_cons ha]
      exact ⟨.keep _ (ih env marks next).1, (ih env marks next).2⟩
    | true =>
      cases a with
      | switch kind body =>
        rw [rowItems_switch, rowItems_switch]
        exact ⟨(Padded.refl _ _).append (ih _ _ _).1, (ih _ _ _).2⟩
      | _ => cases ha
  | within kind _ _ ihbody ih =>
    rw [rowItems_switch, rowItems_switch]
    simp only
    rw [(ihbody _ _ _).2]
    exact ⟨(ihbody _ _ _).1.append (ih _ _ _).1, (ih _ _ _).2⟩
  | pad ha _ ih =>
    rw [rowItems_cons (hP _ ha)]
    exact ⟨.pad ⟨_, env, marks, ha, rfl⟩ (ih env marks next).1, (ih env marks next).2⟩

/-! ## Resolved classes -/

section Resolved

variable {P : RowItem α → Prop} {xs ys : List (RowItem α)}

omit [Scalar α] in
/-- The next class that takes part in spacing is the same. -/
theorem nextClass_of_padded (hP : ∀ i, P i → i.mathClass = .none) (h : Padded P xs ys) :
    nextClass (xs.map RowItem.mathClass) = nextClass (ys.map RowItem.mathClass) := by
  induction h with
  | nil => rfl
  | keep i _ ih =>
    rw [List.map_cons, List.map_cons]
    by_cases hi : i.mathClass = .none
    · rw [hi]
      exact ih
    · rw [nextClass_cons hi, nextClass_cons hi]
  | pad hi _ ih =>
    rw [List.map_cons, hP _ hi]
    exact ih

omit [Scalar α] in
/-- Classes are resolved to the same after the same class, whatever stands between them that takes
no part. -/
theorem padded_resolved (hP : ∀ i, P i → i.mathClass = .none) (h : Padded P xs ys)
    (prev : Option MathClass) :
    Padded (fun i => P i.1 ∧ i.2 = .none) (xs.zip (resolveFrom prev (xs.map RowItem.mathClass)))
      (ys.zip (resolveFrom prev (ys.map RowItem.mathClass))) := by
  induction h generalizing prev with
  | nil => exact .nil
  | @keep i xs ys hrest ih =>
    rw [List.map_cons, List.map_cons]
    by_cases hi : i.mathClass = .none
    · rw [hi]
      exact .keep _ (ih prev)
    · have hclass : resolveClass prev i.mathClass (xs.map RowItem.mathClass) =
          resolveClass prev i.mathClass (ys.map RowItem.mathClass) := by
        unfold resolveClass
        rw [nextClass_of_padded hP hrest]
      rw [resolveFrom_cons hi, resolveFrom_cons hi, hclass]
      exact .keep _ (ih _)
  | pad hi _ ih =>
    rw [List.map_cons, hP _ hi]
    exact .pad ⟨hi, rfl⟩ (ih prev)

end Resolved

/-- The spaces, and the atoms on both sides of them, are the same. -/
theorem padded_partsAfter {P : RowItem α → Prop} {xs ys : List (RowItem α × MathClass)}
    (h : Padded (fun i => P i.1 ∧ i.2 = .none) xs ys) (prev : Option (RowItem α × MathClass)) :
    Padded (fun p => ∃ i, P i ∧ p = .atom i .none) (partsAfter prev xs) (partsAfter prev ys) := by
  induction h generalizing prev with
  | nil => exact .nil
  | keep i _ ih =>
    obtain ⟨item, c⟩ := i
    by_cases hc : c = .none
    · subst hc
      exact .keep _ (ih prev)
    · rw [partsAfter_cons _ _ hc, partsAfter_cons _ _ hc]
      exact (Padded.refl _ _).append (.keep _ (ih _))
  | @pad i hi _ _ _ ih =>
    obtain ⟨item, c⟩ := i
    obtain ⟨hitem, rfl⟩ := hi
    exact .pad ⟨item, hitem, rfl⟩ (ih prev)

/-! ## Tints -/

section Marks

omit [Scalar α]

theorem sharedMarks_append (marks ms ns : List TintMark) :
    sharedMarks (marks ++ ms) (marks ++ ns) = marks ++ sharedMarks ms ns := by
  induction marks with
  | nil => rfl
  | cons m marks ih => rw [List.cons_append, List.cons_append, sharedMarks, if_pos rfl, ih]; rfl

theorem sharedMarks_eq_nil {ms ns : List TintMark} (h : ∀ m ∈ ms, ∀ n ∈ ns, m.id ≠ n.id) :
    sharedMarks ms ns = [] := by
  cases ms with
  | nil => rfl
  | cons m ms =>
    cases ns with
    | nil => rfl
    | cons n ns => exact if_neg (h m List.mem_cons_self n List.mem_cons_self)

/-- No more is shared with what a chain shares with another than with the other. -/
theorem length_sharedMarks_sharedMarks_le (ks ms ns : List TintMark) :
    (sharedMarks ks (sharedMarks ms ns)).length ≤ (sharedMarks ks ns).length := by
  induction ks generalizing ms ns with
  | nil => exact Nat.zero_le _
  | cons k ks ih =>
    cases ms with
    | nil => exact Nat.zero_le _
    | cons m ms =>
      cases ns with
      | nil => exact Nat.zero_le _
      | cons n ns =>
        have hcons (a b : TintMark) (as bs : List TintMark) :
            sharedMarks (a :: as) (b :: bs) = if a.id = b.id then a :: sharedMarks as bs else [] :=
          rfl
        by_cases hid : m.id = n.id
        · rw [hcons m, if_pos hid, hcons, hcons, hid]
          split
          · exact Nat.succ_le_succ (ih ms ns)
          · exact Nat.le_refl _
        · rw [hcons m, if_neg hid]
          exact Nat.zero_le _

/-- The item stands under the chain `marks` and further openings, which have numbers from `low` on
and below `high`. -/
def RowItem.Under (marks : List TintMark) (low high : Nat) (i : RowItem α) : Prop :=
  ∃ inner, i.marks = marks ++ inner ∧ ∀ m ∈ inner, low ≤ m.id ∧ m.id < high

/-- The first item shares no more openings with the third than with the second. -/
def RowItem.SharesLess (i j k : RowItem α) : Prop :=
  (sharedMarks i.marks k.marks).length ≤ (sharedMarks i.marks j.marks).length

theorem RowItem.Under.mono {marks : List TintMark} {low high low' high' : Nat} {i : RowItem α}
    (h : i.Under marks low high) (hlow : low' ≤ low) (hhigh : high ≤ high') :
    i.Under marks low' high' := by
  obtain ⟨inner, hi, hinner⟩ := h
  exact ⟨inner, hi, fun m hm => ⟨hlow.trans (hinner m hm).1, (hinner m hm).2.trans_le hhigh⟩⟩

/-- Items with different openings under one chain share just the chain. -/
theorem RowItem.Under.sharesLess {marks : List TintMark} {low mid high low' high' : Nat}
    {i j k : RowItem α} (hi : i.Under marks low mid) (hj : j.Under marks low' high')
    (hk : k.Under marks mid high) : i.SharesLess j k := by
  obtain ⟨is, hi, his⟩ := hi
  obtain ⟨js, hj, -⟩ := hj
  obtain ⟨ks, hk, hks⟩ := hk
  have hnil : sharedMarks is ks = [] := sharedMarks_eq_nil fun m hm n hn hid => by
    have hm := (his m hm).2
    have hn := (hks n hn).1
    omega
  rw [SharesLess, hi, hj, hk, sharedMarks_append, sharedMarks_append, hnil]
  simp

/-- The items of a row under the chain `marks`, whose own openings have numbers from `low` on and
below `high`. The openings are nested: what two items share, they share with all items between
them. -/
structure RowItem.Nested (marks : List TintMark) (low high : Nat) (items : List (RowItem α)) :
    Prop where
  le : low ≤ high
  under : ∀ i ∈ items, i.Under marks low high
  sharesLess : items.Triplewise SharesLess

theorem RowItem.Nested.singleton (i : RowItem α) (low : Nat) : Nested i.marks low low [i] where
  le := Nat.le_refl low
  under := List.forall_mem_singleton.mpr ⟨[], (List.append_nil _).symm, by simp⟩
  sharesLess := List.triplewise_singleton _ _

theorem RowItem.Nested.append {marks : List TintMark} {low mid high : Nat}
    {is js : List (RowItem α)} (hi : Nested marks low mid is) (hj : Nested marks mid high js) :
    Nested marks low high (is ++ js) where
  le := hi.le.trans hj.le
  under := List.forall_mem_append.mpr
    ⟨fun i h => (hi.under i h).mono (Nat.le_refl _) hj.le,
      fun j h => (hj.under j h).mono hi.le (Nat.le_refl _)⟩
  sharesLess := by
    refine List.triplewise_append.mpr ⟨hi.sharesLess, hj.sharesLess, fun i h => ?_, fun k h => ?_⟩
    · exact List.pairwise_of_forall_mem_list fun j hj' k hk =>
        (hi.under i h).sharesLess (hj.under j hj') (hj.under k hk)
    · exact List.pairwise_of_forall_mem_list fun i hi' j hj' =>
        (hi.under i hi').sharesLess (hi.under j hj') (hj.under k h)

/-- Items under further openings stand under the chain in front of these. -/
theorem RowItem.Nested.of_append {marks inner : List TintMark} {low mid high : Nat}
    {items : List (RowItem α)} (h : Nested (marks ++ inner) mid high items) (hle : low ≤ mid)
    (hinner : ∀ m ∈ inner, low ≤ m.id ∧ m.id < mid) : Nested marks low high items where
  le := hle.trans h.le
  under i hi := by
    obtain ⟨more, hmarks, hmore⟩ := h.under i hi
    refine ⟨inner ++ more, by rw [hmarks, List.append_assoc], List.forall_mem_append.mpr ⟨?_, ?_⟩⟩
    · exact fun m hm => ⟨(hinner m hm).1, (hinner m hm).2.trans_le h.le⟩
    · exact fun m hm => ⟨hle.trans (hmore m hm).1, (hmore m hm).2⟩
  sharesLess := h.sharesLess

end Marks

omit [Scalar α] in
/-- A declaration puts openings with new numbers behind those around it. -/
theorem SwitchKind.exists_enter_marks (kind : SwitchKind) (env : Environment α)
    (marks : List TintMark) (next : Nat) :
    ∃ inner, (kind.enter env marks next).2.1 = marks ++ inner ∧
      next ≤ (kind.enter env marks next).2.2 ∧
      ∀ m ∈ inner, next ≤ m.id ∧ m.id < (kind.enter env marks next).2.2 := by
  cases kind with
  | style | font => exact ⟨[], (List.append_nil _).symm, Nat.le_refl _, by simp⟩
  | color c => exact ⟨_, rfl, Nat.le_succ _, by simp [enter]⟩

/-- The tints of a row are nested. -/
theorem Atom.nested_rowItems (atoms : List Atom) (env : Environment α) (marks : List TintMark)
    (next : Nat) :
    RowItem.Nested marks next (rowItems atoms env marks next).2
      (rowItems atoms env marks next).1 := by
  cases atoms with
  | nil => exact ⟨by simp [rowItems], by simp [rowItems], by simp [rowItems]⟩
  | cons a atoms =>
    cases ha : a.isDeclaration with
    | false =>
      rw [rowItems_cons ha]
      exact (RowItem.Nested.singleton (a.rowItem env marks) next).append
        (nested_rowItems atoms env marks next)
    | true =>
      cases a with
      | switch kind body =>
        obtain ⟨inner, hmarks, hle, hinner⟩ := kind.exists_enter_marks env marks next
        have hbody := nested_rowItems body (kind.enter env marks next).1
          (kind.enter env marks next).2.1 (kind.enter env marks next).2.2
        rw [hmarks] at hbody
        -- The new openings have the numbers between `next` and those of the body.
        rw [rowItems_switch]
        simp only [hmarks]
        exact (hbody.of_append hle hinner).append (nested_rowItems atoms env marks _)
      | _ => cases ha
termination_by atoms
decreasing_by
  all_goals
    simp only [List.cons.sizeOf_spec, Atom.switch.sizeOf_spec]
    omega

/-! ## The measures of a row -/

/-- An item adds its box to a row, behind at most one space, under tints that it has as well. -/
theorem exists_rowPieces_cons (prev : Option (MathClass × List TintMark))
    (i : RowItem α × MathClass) :
    ∃ space next, (space = [] ∨ ∃ glue marks, space = [glue] ∧
        glue.marks = sharedMarks marks i.1.marks) ∧
      ∀ rest, rowPieces prev (i :: rest) = space ++ i.1.piece :: rowPieces next rest := by
  obtain ⟨item, c⟩ := i
  by_cases hc : c = .none
  · subst hc
    exact ⟨[], prev, .inl rfl, fun _ => rfl⟩
  · refine ⟨_, _, ?_, rowPieces_cons prev item hc⟩
    cases prev with
    | none => exact .inl rfl
    | some left =>
      simp only [Option.elim_some, spaceBefore]
      split
      · exact .inl rfl
      · exact .inr ⟨_, _, rfl, rfl⟩

theorem sharedWith_rowPieces_cons_le (p : Tinted α) (prev : Option (MathClass × List TintMark))
    (i : RowItem α × MathClass) (rest : List (RowItem α × MathClass)) :
    p.sharedWith (rowPieces prev (i :: rest)) ≤ (sharedMarks p.marks i.1.marks).length := by
  obtain ⟨space, next, hspace, hrow⟩ := exists_rowPieces_cons prev i
  rw [hrow]
  obtain rfl | ⟨glue, marks, rfl, hglue⟩ := hspace
  · exact Nat.le_refl _
  · rw [List.singleton_append, Tinted.sharedWith, hglue]
    exact length_sharedMarks_sharedMarks_le p.marks marks i.1.marks

section Measures

variable {P : RowItem α × MathClass → Prop} {xs ys : List (RowItem α × MathClass)}

/-- An item shares as much with what is put in behind it as with what stood there. -/
theorem sharedWith_rowPieces_le (h : Padded P xs ys) (hP : ∀ i, P i → i.2 = .none)
    {item : RowItem α} (hless : ys.Pairwise fun j k => item.SharesLess j.1 k.1)
    (prev : Option (MathClass × List TintMark)) :
    item.piece.sharedWith (rowPieces prev xs) ≤ item.piece.sharedWith (rowPieces prev ys) := by
  cases h with
  | nil => exact Nat.le_refl _
  | keep i rest =>
    obtain ⟨space, next, -, hrow⟩ := exists_rowPieces_cons prev i
    rw [hrow, hrow]
    cases space with
    | nil => exact Nat.le_refl _
    | cons glue space => exact Nat.le_refl _
  | @pad j hj _ ys rest =>
    obtain ⟨padding, c⟩ := j
    obtain rfl : c = .none := hP _ hj
    cases xs with
    | nil => exact Nat.zero_le _
    | cons k xs =>
      -- What stood there shares no more with the item, nor does the space in front of it.
      have hk := List.rel_of_pairwise_cons hless (rest.subset List.mem_cons_self)
      exact (sharedWith_rowPieces_cons_le item.piece prev k xs).trans hk

/-- Items without a class and of no size split no run of a tint. -/
theorem pads_rowPieces (h : Padded P xs ys) (hP : ∀ i, P i → i.2 = .none)
    (hextent : ∀ i, P i → i.1.box.extent = noExtent)
    (hless : ys.Triplewise fun i j k => i.1.SharesLess j.1 k.1)
    (prev : Option (MathClass × List TintMark)) :
    Tinted.Pads (rowPieces prev xs) (rowPieces prev ys) := by
  induction h generalizing prev with
  | nil => exact .nil
  | keep i rest ih =>
    obtain ⟨hi, hless⟩ := List.triplewise_cons.mp hless
    obtain ⟨space, next, hspace, hrow⟩ := exists_rowPieces_cons prev i
    have hkeep := Tinted.Pads.keep i.1.piece (sharedWith_rowPieces_le rest hP hi next)
      (ih hless next)
    rw [hrow, hrow]
    obtain rfl | ⟨glue, marks, rfl, -⟩ := hspace
    · exact hkeep
    · exact .keep glue (Nat.le_refl _) hkeep
  | @pad i hpad xs ys rest ih =>
    obtain ⟨item, c⟩ := i
    obtain rfl : c = .none := hP _ hpad
    obtain ⟨hi, hless⟩ := List.triplewise_cons.mp hless
    exact .pad (hextent _ hpad) (sharedWith_rowPieces_le rest hP hi prev) (ih hless prev)

end Measures

namespace Atom

/-- The classes that items resolve to are those from before. -/
theorem Pads.padded_resolvedItems {P : Atom → Prop} (hP : ∀ a, P a → a.IsClassless)
    {as bs : List Atom} (h : Pads P as bs) (env : Environment α) :
    Padded (fun i => i.1.IsOf P ∧ i.2 = .none) (resolvedItems (rowItems as env [] 0).1)
      (resolvedItems (rowItems bs env [] 0).1) :=
  padded_resolved (fun _ => RowItem.IsOf.mathClass_eq_none fun a ha => (hP a ha).1)
    (h.padded_rowItems (fun a ha => (hP a ha).2) env [] 0).1 none

/-- The parts of the row are those from before and the atoms put in. -/
theorem Pads.padded_rowParts {P : Atom → Prop} (hP : ∀ a, P a → a.IsClassless)
    {as bs : List Atom} (h : Pads P as bs) (env : Environment α) :
    Padded (fun p => ∃ i : RowItem α, i.IsOf P ∧ p = .atom i .none) (rowParts as env)
      (rowParts bs env) :=
  padded_partsAfter (h.padded_resolvedItems hP env) none

/-- Atoms without a box do not change the measures of the row. -/
theorem Pads.measures_row (hz : Scalar.NeutralZero α) {as bs : List Atom}
    (h : Pads (fun a => a.isBoxless = true) as bs) (env : Environment α) :
    ((row as).layout env).measures = ((row bs).layout env).measures := by
  have hitems := h.padded_resolvedItems (fun _ => isClassless_of_isBoxless) env
  rw [layout_row, layout_row, rowParts, rowParts, map_piece_partsAfter, map_piece_partsAfter]
  refine (pads_rowPieces hitems (fun _ hi => hi.2) (fun i hi => ?_) ?_ none).measures_eq hz
  · obtain ⟨⟨a, env, marks, ha, hitem⟩, -⟩ := hi
    rw [hitem, rowItem, layout_of_isBoxless ha]
    exact extent_empty
  · have hlength (items : List (RowItem α)) : (resolvedItems items).map Prod.fst = items :=
      List.map_fst_zip <| by
        rw [resolveClasses, ← (forall₂_resolveFrom none _).length_eq, List.length_map]
    rw [← List.triplewise_map, hlength]
    exact (nested_rowItems bs env [] 0).sharesLess

end Atom

/-- **Atoms without a class are transparent.** Whatever atoms of no class stand in a row, at
whatever depth of its declarations: the other atoms of the row have the class and the box, and
there are the spaces between them, that they have without these. So it is where more of these atoms
are put in, and, read from the second row to the first, where some are taken out. Where what is put
in is nothing or marks for the table around, the row keeps its width, its height and its depth; that
is so of all lengths of which adding none and comparing with none changes nothing, as of exact
lengths and of floats. -/
theorem row_of_pads {as bs : List Atom} (h : Atom.Pads Atom.IsClassless as bs) :
    (∀ {α : Type} [Scalar α] (env : Environment α),
      Padded (fun p => ∃ i : RowItem α, i.IsOf Atom.IsClassless ∧ p = .atom i .none)
        (Atom.rowParts as env) (Atom.rowParts bs env) ∧
      ∀ row ∈ [as, bs], (Atom.row row).layout env =
        hbox (wrapTinted ((Atom.rowParts row env).map RowPart.piece))) ∧
    (Atom.Pads (fun a => a.isBoxless = true) as bs →
      Scalar.NeutralZero Rat ∧ Scalar.NeutralZero Float ∧
      ∀ {α : Type} [Scalar α], Scalar.NeutralZero α → ∀ env : Environment α,
        let b := (Atom.row as).layout env
        let c := (Atom.row bs).layout env
        b.width = c.width ∧ b.height = c.height ∧ b.depth = c.depth) := by
  refine ⟨fun env => ⟨h.padded_rowParts (fun _ ha => ha) env, fun row _ => Atom.layout_row row env⟩,
    fun hboxless => ⟨Scalar.neutralZero_rat, Scalar.neutralZero_float, ?_⟩⟩
  intro α _ hz env b c
  have hmeasures : b.measures = c.measures := hboxless.measures_row hz env
  simpa [measures] using hmeasures

/-- A sum with a space after its operator, and the sum with nothing in front of a red part and in
it, in exact lengths and in floats. -/
theorem row_of_pads_sum :
    let x : Atom := .ofChar 'x'
    let plus : Atom := .ofChar '+'
    let space : Atom := .space ⟨.ofNat 1, .em⟩
    let red : Color := { r := 255, g := 0, b := 0 }
    let sum : List Atom := [x, .switch (.color red) [plus, x]]
    let spaced : List Atom := [x, .switch (.color red) [plus, space, x]]
    let marked : List Atom := [x, .empty, .switch (.color red) [.empty, plus, x], .hrule .full]
    Atom.Pads Atom.IsClassless sum spaced ∧
      (∀ env : Environment Rat,
        Padded (fun p => ∃ i : RowItem Rat, i.IsOf Atom.IsClassless ∧ p = .atom i .none)
          (Atom.rowParts sum env) (Atom.rowParts spaced env)) ∧
      Atom.Pads (fun a => a.isBoxless = true) sum marked ∧
      (∀ env : Environment Rat,
        ((Atom.row sum).layout env).width = ((Atom.row marked).layout env).width) ∧
      ∀ env : Environment Float,
        ((Atom.row sum).layout env).width = ((Atom.row marked).layout env).width := by
  intro x plus space red sum spaced marked
  have hspaced : Atom.Pads Atom.IsClassless sum spaced :=
    .keep x (.within _ (.keep plus (.pad ⟨rfl, rfl⟩ (.keep x .nil))) .nil)
  have hmarked {P : Atom → Prop} (hempty : P .empty) (hrule : P (.hrule .full)) :
      Atom.Pads P sum marked :=
    .keep x (.pad hempty (.within _ (.pad hempty (.keep plus (.keep x .nil))) (.pad hrule .nil)))
  obtain ⟨hrat, hfloat, hsame⟩ :=
    (row_of_pads (hmarked ⟨rfl, rfl⟩ ⟨rfl, rfl⟩)).2 (hmarked rfl rfl)
  exact ⟨hspaced, fun env => ((row_of_pads hspaced).1 env).1, hmarked rfl rfl,
    fun env => (hsame hrat env).1, fun env => (hsame hfloat env).1⟩

end Typeset
