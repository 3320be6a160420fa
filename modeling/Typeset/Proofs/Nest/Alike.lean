import Typeset.Proofs.Nest.Within

/-!
# Nests that are alike

Two nests in which the same is open, whatever the places where it started.

* `Nest.Alike`: both nests are within one group.
* `Nest.Alike.apply`: every token does the same to both; `Nest.Alike.finish`: so does the end of
  the markup.
-/

namespace Typeset.Nest

/-- Two operations in lockstep with a third one are in lockstep with each other. -/
theorem Lockstep.join {α : Type} {R S : α → α → Prop} {x y z : Except Failure α}
    (hx : Lockstep R x z) (hy : Lockstep R y z) (h : ∀ a b c, R a c → R b c → S a b) :
    Lockstep S x y := by
  cases z with
  | error e =>
    cases x with
    | ok a => exact hx.elim
    | error =>
      cases y with
      | ok b => exact hy.elim
      | error => trivial
  | ok c =>
    obtain ⟨a, rfl, ha⟩ := hx.of_ok_right rfl
    obtain ⟨b, rfl, hb⟩ := hy.of_ok_right rfl
    exact h a b c ha hb

/-- Two operations in lockstep both succeed or both fail. -/
theorem Lockstep.cases {α : Type} {R : α → α → Prop} {x y : Except Failure α}
    (h : Lockstep R x y) :
    (∃ a b, x = .ok a ∧ y = .ok b ∧ R a b) ∨ ∃ f f', x = .error f ∧ y = .error f' := by
  rcases x with f | a <;> rcases y with f' | b
  · exact .inr ⟨f, f', rfl, rfl⟩
  · exact h.elim
  · exact h.elim
  · exact .inl ⟨a, b, rfl, rfl, h⟩

theorem Lockstep.mono {α : Type} {R S : α → α → Prop} {x y : Except Failure α}
    (h : Lockstep R x y) (hS : ∀ a b, R a b → S a b) : Lockstep S x y := by
  obtain ⟨a, b, rfl, rfl, hab⟩ | ⟨f, f', rfl, rfl⟩ := h.cases
  · exact hS a b hab
  · trivial

theorem Lockstep.toOption_eq {α : Type} {x y : Except Failure α} (h : Lockstep Eq x y) :
    x.toOption = y.toOption := by
  obtain ⟨a, b, rfl, rfl, rfl⟩ | ⟨f, f', rfl, rfl⟩ := h.cases <;> rfl

/-- The same is open in both nests. They are within one group that stands over nothing, whose places
do not count. -/
def Alike (n n' : Nest) : Prop := ∃ m, Within [] n m ∧ Within [] n' m

variable {n n' m : Nest} {pos here pos' here' : Nat}

theorem alike_start : Alike start start := ⟨[.group [] [] 0 false], .base, .base⟩

/-- A closing brace that has nothing to close in the markup has nothing to go to around it. -/
theorem Within.closeGroup_lockstep (h : Within [] n m) (pos here pos' here' : Nat) :
    Lockstep (Within []) (n.closeGroup pos here) (m.closeGroup pos' here') := by
  refine (h.closeDeclarations here here').bind fun n m _ h => ?_
  cases h with
  | base | table | environment | command => trivial
  | group h => exact h.deliver here here' _

theorem Within.apply_lockstep (h : Within [] n m) (move : Move) (pos here pos' here' : Nat) :
    Lockstep (Within []) (n.apply pos here move) (m.apply pos' here' move) := by
  by_cases hmove : move = .closeGroup
  · subst hmove
    exact h.closeGroup_lockstep pos here pos' here'
  · exact h.apply hmove pos here pos' here'

/-- Every token does the same to both nests. -/
theorem Alike.apply (h : Alike n n') (move : Move) (pos here pos' here' : Nat) :
    Lockstep Alike (n.apply pos here move) (n'.apply pos' here' move) := by
  obtain ⟨m, hn, hn'⟩ := h
  exact (hn.apply_lockstep move pos here 0 0).join (hn'.apply_lockstep move pos' here' 0 0)
    fun _ _ k ha hb => ⟨k, ha, hb⟩

/-- The end of the markup finds the same atom, or something open in both nests. -/
theorem Alike.finish (h : Alike n n') (here here' : Nat) :
    Lockstep Eq (n.finish here) (n'.finish here') := by
  obtain ⟨m, hn, hn'⟩ := h
  have hclose : Lockstep Alike (n.closeDeclarations here) (n'.closeDeclarations here') :=
    (hn.closeDeclarations here 0).join (hn'.closeDeclarations here' 0)
      fun _ _ k ha hb => ⟨k, ha, hb⟩
  refine hclose.bind fun n n' _ h => ?_
  obtain ⟨m, hn, hn'⟩ := h
  cases hn with
  | base =>
    cases hn' with
    | base => rfl
    | group h => cases h
  | group h =>
    cases hn' with
    | base => cases h
    | group => trivial
  | table => cases hn'; trivial
  | environment => cases hn'; trivial
  | command => cases hn'; trivial

end Typeset.Nest
