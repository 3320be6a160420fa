import Typeset.Markup.Parse

/-!
# The loops of a parse

The recursions over a nest, and the scan over the tokens, as loops that take one turn after
another. A turn ends the loop with a result, or goes on from another state.

* `Loop.Ends`: a loop comes to a result after finitely many turns.
* `Loop.Computes`: a loop comes to the value of a function from every state, and each of its turns
  leaves less to do.
* `Nest.computes_deliver`, `Nest.computes_closeDeclarations`, `Nest.computes_salvage`: every turn of
  the loops over a nest takes a level off.
* `ParseState.computes_scan`: every turn of the scan takes a character.
-/

namespace Typeset

namespace Loop

variable {σ ρ : Type} {turn : σ → ρ ⊕ σ}

/-- The loop comes to a result. -/
inductive Ends (turn : σ → ρ ⊕ σ) : σ → ρ → Prop where
  | over {s : σ} {r : ρ} : turn s = .inl r → Ends turn s r
  | again {s t : σ} {r : ρ} : turn s = .inr t → Ends turn t r → Ends turn s r

/-- A loop has one result. -/
theorem Ends.unique {s : σ} {r r' : ρ} : Ends turn s r → Ends turn s r' → r = r'
  | .over hr, .over hr' => Sum.inl.inj (hr.symm.trans hr')
  | .over hr, .again ht' _ | .again ht' _, .over hr => by cases hr.symm.trans ht'
  | .again ht h, .again ht' h' => unique h (Sum.inr.inj (ht'.symm.trans ht) ▸ h')

/-- The loop comes to the value of `f`, and every turn leaves less of what `size` measures. -/
structure Computes (turn : σ → ρ ⊕ σ) (f : σ → ρ) (size : σ → Nat) : Prop where
  ends : ∀ s, Ends turn s (f s)
  shrinks : ∀ s t, turn s = .inr t → size t < size s

/-- A loop whose turns keep the value of `f` and shrink the state computes `f`. -/
theorem computes_of_shrinks {f : σ → ρ} {size : σ → Nat} (hf : ∀ s, f s = (turn s).elim id f)
    (hsize : ∀ s t, turn s = .inr t → size t < size s) : Computes turn f size := by
  refine ⟨fun s => ?_, hsize⟩
  induction hn : size s using Nat.strongRecOn generalizing s with
  | ind n ih =>
    rw [hf s]
    cases hs : turn s with
    | inl r => exact .over hs
    | inr t => exact .again hs (ih _ (hn ▸ hsize s t hs) t rfl)

end Loop

open Loop

namespace Nest

variable (here : Nat)

/-- One turn of handing an atom on: the innermost level takes it, or is completed by it and taken
off, and its own atom is handed on. -/
def deliverTurn : Atom × Nest → Except Failure Nest ⊕ (Atom × Nest)
  | (a, .group atoms lines start root :: n) => .inl (.ok (.group (atoms ++ [a]) lines start root :: n))
  | (a, .table b :: n) => .inl (.ok (.table (b.addAtom a) :: n))
  | (a, .command c start :: n) =>
    match c.add a with
    | .error e => .inl (.error ⟨e, .command c start :: n⟩)
    | .ok (.pending, d) => .inl (.ok (.command d start :: n))
    | .ok (.complete b, _) => .inr (b, n)
  | (_, n) => .inl (.error ⟨.fault here .outsideGroup, n⟩)

/-- One turn of ending the declarations at the top: the innermost one is taken off, and its atom is
delivered. -/
def closeTurn : Nest → Except Failure Nest ⊕ Nest
  | .command c start :: n =>
    if c.state.isClosable then
      match c.state.close.1 with
      | none => .inr n
      | some a =>
        match deliver here a n with
        | .error f => .inl (.error f)
        | .ok m => .inr m
    else .inl (.ok (.command c start :: n))
  | n => .inl (.ok n)

/-- One turn of salvaging: the innermost level is folded into the one below it. -/
def salvageTurn (n : Nest) : Atom ⊕ Nest :=
  if 1 < n.length then .inr n.fold
  else .inl (match n with
    | .group atoms lines _ _ :: _ => groupAtom atoms lines
    | _ => .row [])

/-- Delivering takes a completed command off in every turn. -/
theorem computes_deliver :
    Computes (deliverTurn here) (fun p => p.2.deliver here p.1) (·.2.length) := by
  refine computes_of_shrinks ?_ ?_
  · rintro ⟨a, _ | ⟨level, n⟩⟩
    · rfl
    · cases level with
      | group | table | environment => rfl
      | command c start =>
        simp only [deliver, deliverTurn]
        rcases c.add a with e | ⟨_ | b, d⟩ <;> rfl
  · rintro ⟨a, _ | ⟨level, n⟩⟩ t h
    · cases h
    · cases level with
      | group | table | environment => cases h
      | command c start =>
        simp only [deliverTurn] at h
        split at h <;> cases h
        exact Nat.lt_succ_self _

/-- Ending the declarations takes a declaration off in every turn. -/
theorem computes_closeDeclarations :
    Computes (closeTurn here) (closeDeclarations here) List.length := by
  refine computes_of_shrinks ?_ ?_
  · rintro (_ | ⟨level, n⟩)
    · rw [closeDeclarations.eq_def]
      rfl
    · rw [closeDeclarations.eq_def]
      cases level with
      | group | table | environment => rfl
      | command c start =>
        simp only [closeTurn]
        split
        · cases c.state.close.1 with
          | none => rfl
          | some a =>
            simp only
            split <;> simp [*]
        · rfl
  · rintro (_ | ⟨level, n⟩) t h
    · cases h
    · cases level with
      | group | table | environment => cases h
      | command c start =>
        simp only [closeTurn] at h
        split at h
        · cases hc : c.state.close.1 with
          | none =>
            rw [hc] at h
            cases h
            exact Nat.lt_succ_self _
          | some a =>
            rw [hc] at h
            simp only at h
            split at h <;> cases h
            exact Nat.lt_succ_of_le (deliver_length_le ‹_›)
        · cases h

/-- Salvaging takes a level off in every turn. -/
theorem computes_salvage : Computes salvageTurn salvage List.length := by
  refine computes_of_shrinks (fun n => ?_) fun n m h => ?_
  · conv => lhs; unfold salvage
    unfold salvageTurn
    by_cases hl : 1 < n.length
    · rw [if_pos hl, if_pos hl]
      rfl
    · rw [if_neg hl, if_neg hl]
      rfl
  · unfold salvageTurn at h
    split at h <;> cases h
    exact fold_length_lt (by rintro rfl; simp at *)

end Nest

namespace ParseState

/-- One turn of the scan: a token is read and done. -/
def scanTurn (l : Language) (s : ParseState) : Except Failure ParseState ⊕ ParseState :=
  match s.step l with
  | none => .inl (.ok s)
  | some (.error f) => .inl (.error f)
  | some (.ok t) => .inr t

/-- The scan takes a character at least in every turn. -/
theorem computes_scan (l : Language) :
    Computes (scanTurn l) (scan l) (·.reader.cursor.rest.length) := by
  refine computes_of_shrinks (fun s => ?_) fun s t h => ?_
  · conv => lhs; unfold scan
    unfold scanTurn
    split <;> simp_all
  · unfold scanTurn at h
    split at h <;> cases h
    exact step_rest_lt ‹_›

end ParseState

end Typeset
