import Typeset.Markup.Parse
import Typeset.Proofs.Nest.Salvage

/-!
# What a refused token takes away

An operation that fails leaves a nest, and what is salvaged from it can be less than what was there
before. It is less in three cases (`Nest.Erases`): a double script and a double prime take their
base off the nest, and the end of another environment takes the innermost environment off.

* `Nest.Keeps`: an operation loses nothing where it fails.
* `Nest.Sound.salvage_of_apply_error_iff`: a refused token leaves the same atom to salvage exactly
  if it is none of the three.
-/

namespace Typeset

namespace Nest

variable {n m : Nest} {a : Atom} {here pos : Nat} {f : Failure}

/-- Where the operation fails, what is salvaged is what could be salvaged from `n`. -/
def Keeps {α : Type} (n : Nest) : Except Failure α → Prop
  | .ok _ => True
  | .error f => f.nest.salvage = n.salvage

theorem Sound.keeps_deliver (h : n.Sound) (m : Nest) (here : Nat) (a : Atom) :
    Keeps m (n.deliver here a) := by
  rw [h.deliver_eq_put here a]
  trivial

/-- Declarations are salvaged as they are closed. -/
theorem Sound.salvage_of_closeDeclarations (h : n.Sound) (hc : n.closeDeclarations here = .ok m) :
    m.salvage = n.salvage := by
  fun_induction Nest.closeDeclarations here n with
  | case1 c start n hcl hnone =>
    obtain ⟨a, ha, -⟩ := CommandState.exists_close_of_isClosable hcl
    rw [ha] at hnone
    cases hnone
  | case2 => cases hc
  | case3 c start n hcl a ha k hd ih =>
    cases h with
    | command hw hp hn =>
      have hs : (Nest.put a n).Sound := hn.put (hw.close ha)
      rw [put_of_deliver hd] at hs
      rw [ih hs hc, salvage_command hn.ne_nil, ha]
      simp only [put_of_deliver hd]
  | case4 | case5 => cases hc; rfl

/-- What follows the end of the declarations loses nothing if it loses nothing on a sound nest. -/
theorem Sound.keeps_close {α : Type} {g : Nest → Except Failure α} (h : n.Sound) (here : Nat)
    (hg : ∀ m : Nest, m.Sound → Keeps m (g m)) : Keeps n (n.closeDeclarations here >>= g) := by
  obtain ⟨m, hm, hs, -⟩ := h.closeDeclarations here
  have hk := hg m hs
  rw [hm]
  change Keeps n (g m)
  cases hf : g m with
  | ok b => trivial
  | error f =>
    rw [hf] at hk
    exact hk.trans (h.salvage_of_closeDeclarations hm)

/-! ## Tokens that lose nothing -/

theorem Sound.keeps_closeGroup (h : n.Sound) (pos here : Nat) :
    Keeps n (n.closeGroup pos here) := by
  refine h.keeps_close here fun m hm => ?_
  cases hm with
  | group hp hn => exact hn.keeps_deliver _ here _
  | root | environment | command => rfl

theorem Sound.keeps_column (h : n.Sound) (pos here : Nat) : Keeps n (n.column pos here) := by
  refine h.keeps_close here fun m hm => ?_
  cases hm with
  | environment => trivial
  | root | group | command => rfl

theorem Sound.keeps_rowSeparator (h : n.Sound) (gap : Option Length) (pos here : Nat) :
    Keeps n (n.rowSeparator gap pos here) := by
  refine h.keeps_close here fun m hm => ?_
  cases hm with
  | root | group | environment => trivial
  | command => rfl

theorem Sound.keeps_fenceDelimiter (h : n.Sound) (d : Delimiter) (closing : Bool)
    (pos here : Nat) : Keeps n (n.fenceDelimiter d closing pos here) := by
  refine h.keeps_close here fun m hm => ?_
  cases hm with
  | root | group | environment => rfl
  | @command c start k hw hp hn =>
    simp only
    cases c.state.fenceDelimiter d closing with
    | none => rfl
    | some p =>
      obtain ⟨progress, state⟩ := p
      cases progress with
      | pending => trivial
      | complete a => exact hn.keeps_deliver _ here a

theorem Sound.keeps_setLimits (h : n.Sound) (name : String) (above : Bool) (here : Nat) :
    Keeps n (do
      let (a, m) ← n.setLimits name above here
      m.deliver here a) := by
  unfold Nest.setLimits
  cases ht : n.takeLast? with
  | none => rfl
  | some p => exact (h.takeLast ht).1.keeps_deliver n here _

/-- The end of the markup loses nothing. -/
theorem Sound.keeps_finish (h : n.Sound) (here : Nat) : Keeps n (n.finish here) := by
  refine h.keeps_close here fun m hm => ?_
  cases hm with
  | root => trivial
  | group | environment | command => rfl

/-- The atom of the markup is the one that would be salvaged. -/
theorem Sound.salvage_of_finish (h : n.Sound) (hf : n.finish here = .ok a) : n.salvage = a := by
  obtain ⟨m, hm, hs, -⟩ := h.closeDeclarations here
  rw [← h.salvage_of_closeDeclarations hm]
  unfold Nest.finish at hf
  rw [hm] at hf
  cases hs with
  | root hp =>
    cases hf
    exact salvage_root _ _ _ _
  | group | environment | command => cases hf

/-! ## Tokens that take something off -/

/-- What is lost with the last atom. -/
theorem Sound.salvage_takeLast_iff (h : n.Sound) (ht : n.takeLast? = some (a, m)) :
    m.salvage = n.salvage ↔ ¬n.shows = true := by
  cases n with
  | nil => cases ht
  | cons level n =>
    simp only [takeLast?, Option.bind_eq_bind, Option.bind_eq_some_iff] at ht
    obtain ⟨row, hr, b, hb, ht⟩ := ht
    cases ht
    have hiff := h.telling.setRow_eq_setRow rfl hr row.dropLast row
    rw [Level.setRow_of_row? hr] at hiff
    rw [hiff, Bool.not_eq_true]
    refine or_iff_right fun he => ?_
    have hne : row ≠ [] := by
      rintro rfl
      cases hb
    exact absurd (congrArg List.length he)
      (by have := List.length_pos_iff.mpr hne; simp only [List.length_dropLast]; omega)

/-- The token takes off the nest what salvaging would show, and is refused then. -/
inductive Erases (here : Nat) (n : Nest) : Move → Prop where
  /-- A script on an atom that has this script already. -/
  | script {slot : ScriptSlot} {a : Atom} {m : Nest} : n.takeLast? = some (a, m) →
      isTaken a.openScripts.2.1 a.openScripts.2.2 slot = true → n.shows = true →
      Erases here n (.script slot)
  /-- A prime on an atom that has a superscript already. -/
  | prime {a : Atom} {m : Nest} : n.takeLast? = some (a, m) → a.primed? = none →
      n.shows = true → Erases here n .prime
  /-- The end of another environment than the innermost one. -/
  | closeEnvironment {c : Command} {name opened : String} {b : TableBuilder} {kind : TableKind}
      {start : Nat} {m : Nest} :
      n.closeDeclarations here = .ok (.table b :: .environment opened kind start :: m) →
      opened ≠ name → shows (.table b :: .environment opened kind start :: m) = true →
      Erases here n (.command c (.closeEnvironment name))

theorem Sound.salvage_of_script_error_iff (h : n.Sound) {slot : ScriptSlot}
    (hf : n.script slot pos = .error f) :
    f.nest.salvage = n.salvage ↔ ¬Erases here n (.script slot) := by
  unfold Nest.script at hf
  cases ht : n.takeLast? with
  | none =>
    rw [ht] at hf
    cases hf
    refine iff_of_true rfl fun he => ?_
    cases he with
    | script ht' _ _ =>
      rw [ht] at ht'
      cases ht'
  | some p =>
    obtain ⟨a, m⟩ := p
    simp only [ht] at hf
    split at hf
    · rename_i htaken
      cases hf
      refine (h.salvage_takeLast_iff ht).trans (not_congr ⟨.script ht htaken, ?_⟩)
      intro he
      cases he with
      | script _ _ hs => exact hs
    · cases hf

theorem Sound.salvage_of_prime_error_iff (h : n.Sound) (hf : n.prime pos here = .error f) :
    f.nest.salvage = n.salvage ↔ ¬Erases here n .prime := by
  unfold Nest.prime at hf
  cases ht : n.takeLast? with
  | none =>
    rw [ht] at hf
    have hk := h.keeps_deliver n here (.scripts .empty (some .prime) none)
    rw [show n.deliver here (.scripts .empty (some .prime) none) = .error f from hf] at hk
    refine iff_of_true hk fun he => ?_
    cases he with
    | prime ht' _ _ =>
      rw [ht] at ht'
      cases ht'
  | some p =>
    obtain ⟨a, m⟩ := p
    simp only [ht, Option.getD_some] at hf
    split at hf
    · rename_i hp
      cases hf
      refine (h.salvage_takeLast_iff ht).trans (not_congr ⟨.prime ht hp, ?_⟩)
      intro he
      cases he with
      | prime _ _ hs => exact hs
    · rename_i b hp
      rw [(h.takeLast ht).1.deliver_eq_put here b] at hf
      cases hf

theorem Sound.salvage_of_closeEnvironment_error_iff (h : n.Sound) (c : Command) {name : String}
    (hf : n.closeEnvironment name pos here = .error f) :
    f.nest.salvage = n.salvage ↔ ¬Erases here n (.command c (.closeEnvironment name)) := by
  obtain ⟨m, hm, hs, -⟩ := h.closeDeclarations here
  rw [← h.salvage_of_closeDeclarations hm]
  unfold Nest.closeEnvironment at hf
  rw [hm] at hf
  have hnone (hm' : ∀ b opened kind start k,
      m ≠ .table b :: .environment opened kind start :: k) :
      ¬Erases here n (.command c (.closeEnvironment name)) := by
    intro he
    cases he with
    | closeEnvironment hc _ _ =>
      rw [hm] at hc
      cases hc
      exact hm' _ _ _ _ _ rfl
  cases hs with
  | root | group | command =>
    cases hf
    exact iff_of_true rfl (hnone (by simp))
  | @environment b opened kind start k hp hn =>
    simp only [bind, Except.bind] at hf
    have herases : Erases here n (.command c (.closeEnvironment name)) ↔
        opened ≠ name ∧ shows (.table b :: .environment opened kind start :: k) = true := by
      constructor
      · intro he
        cases he with
        | closeEnvironment hc hne hshow =>
          rw [hm] at hc
          cases hc
          exact ⟨hne, hshow⟩
      · exact fun ⟨hne, hshow⟩ => .closeEnvironment hm hne hshow
    rw [herases, salvage_environment]
    by_cases ho : opened = name
    · simp only [ho, if_true] at hf
      cases hk : kind.finish b with
      | error e =>
        rw [hk] at hf
        cases hf
        simp [ho]
      | ok x =>
        rw [hk] at hf
        simp only [hn.deliver_eq_put here x] at hf
        cases hf
    · simp only [ho, if_false] at hf
      cases hf
      cases hk : kind.finish b with
      | error e => simp [shows, hk, Except.isOk, Except.toBool]
      | ok x =>
        simp only [ne_eq, ho, not_false_eq_true, true_and, shows, hk, Except.isOk, Except.toBool,
          Bool.true_and, Bool.not_eq_true]
        rw [eq_comm, hn.telling.put_eq (TableKind.isMarker_finish hk)]

/-- Nothing is lost where an operation fails that keeps the nest and erases nothing. -/
private theorem salvage_error_iff {α : Type} {x : Except Failure α} {p : Prop} (hk : Keeps n x)
    (hf : x = .error f) (hp : ¬p) : f.nest.salvage = n.salvage ↔ ¬p := by
  rw [hf] at hk
  exact iff_of_true hk hp

/-- A refused token leaves the same atom to salvage, unless it erases something. -/
theorem Sound.salvage_of_apply_error_iff (h : n.Sound) {move : Move}
    (hf : n.apply pos here move = .error f) :
    f.nest.salvage = n.salvage ↔ ¬Erases here n move := by
  cases move with
  | nothing | openGroup => cases hf
  | atom a => exact salvage_error_iff (h.keeps_deliver n here a) hf (by rintro ⟨⟩)
  | closeGroup => exact salvage_error_iff (h.keeps_closeGroup pos here) hf (by rintro ⟨⟩)
  | script slot => exact h.salvage_of_script_error_iff hf
  | prime => exact h.salvage_of_prime_error_iff hf
  | column => exact salvage_error_iff (h.keeps_column pos here) hf (by rintro ⟨⟩)
  | command c d =>
    cases d with
    | done a =>
      cases a with
      | none => cases hf
      | some a => exact salvage_error_iff (h.keeps_deliver n here a) hf (by rintro ⟨⟩)
    | consume state => cases hf
    | stealRow state =>
      simp only [Nest.apply, Nest.perform] at hf
      split at hf <;> cases hf
      exact iff_of_true rfl (by rintro ⟨⟩)
    | setLimits above =>
      exact salvage_error_iff (h.keeps_setLimits c.name above here) hf (by rintro ⟨⟩)
    | openEnvironment name kind format => cases hf
    | closeEnvironment name => exact h.salvage_of_closeEnvironment_error_iff c hf
    | rowSeparator gap =>
      exact salvage_error_iff (h.keeps_rowSeparator gap pos here) hf (by rintro ⟨⟩)
    | middle d =>
      exact salvage_error_iff (h.keeps_fenceDelimiter d false pos here) hf (by rintro ⟨⟩)
    | right d =>
      exact salvage_error_iff (h.keeps_fenceDelimiter d true pos here) hf (by rintro ⟨⟩)

end Nest

end Typeset
