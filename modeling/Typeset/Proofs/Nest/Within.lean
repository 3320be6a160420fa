import Typeset.Proofs.Nest.Sound

/-!
# Nests within nests

What happens in a group happens as if the group were the whole markup. `Nest.Within` relates the
nest of the markup on its own to a nest in which it stands in a group: the second nest has the
group, over what is open around it, where the first one has the root. The places where things
started may differ.

* `Nest.Lockstep`: two operations come to related results, or both fail.
* `Nest.Within.apply`: every token but a closing brace does the same to both nests;
  `Nest.Within.closeGroup`: so does a closing brace that closes something in the markup.
* `Nest.Within.closeGroup_of_finish`: where the markup ends on its own, the brace of the group
  delivers its atom to what is open around it.
-/

namespace Typeset.Nest

/-- Two operations come to related results, or both fail. -/
def Lockstep {α : Type} (R : α → α → Prop) : Except Failure α → Except Failure α → Prop
  | .ok a, .ok b => R a b
  | .error _, .error _ => True
  | .ok _, .error _ | .error _, .ok _ => False

theorem Lockstep.bind {α β : Type} {R : α → α → Prop} {S : β → β → Prop} {x y : Except Failure α}
    {f g : α → Except Failure β} (hx : Lockstep R x y)
    (hf : ∀ a b, x = .ok a → R a b → Lockstep S (f a) (g b)) :
    Lockstep S (x >>= f) (y >>= g) := by
  cases x with
  | error e =>
    cases y with
    | error e' => trivial
    | ok b => exact hx.elim
  | ok a =>
    cases y with
    | error e' => exact hx.elim
    | ok b => exact hf a b rfl hx

/-- Two operations in lockstep succeed together. -/
theorem Lockstep.of_ok {α : Type} {R : α → α → Prop} {x y : Except Failure α} {a : α}
    (h : Lockstep R x y) (hx : x = .ok a) : ∃ b, y = .ok b ∧ R a b := by
  subst hx
  cases y with
  | error e => exact h.elim
  | ok b => exact ⟨b, rfl, h⟩

theorem Lockstep.of_ok_right {α : Type} {R : α → α → Prop} {x y : Except Failure α} {b : α}
    (h : Lockstep R x y) (hy : y = .ok b) : ∃ a, x = .ok a ∧ R a b := by
  subst hy
  cases x with
  | error e => exact h.elim
  | ok a => exact ⟨a, rfl, h⟩

/-- The second nest has a group over `under` where the first one has the root; above that, both have
the same open. -/
inductive Within (under : Nest) : Nest → Nest → Prop where
  | base {atoms lines : List Atom} {p q : Nat} :
      Within under [.group atoms lines p true] (.group atoms lines q false :: under)
  | group {atoms lines : List Atom} {p q : Nat} {n m : Nest} : Within under n m →
      Within under (.group atoms lines p false :: n) (.group atoms lines q false :: m)
  | table {b : TableBuilder} {n m : Nest} : Within under n m →
      Within under (.table b :: n) (.table b :: m)
  | environment {name : String} {kind : TableKind} {p q : Nat} {n m : Nest} : Within under n m →
      Within under (.environment name kind p :: n) (.environment name kind q :: m)
  | command {c : Command} {p q : Nat} {n m : Nest} : Within under n m →
      Within under (.command c p :: n) (.command c q :: m)

variable {under n m : Nest} {a : Atom} {pos here pos' here' : Nat}

theorem Within.deliver (h : Within under n m) (here here' : Nat) (a : Atom) :
    Lockstep (Within under) (n.deliver here a) (m.deliver here' a) := by
  induction h generalizing a with
  | base => exact .base
  | group h => exact .group h
  | table h => exact .table h
  | environment => trivial
  | @command c p q n m h ih =>
    simp only [Nest.deliver, Command.add]
    rcases c.state.add a with _ | ⟨_ | b, state⟩
    · trivial
    · exact .command h
    · exact ih b

/-- A declaration at the end of a nest is closed first. -/
theorem closeDeclarations_command {c : Command} (hc : c.state.isClosable = true) :
    ∃ a, ∀ here start (n : Nest),
      closeDeclarations here (.command c start :: n) =
        n.deliver here a >>= closeDeclarations here := by
  obtain ⟨a, ha, -⟩ := CommandState.exists_close_of_isClosable hc
  refine ⟨a, fun here start n => ?_⟩
  rw [closeDeclarations.eq_def]
  simp only [hc, if_true, ha]
  split <;> simp only [*] <;> rfl

theorem Within.closeDeclarations (h : Within under n m) (here here' : Nat) :
    Lockstep (Within under) (n.closeDeclarations here) (m.closeDeclarations here') := by
  induction hl : n.length using Nat.strongRecOn generalizing n m with
  | ind k ih =>
    have hsame (hn : n.endsInDeclaration = false) (hm : m.endsInDeclaration = false) :
        Lockstep (Within under) (n.closeDeclarations here) (m.closeDeclarations here') := by
      rw [closeDeclarations_of_endsInDeclaration hn, closeDeclarations_of_endsInDeclaration hm]
      exact h
    cases h with
    | base | group | table | environment => exact hsame rfl rfl
    | @command c p q n m h =>
      cases hc : c.state.isClosable with
      | false => exact hsame hc hc
      | true =>
        obtain ⟨a, hclose⟩ := closeDeclarations_command hc
        rw [hclose, hclose]
        refine (h.deliver here here' a).bind fun n' m' hn h' => ih _ ?_ h' rfl
        rw [← hl, List.length_cons]
        exact Nat.lt_succ_of_le (deliver_length_le hn)

/-- The rows that can be taken back are the same. -/
theorem Within.row {level level' : Level} (h : Within under (level :: n) (level' :: m)) :
    level.row? = level'.row? ∧
      ∀ row, Within under (level.setRow row :: n) (level'.setRow row :: m) := by
  cases h with
  | base => exact ⟨rfl, fun _ => .base⟩
  | group h => exact ⟨rfl, fun _ => .group h⟩
  | table h => exact ⟨rfl, fun _ => .table h⟩
  | environment h => exact ⟨rfl, fun _ => .environment h⟩
  | command h => exact ⟨rfl, fun _ => .command h⟩

theorem Within.exists_cons (h : Within under n m) :
    ∃ level level' n' m', n = level :: n' ∧ m = level' :: m' := by
  cases h <;> exact ⟨_, _, _, _, rfl, rfl⟩

theorem Within.takeLast (h : Within under n m) :
    (n.takeLast? = none ∧ m.takeLast? = none) ∨
      ∃ a n' m', n.takeLast? = some (a, n') ∧ m.takeLast? = some (a, m') ∧
        Within under n' m' := by
  obtain ⟨level, level', n, m, rfl, rfl⟩ := h.exists_cons
  obtain ⟨hrow, hset⟩ := h.row
  simp only [takeLast?, ← hrow]
  cases level.row? with
  | none => exact .inl ⟨rfl, rfl⟩
  | some row =>
    cases hl : row.getLast? with
    | none => exact .inl (by simp [hl])
    | some a => exact .inr ⟨a, _, _, by simp [hl], by simp [hl], hset row.dropLast⟩

theorem Within.takeRow (h : Within under n m) :
    (n.takeRow? = none ∧ m.takeRow? = none) ∨
      ∃ row n' m', n.takeRow? = some (row, n') ∧ m.takeRow? = some (row, m') ∧
        Within under n' m' := by
  obtain ⟨level, level', n, m, rfl, rfl⟩ := h.exists_cons
  obtain ⟨hrow, hset⟩ := h.row
  simp only [takeRow?, ← hrow]
  cases level.row? with
  | none => exact .inl ⟨rfl, rfl⟩
  | some row => exact .inr ⟨row, _, _, rfl, rfl, hset []⟩

/-! ## Tokens -/

theorem Within.script (h : Within under n m) (slot : ScriptSlot) (pos pos' : Nat) :
    Lockstep (Within under) (n.script slot pos) (m.script slot pos') := by
  unfold Nest.script
  obtain ⟨hn, hm⟩ | ⟨a, n', m', hn, hm, h'⟩ := h.takeLast <;> simp only [hn, hm]
  · trivial
  · split
    · trivial
    · exact .command h'

theorem Within.prime (h : Within under n m) (pos here pos' here' : Nat) :
    Lockstep (Within under) (n.prime pos here) (m.prime pos' here') := by
  have htake : ∃ a n' m', n.takeLast?.getD (.empty, n) = (a, n') ∧
      m.takeLast?.getD (.empty, m) = (a, m') ∧ Within under n' m' := by
    obtain ⟨hn, hm⟩ | ⟨a, n', m', hn, hm, h'⟩ := h.takeLast
    · exact ⟨_, n, m, by rw [hn]; rfl, by rw [hm]; rfl, h⟩
    · exact ⟨a, n', m', by rw [hn]; rfl, by rw [hm]; rfl, h'⟩
  obtain ⟨a, n', m', hn, hm, h'⟩ := htake
  unfold Nest.prime
  simp only [hn, hm]
  cases a.primed? with
  | none => trivial
  | some b => exact h'.deliver here here' b

theorem Within.column (h : Within under n m) (pos here pos' here' : Nat) :
    Lockstep (Within under) (n.column pos here) (m.column pos' here') := by
  refine (h.closeDeclarations here here').bind fun n m _ h => ?_
  cases h with
  | table h => exact .table h
  | base | group | environment | command => trivial

theorem Within.rowSeparator (h : Within under n m) (gap : Option Length)
    (pos here pos' here' : Nat) :
    Lockstep (Within under) (n.rowSeparator gap pos here) (m.rowSeparator gap pos' here') := by
  refine (h.closeDeclarations here here').bind fun n m _ h => ?_
  cases h with
  | base => exact .base
  | group h => exact .group h
  | table h => exact .table h
  | environment | command => trivial

theorem Within.closeEnvironment (h : Within under n m) (name : String)
    (pos here pos' here' : Nat) :
    Lockstep (Within under) (n.closeEnvironment name pos here)
      (m.closeEnvironment name pos' here') := by
  refine (h.closeDeclarations here here').bind fun n m _ h => ?_
  cases h with
  | base | group | environment | command => trivial
  | @table b n m h =>
    cases h with
    | base | group | table | command => trivial
    | @environment opened kind p q n m h =>
      simp only
      split
      · cases kind.finish b with
        | ok a => exact h.deliver here here' a
        | error e => trivial
      · trivial

theorem Within.fenceDelimiter (h : Within under n m) (d : Delimiter) (closing : Bool)
    (pos here pos' here' : Nat) :
    Lockstep (Within under) (n.fenceDelimiter d closing pos here)
      (m.fenceDelimiter d closing pos' here') := by
  refine (h.closeDeclarations here here').bind fun n m _ h => ?_
  cases h with
  | base | group | table | environment => trivial
  | @command c p q n m h =>
    simp only
    rcases c.state.fenceDelimiter d closing with _ | ⟨_ | a, state⟩
    · trivial
    · exact .command h
    · exact h.deliver here here' a

theorem Within.setLimits (h : Within under n m) (name : String) (above : Bool)
    (here here' : Nat) :
    Lockstep (fun p q => p.1 = q.1 ∧ Within under p.2 q.2) (n.setLimits name above here)
      (m.setLimits name above here') := by
  unfold Nest.setLimits
  obtain ⟨hn, hm⟩ | ⟨a, n', m', hn, hm, h'⟩ := h.takeLast <;> rw [hn, hm]
  · trivial
  · exact ⟨rfl, h'⟩

theorem Within.perform (h : Within under n m) (c : Command) (d : Directive)
    (pos here pos' here' : Nat) :
    Lockstep (Within under) (n.perform c pos here d) (m.perform c pos' here' d) := by
  cases d with
  | done a =>
    cases a with
    | none => exact h
    | some a => exact h.deliver here here' a
  | consume s => exact .command h
  | stealRow s =>
    simp only [Nest.perform]
    obtain ⟨hn, hm⟩ | ⟨row, n', m', hn, hm, h'⟩ := h.takeRow <;> rw [hn, hm]
    · trivial
    · exact .command h'
  | setLimits above =>
    refine (h.setLimits c.name above here here').bind fun p q _ hpq => ?_
    obtain ⟨a, n'⟩ := p
    obtain ⟨b, m'⟩ := q
    obtain ⟨rfl, h'⟩ : a = b ∧ Within under n' m' := hpq
    exact h'.deliver here here' a
  | openEnvironment name kind format => exact .table (.environment h)
  | closeEnvironment name => exact h.closeEnvironment name pos here pos' here'
  | rowSeparator gap => exact h.rowSeparator gap pos here pos' here'
  | middle d => exact h.fenceDelimiter d false pos here pos' here'
  | right d => exact h.fenceDelimiter d true pos here pos' here'

/-- Every token but a closing brace does the same to both nests. -/
theorem Within.apply (h : Within under n m) {move : Move} (hmove : move ≠ .closeGroup)
    (pos here pos' here' : Nat) :
    Lockstep (Within under) (n.apply pos here move) (m.apply pos' here' move) := by
  cases move with
  | nothing => exact h
  | atom a => exact h.deliver here here' a
  | openGroup => exact .group h
  | closeGroup => exact (hmove rfl).elim
  | script slot => exact h.script slot pos pos'
  | prime => exact h.prime pos here pos' here'
  | column => exact h.column pos here pos' here'
  | command c d => exact h.perform c d pos here pos' here'

/-! ## Closing braces -/

/-- A closing brace that closes something in the markup does the same in the group. -/
theorem Within.closeGroup (h : Within under n m) {n' : Nest} (hn : n.closeGroup pos here = .ok n')
    (pos' here' : Nat) : ∃ m', m.closeGroup pos' here' = .ok m' ∧ Within under n' m' := by
  have hclose := h.closeDeclarations here here'
  unfold Nest.closeGroup at hn ⊢
  cases hd : n.closeDeclarations here with
  | error f =>
    rw [hd] at hn
    cases hn
  | ok k =>
    obtain ⟨k', hk, h'⟩ := hclose.of_ok hd
    rw [hd] at hn
    rw [hk]
    cases h' with
    | group h' => exact (h'.deliver here here' _).of_ok hn
    | base | table | environment | command => cases hn

/-- Where the markup ends on its own, the closing brace of the group delivers its atom to what is
open around it. -/
theorem Within.closeGroup_of_finish (h : Within under n m) (hn : n.finish here = .ok a)
    (pos' here' : Nat) : m.closeGroup pos' here' = under.deliver here' a := by
  have hclose := h.closeDeclarations here here'
  unfold Nest.finish at hn
  unfold Nest.closeGroup
  cases hd : n.closeDeclarations here with
  | error f =>
    rw [hd] at hn
    cases hn
  | ok k =>
    obtain ⟨k', hk, h'⟩ := hclose.of_ok hd
    rw [hd] at hn
    rw [hk]
    cases h' with
    | base =>
      cases hn
      rfl
    | group | table | environment | command => cases hn

/-- The group is missing its closing brace where the markup ends. -/
theorem Within.finish_ne_ok (h : Within under n m) (here : Nat) (a : Atom) :
    m.finish here ≠ .ok a := by
  have hclose := h.closeDeclarations here here
  unfold Nest.finish
  cases hd : m.closeDeclarations here with
  | error f => rintro ⟨⟩
  | ok k =>
    obtain ⟨k', -, h'⟩ := hclose.of_ok_right hd
    cases h' <;> rintro ⟨⟩

end Typeset.Nest
