import Typeset.Markup.Parse

/-!
# Sound nests

What every nest of a parse keeps to, and that the operations on nests keep it.

* `Nest.Sound`: the root is at the bottom and nowhere else, a table stands directly on its
  environment and an environment directly under its table, and every command is waiting for atoms
  (`CommandState.IsWaiting`).
* `Nest.Sound.deliver`: a sound nest takes every atom; delivering never fails.
* `Nest.Safe`: what an operation may come to. Its nest is sound whether it succeeds or not, and its
  error is not one of the two that report a broken nest (`ParseError.IsInternal`).

Scripts take the last atom apart and use its base again, so a base without scripts
(`Atom.HasPlainBase`) has to hold of the atoms that can be taken back, too.
-/

namespace Typeset

/-- The atom has scripts. -/
def Atom.isScripts : Atom → Bool
  | .scripts .. => true
  | _ => false

/-- If the atom has scripts, then its base has none. -/
def Atom.HasPlainBase : Atom → Prop
  | .scripts base _ _ => base.isScripts = false
  | _ => True

/-- An atom without scripts has no base to speak of. -/
theorem Atom.HasPlainBase.of_isScripts {a : Atom} (h : a.isScripts = false) : a.HasPlainBase := by
  cases a with
  | scripts => cases h
  | _ => trivial

/-- A prime stands on the base of the atom. -/
theorem Atom.HasPlainBase.primed {a b : Atom} (ha : a.HasPlainBase) (h : a.primed? = some b) :
    b.HasPlainBase := by
  cases a with
  | scripts base sup sub =>
    cases sup with
    | none => cases h; exact ha
    | some sup =>
      simp only [primed?, Option.ite_none_right_eq_some] at h
      cases h.2
      exact ha
  | _ => cases h; rfl

/-- There is room for a script: the slot is empty or, above, it holds only primes. -/
def ScriptSlot.HasRoom (sup sub : Option Atom) : ScriptSlot → Prop
  | .sup => ∀ a ∈ sup, a.isPrimes = true
  | .sub => sub = none

theorem ScriptSlot.hasRoom_iff {sup sub : Option Atom} {slot : ScriptSlot} :
    slot.HasRoom sup sub ↔ Nest.isTaken sup sub slot = false := by
  cases slot
  · cases sup <;> simp [HasRoom, Nest.isTaken]
  · simp [HasRoom, Nest.isTaken]

namespace CommandState

/-- The command takes at least one further atom, and what it holds fits together. -/
def IsWaiting : CommandState → Prop
  | args kind as => as.length < kind.arity
  | switch .. | division .. => True
  | fence _ segments middles _ => segments.length = middles.length
  | script base sup sub slot => base.isScripts = false ∧ slot.HasRoom sup sub
  | fresh _ | defined _ => False

/-- The atoms that can be taken back have plain bases. -/
def HasPlainRow (s : CommandState) : Prop := ∀ row ∈ s.currentRow?, ∀ a ∈ row, a.HasPlainBase

end CommandState

theorem ArgKind.arity_pos (kind : ArgKind) : 0 < kind.arity := by
  cases kind <;> simp [arity]

/-- What arguments become has no scripts around it. -/
theorem ArgKind.isScripts_build (kind : ArgKind) (as : List Atom) :
    (kind.build as).isScripts = false := by
  unfold build
  split <;> first | rfl | (cases ‹Option Style› <;> rfl)

namespace CommandState

variable {s t : CommandState} {a b : Atom}

/-- A waiting command takes an atom and waits on, or is complete. -/
theorem IsWaiting.add (h : s.IsWaiting) (a : Atom) :
    (∃ t, s.add a = some (.pending, t) ∧ t.IsWaiting ∧
      (s.HasPlainRow → a.HasPlainBase → t.HasPlainRow)) ∨
    ∃ b t, s.add a = some (.complete b, t) ∧ b.HasPlainBase := by
  cases s with
  | args kind as =>
    by_cases hl : (as ++ [a]).length < kind.arity
    · exact .inl ⟨_, if_pos hl, hl, fun _ _ => by simp [HasPlainRow, currentRow?]⟩
    · exact .inr ⟨_, _, if_neg hl, .of_isScripts (kind.isScripts_build _)⟩
  | switch kind atoms =>
    exact .inl ⟨_, rfl, trivial, by simp +contextual [HasPlainRow, currentRow?, or_imp]⟩
  | division rule delims num den =>
    exact .inl ⟨_, rfl, trivial, by simp +contextual [HasPlainRow, currentRow?, or_imp]⟩
  | fence left segments middles current =>
    exact .inl ⟨_, rfl, h, by simp +contextual [HasPlainRow, currentRow?, or_imp]⟩
  | script base sup sub slot => cases slot <;> exact .inr ⟨_, _, rfl, h.1⟩
  | fresh b => exact h.elim
  | defined d => exact h.elim

/-- A declaration that ends has an atom. -/
theorem exists_close_of_isClosable (h : s.isClosable = true) :
    ∃ a, s.close.1 = some a ∧ a.HasPlainBase := by
  cases s with
  | switch kind atoms => exact ⟨_, rfl, trivial⟩
  | division rule delims num den =>
    refine ⟨_, rfl, ?_⟩
    split <;> trivial
  | _ => cases h

/-- What ends early has a plain base. -/
theorem IsWaiting.close (h : s.IsWaiting) (ha : s.close.1 = some a) : a.HasPlainBase := by
  cases s with
  | switch | fence => cases ha; trivial
  | division rule delims num den =>
    cases ha
    split <;> trivial
  | script base sup sub slot => cases ha; exact h.1
  | args | fresh | defined => cases ha

/-- Other atoms to take back leave the command waiting. -/
theorem IsWaiting.setCurrentRow (h : s.IsWaiting) (row : List Atom) :
    (s.setCurrentRow row).IsWaiting := by
  cases s <;> exact h

theorem currentRow?_setCurrentRow {row : List Atom} (h : s.currentRow? = some row)
    (new : List Atom) : (s.setCurrentRow new).currentRow? = some new := by
  cases s <;> first | rfl | cases h

end CommandState

/-- An atom joins the current cell or changes nothing there. -/
theorem TableBuilder.mem_cell_addAtom {b : TableBuilder} {a x : Atom} (h : x ∈ (b.addAtom a).cell) :
    x ∈ b.cell ∨ x = a := by
  unfold addAtom addRule at h
  split at h
  · split at h <;> exact .inl h
  · exact .inl h
  · exact .inl h
  · simpa using h

theorem Level.row?_setRow {level : Level} {row : List Atom} (h : level.row? = some row)
    (new : List Atom) : (level.setRow new).row? = some new := by
  cases level with
  | command c start => exact CommandState.currentRow?_setCurrentRow h new
  | environment => cases h
  | group | table => rfl

/-- The atoms that can be taken back have plain bases. -/
def Level.HasPlainRow (level : Level) : Prop := ∀ row ∈ level.row?, ∀ a ∈ row, a.HasPlainBase

/-- The error tells of a nest that is not sound: an atom found no level, or a command could not
take it. -/
def ParseError.isInternal : ParseError → Bool
  | syntaxError _ _ f => f = .takesNoArguments ∨ f = .outsideGroup
  | unknownCommand .. | dimension _ => false

/-- Naming the command in an error changes nothing about it here. -/
theorem ParseError.isInternal_inCommand (e : ParseError) (name : String) :
    (e.inCommand name).isInternal = e.isInternal := by
  unfold ParseError.inCommand
  split <;> rfl

namespace Nest

/-- The root is at the bottom and nowhere else, a table stands on its environment, and commands
wait. -/
inductive Sound : Nest → Prop where
  | root {atoms lines : List Atom} {start : Nat} :
      (Level.group atoms lines start true).HasPlainRow → Sound [.group atoms lines start true]
  | group {atoms lines : List Atom} {start : Nat} {n : Nest} :
      (Level.group atoms lines start false).HasPlainRow → Sound n →
      Sound (.group atoms lines start false :: n)
  | environment {b : TableBuilder} {name : String} {kind : TableKind} {start : Nat} {n : Nest} :
      (Level.table b).HasPlainRow → Sound n →
      Sound (.table b :: .environment name kind start :: n)
  | command {c : Command} {start : Nat} {n : Nest} :
      c.state.IsWaiting → (Level.command c start).HasPlainRow → Sound n →
      Sound (.command c start :: n)

/-- What an operation may come to: a result with `P`, or an error that leaves a sound nest and does
not tell of a broken one. -/
def Safe {α : Type} (P : α → Prop) : Except Failure α → Prop
  | .ok a => P a
  | .error f => f.nest.Sound ∧ f.error.isInternal = false

theorem Safe.bind {α β : Type} {P : α → Prop} {Q : β → Prop} {x : Except Failure α}
    {f : α → Except Failure β} (hx : Safe P x) (hf : ∀ a, P a → Safe Q (f a)) :
    Safe Q (x >>= f) := by
  cases x with
  | ok a => exact hf a hx
  | error e => exact hx

/-- The innermost level is a declaration. -/
def endsInDeclaration : Nest → Bool
  | .command c _ :: _ => c.state.isClosable
  | _ => false

variable {n m : Nest} {a : Atom}

/-- Without a declaration at its end, a nest has none to close. -/
theorem closeDeclarations_of_endsInDeclaration (h : n.endsInDeclaration = false) (here : Nat) :
    n.closeDeclarations here = .ok n := by
  rw [closeDeclarations.eq_def]
  split
  · exact if_neg (by simpa [endsInDeclaration] using h)
  · rfl

theorem sound_start : Nest.start.Sound := .root (by simp [Level.HasPlainRow, Level.row?])

/-- A sound nest takes every atom, and stays sound if the atom has a plain base. -/
theorem Sound.deliver (h : n.Sound) (here : Nat) (a : Atom) :
    ∃ m, n.deliver here a = .ok m ∧ (a.HasPlainBase → m.Sound) := by
  induction h generalizing a with
  | root hp =>
    exact ⟨_, rfl, fun ha => .root (by simp_all [Level.HasPlainRow, Level.row?, or_imp])⟩
  | group hp hn =>
    exact ⟨_, rfl, fun ha => .group (by simp_all [Level.HasPlainRow, Level.row?, or_imp]) hn⟩
  | environment hp hn =>
    refine ⟨_, rfl, fun ha => .environment ?_ hn⟩
    simp only [Level.HasPlainRow, Level.row?, Option.mem_some_iff, forall_eq'] at hp ⊢
    intro x hx
    exact (TableBuilder.mem_cell_addAtom hx).elim (hp x) (· ▸ ha)
  | @command c start n hc hp hn ih =>
    obtain ⟨t, ht, hw, hr⟩ | ⟨b, t, ht, hb⟩ := hc.add a
    · exact ⟨.command { c with state := t } start :: n, by simp [Nest.deliver, Command.add, ht],
        fun ha => .command hw (hr hp ha) hn⟩
    · obtain ⟨m, hm, hs⟩ := ih b
      exact ⟨m, by simpa [Nest.deliver, Command.add, ht] using hm, fun _ => hs hb⟩

/-- A sound nest closes its declarations. -/
theorem Sound.closeDeclarations (h : n.Sound) (here : Nat) :
    ∃ m, n.closeDeclarations here = .ok m ∧ m.Sound ∧ m.endsInDeclaration = false := by
  fun_induction Nest.closeDeclarations here n with
  | case1 c start n hc hnone =>
    obtain ⟨a, ha, -⟩ := CommandState.exists_close_of_isClosable hc
    rw [ha] at hnone
    cases hnone
  | case2 c start n hc a ha f hd =>
    cases h with
    | command hw hp hn =>
      obtain ⟨m, hm, -⟩ := hn.deliver here a
      rw [hm] at hd
      cases hd
  | case3 c start n hc a ha m hd ih =>
    cases h with
    | command hw hp hn =>
      obtain ⟨m', hm, hs⟩ := hn.deliver here a
      rw [hm] at hd
      cases hd
      exact ih (hs (hw.close ha))
  | case4 c start n hc => exact ⟨_, rfl, h, by simpa [endsInDeclaration] using hc⟩
  | case5 n hn =>
    refine ⟨_, rfl, h, ?_⟩
    unfold endsInDeclaration
    split
    · exact (hn _ _ _ rfl).elim
    · rfl

/-- A sound nest stays sound with other plain atoms in its innermost row. -/
theorem Sound.setRow {level : Level} {row new : List Atom} (h : Sound (level :: n))
    (hr : level.row? = some row) (hnew : ∀ a ∈ new, a.HasPlainBase) :
    Sound (level.setRow new :: n) := by
  have hp : (level.setRow new).HasPlainRow := by
    intro r hr'
    rw [Level.row?_setRow hr new] at hr'
    cases hr'
    exact hnew
  cases h with
  | root => exact .root hp
  | group _ hn => exact .group hp hn
  | environment _ hn => exact .environment hp hn
  | command hw _ hn => exact .command (hw.setCurrentRow new) hp hn

/-- The atoms of the innermost row have plain bases. -/
theorem Sound.plainRow {level : Level} (h : Sound (level :: n)) : level.HasPlainRow := by
  cases h <;> assumption

/-- A sound nest stays sound without its last atom, which has a plain base. -/
theorem Sound.takeLast (h : n.Sound) (ht : n.takeLast? = some (a, m)) :
    m.Sound ∧ a.HasPlainBase := by
  cases n with
  | nil => cases ht
  | cons level n =>
    simp only [takeLast?, Option.bind_eq_bind, Option.bind_eq_some_iff] at ht
    obtain ⟨row, hr, b, hb, ht⟩ := ht
    cases ht
    have hp := h.plainRow row hr
    exact ⟨h.setRow hr fun x hx => hp x (List.dropLast_subset row hx),
      hp a (List.mem_of_getLast? hb)⟩

/-- A sound nest stays sound without the atoms of its innermost row. -/
theorem Sound.takeRow {row : List Atom} (h : n.Sound) (ht : n.takeRow? = some (row, m)) :
    m.Sound := by
  cases n with
  | nil => cases ht
  | cons level n =>
    simp only [takeRow?, Option.map_eq_some_iff] at ht
    obtain ⟨r, hr, ht⟩ := ht
    cases ht
    exact h.setRow hr (by simp)

/-! ## The marks of the markup -/

theorem Sound.openGroup (h : n.Sound) (pos : Nat) : (n.openGroup pos).Sound :=
  .group (by simp [Level.HasPlainRow, Level.row?]) h

/-- The atom of a group has no scripts. -/
theorem isScripts_groupAtom (atoms lines : List Atom) :
    (groupAtom atoms lines).isScripts = false := by
  unfold groupAtom
  split <;> rfl

/-- Delivering to a sound nest is safe. -/
theorem Sound.safe_deliver (h : n.Sound) (here : Nat) (ha : a.HasPlainBase) :
    Safe Sound (n.deliver here a) := by
  obtain ⟨m, hm, hs⟩ := h.deliver here a
  rw [hm]
  exact hs ha

/-- What follows the end of the declarations is safe if it is on every sound nest without a
declaration at its end. -/
theorem Sound.safe_close {α : Type} {P : α → Prop} {f : Nest → Except Failure α} (h : n.Sound)
    (here : Nat) (hf : ∀ m : Nest, m.Sound → m.endsInDeclaration = false → Safe P (f m)) :
    Safe P (n.closeDeclarations here >>= f) := by
  obtain ⟨m, hm, hs, he⟩ := h.closeDeclarations here
  rw [hm]
  exact hf m hs he

theorem Sound.closeGroup (h : n.Sound) (pos here : Nat) : Safe Sound (n.closeGroup pos here) := by
  refine h.safe_close here fun m hm _ => ?_
  cases hm with
  | root hp => exact ⟨.root hp, rfl⟩
  | group hp hn => exact hn.safe_deliver here (.of_isScripts (isScripts_groupAtom _ _))
  | environment hp hn => exact ⟨.environment hp hn, rfl⟩
  | command hw hp hn => exact ⟨.command hw hp hn, rfl⟩

theorem Sound.script (h : n.Sound) (slot : ScriptSlot) (pos : Nat) :
    Safe Sound (n.script slot pos) := by
  unfold Nest.script
  split
  · exact ⟨h, rfl⟩
  · rename_i a m ht
    obtain ⟨hm, ha⟩ := h.takeLast ht
    have hb : a.openScripts.1.isScripts = false := by
      cases a <;> first | exact ha | rfl
    by_cases hs : isTaken a.openScripts.2.1 a.openScripts.2.2 slot = true
    · simp only [hs, if_true]
      exact ⟨hm, rfl⟩
    · simp only [hs]
      exact .command ⟨hb, ScriptSlot.hasRoom_iff.mpr (by simpa using hs)⟩
        (by simp [Level.HasPlainRow, Level.row?, CommandState.currentRow?]) hm

theorem Sound.prime (h : n.Sound) (pos here : Nat) : Safe Sound (n.prime pos here) := by
  have hm : (n.takeLast?.getD (.empty, n)).2.Sound ∧
      (n.takeLast?.getD (.empty, n)).1.HasPlainBase := by
    cases ht : n.takeLast? with
    | none => exact ⟨h, trivial⟩
    | some p => exact h.takeLast ht
  unfold Nest.prime
  split
  rename_i a m he
  rw [he] at hm
  obtain ⟨hm, ha⟩ := hm
  split
  · exact ⟨hm, rfl⟩
  · rename_i b hb
    exact hm.safe_deliver here (ha.primed hb)

/-! ## Tables, fences and commands -/

theorem Sound.column (h : n.Sound) (pos here : Nat) : Safe Sound (n.column pos here) := by
  refine h.safe_close here fun m hm _ => ?_
  cases hm with
  | root hp => exact ⟨.root hp, rfl⟩
  | group hp hn => exact ⟨.group hp hn, rfl⟩
  | environment hp hn =>
    exact .environment (by simp [Level.HasPlainRow, Level.row?, TableBuilder.addColumn]) hn
  | command hw hp hn => exact ⟨.command hw hp hn, rfl⟩

theorem Sound.rowSeparator (h : n.Sound) (gap : Option Length) (pos here : Nat) :
    Safe Sound (n.rowSeparator gap pos here) := by
  refine h.safe_close here fun m hm _ => ?_
  cases hm with
  | root hp => exact .root (by simp [Level.HasPlainRow, Level.row?])
  | group hp hn => exact .group (by simp [Level.HasPlainRow, Level.row?]) hn
  | environment hp hn =>
    exact .environment
      (by simp [Level.HasPlainRow, Level.row?, TableBuilder.addRow, TableBuilder.addColumn]) hn
  | command hw hp hn => exact ⟨.command hw hp hn, rfl⟩

/-- A finished table has no scripts around it. -/
theorem isScripts_finish {kind : TableKind} {b : TableBuilder} (h : kind.finish b = .ok a) :
    a.isScripts = false := by
  unfold TableKind.finish at h
  cases hb : b.checked with
  | error e => rw [hb] at h; cases h
  | ok t =>
    rw [hb] at h
    cases kind <;> cases h <;> rfl

theorem Sound.closeEnvironment (h : n.Sound) (name : String) (pos here : Nat) :
    Safe Sound (n.closeEnvironment name pos here) := by
  refine h.safe_close here fun m hm _ => ?_
  cases hm with
  | root hp => exact ⟨.root hp, rfl⟩
  | group hp hn => exact ⟨.group hp hn, rfl⟩
  | @environment b opened kind start n hp hn =>
    simp only
    split
    · cases hf : kind.finish b with
      | ok a => exact hn.safe_deliver here (.of_isScripts (isScripts_finish hf))
      | error e => exact ⟨hn, rfl⟩
    · exact ⟨hn, rfl⟩
  | command hw hp hn => exact ⟨.command hw hp hn, rfl⟩

theorem Sound.fenceDelimiter (h : n.Sound) (d : Delimiter) (closing : Bool) (pos here : Nat) :
    Safe Sound (n.fenceDelimiter d closing pos here) := by
  refine h.safe_close here fun m hm _ => ?_
  cases hm with
  | root hp => exact ⟨.root hp, rfl⟩
  | group hp hn => exact ⟨.group hp hn, rfl⟩
  | environment hp hn => exact ⟨.environment hp hn, rfl⟩
  | @command c start n hw hp hn =>
    simp only
    cases hs : c.state with
    | fence left segments middles current =>
      rw [hs] at hw
      cases closing with
      | true => exact hn.safe_deliver here trivial
      | false =>
        refine .command ?_ (by simp [Level.HasPlainRow, Level.row?, CommandState.currentRow?]) hn
        simpa [CommandState.IsWaiting] using hw
    | _ => exact ⟨.command hw hp hn, rfl⟩

theorem Sound.setLimits (h : n.Sound) (name : String) (above : Bool) (here : Nat) :
    Safe (fun p => p.2.Sound ∧ p.1.HasPlainBase) (n.setLimits name above here) := by
  unfold Nest.setLimits
  split
  · exact ⟨h, rfl⟩
  · exact ⟨(h.takeLast ‹_›).1, trivial⟩

end Nest

/-- What the directive brings to a nest may stand there. -/
def Directive.Fits : Directive → Prop
  | done a => ∀ b ∈ a, b.HasPlainBase
  | consume s => s.IsWaiting ∧ s.HasPlainRow
  | stealRow s => ∀ row, (s.steal row).IsWaiting ∧ (s.steal row).HasPlainRow
  | setLimits _ | openEnvironment .. | closeEnvironment _ | rowSeparator _ | middle _ | right _ =>
    True

/-- What the move brings to a nest may stand there. -/
def Move.Fits : Move → Prop
  | atom a => a.HasPlainBase
  | command _ d => d.Fits
  | nothing | openGroup | closeGroup | script _ | prime | column => True

namespace Nest

variable {n m : Nest} {a : Atom}

theorem Sound.perform (h : n.Sound) (c : Command) (pos here : Nat) {d : Directive} (hd : d.Fits) :
    Safe Sound (n.perform c pos here d) := by
  cases d with
  | done a =>
    cases a with
    | none => exact h
    | some a => exact h.safe_deliver here (hd a rfl)
  | consume s => exact .command hd.1 hd.2 h
  | stealRow s =>
    simp only [Nest.perform]
    split
    · exact ⟨h, rfl⟩
    · rename_i row m ht
      exact .command (hd row).1 (hd row).2 (h.takeRow ht)
  | setLimits above =>
    exact (h.setLimits c.name above here).bind fun p hp => hp.1.safe_deliver here hp.2
  | openEnvironment name kind format =>
    exact .environment (by simp [Level.HasPlainRow, Level.row?, TableBuilder.start]) h
  | closeEnvironment name => exact h.closeEnvironment name pos here
  | rowSeparator gap => exact h.rowSeparator gap pos here
  | middle d => exact h.fenceDelimiter d false pos here
  | right d => exact h.fenceDelimiter d true pos here

/-- Every token leaves a sound nest, also where it is refused. -/
theorem Sound.apply (h : n.Sound) (pos here : Nat) {move : Move} (hm : move.Fits) :
    Safe Sound (n.apply pos here move) := by
  cases move with
  | nothing => exact h
  | atom a => exact h.safe_deliver here hm
  | openGroup => exact h.openGroup pos
  | closeGroup => exact h.closeGroup pos here
  | script slot => exact h.script slot pos
  | prime => exact h.prime pos here
  | column => exact h.column pos here
  | command c d => exact h.perform c pos here hm

/-! ## The end -/

/-- A group as one atom has a plain base. -/
theorem hasPlainBase_unwrapped_groupAtom {atoms lines : List Atom}
    (h : ∀ a ∈ atoms, a.HasPlainBase) : (groupAtom atoms lines).unwrapped.HasPlainBase := by
  unfold groupAtom
  split
  · simp only [Atom.unwrapped]
    unfold Atom.ofList
    split
    · exact h _ (by simp)
    · trivial
  · trivial

theorem Sound.finish (h : n.Sound) (here : Nat) :
    Safe (fun a => a.unwrapped.HasPlainBase) (n.finish here) := by
  refine h.safe_close here fun m hm _ => ?_
  cases hm with
  | root hp => exact hasPlainBase_unwrapped_groupAtom (hp _ rfl)
  | group hp hn => exact ⟨.group hp hn, rfl⟩
  | environment hp hn => exact ⟨.environment hp hn, rfl⟩
  | command hw hp hn =>
    refine ⟨.command hw hp hn, ?_⟩
    simp only
    split <;> rfl

/-- Below the innermost level, a sound nest is sound; the atom of the level has a plain base. -/
theorem Sound.pop (h : n.Sound) (hl : 1 < n.length) :
    n.pop.2.Sound ∧ ∀ a ∈ n.pop.1, a.HasPlainBase := by
  cases h with
  | root => simp at hl
  | group hp hn =>
    exact ⟨hn, by rintro _ ⟨⟩; exact .of_isScripts (isScripts_groupAtom _ _)⟩
  | @environment b name kind start n hp hn =>
    refine ⟨hn, fun a ha => ?_⟩
    cases hf : kind.finish b with
    | ok a' =>
      simp only [Nest.pop, hf, Except.toOption] at ha
      cases ha
      exact .of_isScripts (isScripts_finish hf)
    | error e => simp [Nest.pop, hf, Except.toOption] at ha
  | command hw hp hn => exact ⟨hn, fun a ha => hw.close ha⟩

/-- Folding the innermost level into the one below it. -/
theorem Sound.fold (h : n.Sound) (hl : 1 < n.length) : n.fold.Sound := by
  obtain ⟨hs, ha⟩ := h.pop hl
  unfold Nest.fold
  split
  · rename_i m hp
    rw [hp] at hs
    exact hs
  · rename_i a m hp
    rw [hp] at hs ha
    obtain ⟨k, hk, hks⟩ := hs.deliver 0 a
    rw [hk]
    exact hks (ha a rfl)

end Nest

end Typeset
