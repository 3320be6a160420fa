import Typeset.Proofs.Nest.Held
import Typeset.Proofs.Table.Checked

/-!
# What the operations on nests keep

Atoms are moved, taken back, put together and handed on, but their parts stay: a nest after an
operation holds the parts it held before and those that the operation brought. That is so for the
parts that any predicate picks which spares the atoms that are put together (`Atom.Spares`).

* `Nest.pick`: the parts that are picked out of all that a nest holds.
* `Nest.Conserves`: an operation that succeeds keeps them all, one that fails has no others.
* `Nest.Sound.conserves_apply`: so does every token on a sound nest.
* `Nest.Sound.pick_finish`: the atom of the markup has the parts of the nest.
* `Nest.Sound.pick_salvage`: an atom that is salvaged has no others.
-/

namespace Typeset

open Atom

variable {p : Atom → Bool}

/-! ## Commands -/

/-- The atom of a command has the parts of its arguments. -/
theorem Atom.Spares.pick_build (hp : Spares p) {kind : ArgKind} {as : List Atom}
    (h : as.length = kind.arity) :
    (kind.build as).pick p = pickAll p (CommandState.args kind as).held := by
  cases kind with
  | fraction rule style fenced =>
    obtain ⟨num, den, rfl⟩ := List.length_eq_two.mp h
    have hstyle (a : Atom) : (ArgKind.inStyle style a).pick p = a.pick p := by
      cases style with
      | none => rfl
      | some s => exact hp.pick_of_child rfl rfl
    cases fenced <;>
      simp [ArgKind.build, ArgKind.fence, hstyle, hp.pick_fraction, hp.pick_fenced,
        CommandState.held, ArgKind.degree?]
  | sqrt degree =>
    obtain ⟨a, rfl⟩ := List.length_eq_one_iff.mp h
    rw [ArgKind.build, hp.pick_simple rfl]
    simp [children, CommandState.held, ArgKind.degree?, add_comm]
  | _ =>
    obtain ⟨a, rfl⟩ := List.length_eq_one_iff.mp h
    rw [ArgKind.build, hp.pick_of_child rfl rfl]
    simp [CommandState.held, ArgKind.degree?]

namespace CommandState

variable {s t : CommandState} {a b : Atom}

/-- A waiting command that takes an atom holds it, or has it in the atom that it becomes. -/
theorem IsWaiting.pick_add (hp : Spares p) (h : s.IsWaiting) {progress : Progress}
    (ha : s.add a = some (progress, t)) :
    match progress with
    | .pending => pickAll p t.held = pickAll p s.held + a.pick p
    | .complete b => b.pick p = pickAll p s.held + a.pick p := by
  cases s with
  | args kind as =>
    simp only [CommandState.add] at ha
    split at ha
    · cases ha
      simp [held, add_assoc]
    · rename_i hl
      cases ha
      have hlength : (as ++ [a]).length = kind.arity := by
        simp only [IsWaiting, List.length_append, List.length_singleton] at h hl ⊢
        omega
      simp [hp.pick_build hlength, held, add_assoc]
  | switch kind atoms =>
    cases ha
    simp [held]
  | division rule delims num den =>
    cases ha
    simp [held, add_assoc]
  | fence left segments middles current =>
    cases ha
    simp [held, add_assoc]
  | script base sup sub slot =>
    obtain ⟨hb, hroom⟩ := h
    cases slot with
    | sup =>
      cases sup with
      | none =>
        cases ha
        simp [hp.pick_scripts hb, hasScript, held]
        abel
      | some primes =>
        have hprimes : primes.isPrimes = true := hroom primes rfl
        simp only [CommandState.add, hprimes, if_true] at ha
        cases ha
        simp [hp.pick_scripts hb, hasScript, held, hp.pick_afterPrimes]
        abel
    | sub =>
      obtain rfl : sub = none := hroom
      cases ha
      simp [hp.pick_scripts hb, hasScript, held, add_assoc]
  | fresh | defined => cases ha

/-- A declaration that ends has all it holds in its atom. -/
theorem pick_close_of_isClosable (hp : Spares p) (h : s.isClosable = true)
    (ha : s.close.1 = some a) : a.pick p = pickAll p s.held := by
  cases s with
  | switch kind atoms =>
    cases ha
    exact hp.pick_simple rfl
  | division rule delims num den =>
    cases delims <;> cases ha <;>
      simp [ArgKind.fence, hp.pick_fenced, hp.pick_fraction, hp.pick_row, held]
  | _ => cases h

/-- A fence that takes a delimiter keeps its segments. -/
theorem IsWaiting.pick_fenceDelimiter (hp : Spares p) (h : s.IsWaiting) {d : Delimiter}
    {closing : Bool} {progress : Progress} (hd : s.fenceDelimiter d closing = some (progress, t)) :
    match progress with
    | .pending => pickAll p t.held = pickAll p s.held
    | .complete b => b.pick p = pickAll p s.held := by
  cases s with
  | fence left segments middles current =>
    have hl : (segments ++ [Atom.row current]).length = middles.length + 1 := by
      simpa [IsWaiting] using h
    cases closing <;> cases hd <;> simp [hp.pick_fenced hl, hp.pick_row, held]
  | _ => cases hd

/-- Other atoms to take back replace those that the command had. -/
theorem pick_setCurrentRow {row : List Atom} (h : s.currentRow? = some row) (new : List Atom) :
    pickAll p (s.setCurrentRow new).held + pickAll p row = pickAll p s.held + pickAll p new := by
  cases s <;> cases h <;> simp [setCurrentRow, held] <;> abel

end CommandState

/-! ## Tables -/

namespace TableBuilder

/-- An atom joins the current cell; a marker has no parts. -/
theorem pick_addAtom (hp : Spares p) (b : TableBuilder) (a : Atom) :
    pickAll p (b.addAtom a).held = pickAll p b.held + a.pick p := by
  cases a with
  | hrule r =>
    rw [hp.pick_simple rfl, addAtom, addRule]
    split <;> simp [held, children]
  | cellColor | rowColor =>
    rw [hp.pick_simple rfl]
    simp [addAtom, held, children]
  | _ => simp [addAtom, held, add_assoc]

theorem pick_addColumn (hp : Spares p) (b : TableBuilder) :
    pickAll p b.addColumn.held = pickAll p b.held := by
  simp [addColumn, held, hp.pick_row]

theorem pick_addRow (hp : Spares p) (b : TableBuilder) (gap : Option Length) :
    pickAll p (b.addRow gap).held = pickAll p b.held := by
  rw [← pick_addColumn hp b]
  simp [addRow, addColumn, held, Table.contents]

theorem pick_close (hp : Spares p) (b : TableBuilder) :
    pickAll p b.close.table.contents = pickAll p b.held := by
  rw [Table.contents, close_rows]
  unfold lastRow
  split
  · rename_i hf
    simp only [isFresh, Bool.and_eq_true, List.isEmpty_iff] at hf
    simp [held, Table.contents, hf.1.1, hf.1.2]
  · simp [addColumn, held, Table.contents, hp.pick_row]

/-- The cells that are added to a short row are empty. -/
theorem pick_padRow (hp : Spares p) (columns : Nat) (r : TableRow Atom) :
    pickAll p ((padRow columns r).cells.map Cell.content) =
      pickAll p (r.cells.map Cell.content) := by
  have hempty (k : Nat) : pickAll p (List.replicate k emptyCell.content) = 0 := by
    induction k with
    | zero => rfl
    | succ k ih => rw [List.replicate_succ, pickAll_cons, ih, emptyCell, hp.pick_row]; rfl
  simp [padRow, hempty]

end TableBuilder

/-- The atom of an environment has the parts of its body. -/
theorem TableKind.pick_finish (hp : Spares p) {kind : TableKind} {b : TableBuilder} {a : Atom}
    (h : kind.finish b = .ok a) : a.pick p = pickAll p b.held := by
  obtain ⟨t, ht, rfl, hrows⟩ := exists_of_finish h
  rw [hp.pick_ofTable kind ht, ← TableBuilder.pick_close hp, Table.contents, Table.contents, hrows]
  induction b.close.table.rows with
  | nil => rfl
  | cons r rows ih => simpa [TableBuilder.pick_padRow hp] using ih

/-! ## Nests -/

/-- Other atoms to take back replace those that the level had. -/
theorem Level.pick_setRow {level : Level} {row : List Atom} (h : level.row? = some row)
    (new : List Atom) :
    pickAll p (level.setRow new).held + pickAll p row = pickAll p level.held + pickAll p new := by
  cases level with
  | group atoms lines start root =>
    cases h
    simp [setRow, held]
    abel
  | table b =>
    cases h
    simp [setRow, held, TableBuilder.held]
    abel
  | environment => cases h
  | command c start => exact CommandState.pick_setCurrentRow h new

namespace Nest

variable {n m : Nest} {a : Atom} {here : Nat}

/-- The parts that are picked out of all that the nest holds. -/
def pick (p : Atom → Bool) (n : Nest) : Multiset Atom := pickAll p n.held

@[simp] theorem pick_nil : pick p [] = 0 := rfl

@[simp] theorem pick_cons (level : Level) (n : Nest) :
    pick p (level :: n) = pickAll p level.held + n.pick p := by
  simp [pick, held]

/-- An operation keeps the parts `total` if it succeeds, and has no others if it fails. -/
def Conserves (p : Atom → Bool) (total : Multiset Atom) : Except Failure Nest → Prop
  | .ok m => m.pick p = total
  | .error f => f.nest.pick p ≤ total

/-- Delivering an atom adds its parts. -/
theorem Sound.pick_deliver (hp : Spares p) (h : n.Sound) (hd : n.deliver here a = .ok m) :
    m.pick p = n.pick p + a.pick p := by
  induction h generalizing a m with
  | root | group =>
    cases hd
    simp [Level.held]
    abel
  | environment =>
    cases hd
    simp [Level.held, TableBuilder.pick_addAtom hp]
    abel
  | @command c start n hw _ hn ih =>
    obtain ⟨t, ht, -⟩ | ⟨b, t, ht, -⟩ := hw.add a
    · simp only [Nest.deliver, Command.add, ht] at hd
      cases hd
      have hs : pickAll p t.held = _ := hw.pick_add hp ht
      simp only [pick_cons, Level.held, hs]
      abel
    · simp only [Nest.deliver, Command.add, ht] at hd
      have hb : b.pick p = _ := hw.pick_add hp ht
      rw [ih hd, hb, pick_cons, Level.held]
      abel

theorem Sound.conserves_deliver (hp : Spares p) (h : n.Sound) (here : Nat) (a : Atom) :
    Conserves p (n.pick p + a.pick p) (n.deliver here a) := by
  obtain ⟨m, hm, -⟩ := h.deliver here a
  rw [hm]
  exact h.pick_deliver hp hm

/-- Declarations that end hand on what they hold. -/
theorem Sound.pick_closeDeclarations (hp : Spares p) (h : n.Sound)
    (hc : n.closeDeclarations here = .ok m) : m.pick p = n.pick p := by
  fun_induction Nest.closeDeclarations here n with
  | case1 c start n hcl hnone =>
    obtain ⟨a, ha, -⟩ := CommandState.exists_close_of_isClosable hcl
    rw [ha] at hnone
    cases hnone
  | case2 => cases hc
  | case3 c start n hcl a ha k hd ih =>
    cases h with
    | command hw _ hn =>
      obtain ⟨k', hk, hs⟩ := hn.deliver here a
      rw [hk] at hd
      cases hd
      rw [ih (hs (hw.close ha)) hc, hn.pick_deliver hp hk,
        CommandState.pick_close_of_isClosable hp hcl ha, pick_cons, Level.held, add_comm]
  | case4 | case5 =>
    cases hc
    rfl

/-- What follows the end of the declarations conserves the parts if it does on every sound nest
with the same ones. -/
theorem Sound.conserves_close (hp : Spares p) (h : n.Sound) (here : Nat) {total : Multiset Atom}
    {f : Nest → Except Failure Nest}
    (hf : ∀ m : Nest, m.Sound → m.pick p = n.pick p → Conserves p total (f m)) :
    Conserves p total (n.closeDeclarations here >>= f) := by
  obtain ⟨m, hm, hs, -⟩ := h.closeDeclarations here
  rw [hm]
  exact hf m hs (h.pick_closeDeclarations hp hm)

/-! ## Taking atoms back -/

/-- The last atom and what is left of the nest have the parts of the nest. -/
theorem pick_takeLast (ht : n.takeLast? = some (a, m)) : m.pick p + a.pick p = n.pick p := by
  cases n with
  | nil => cases ht
  | cons level n =>
    simp only [takeLast?, Option.bind_eq_bind, Option.bind_eq_some_iff] at ht
    obtain ⟨row, hr, b, hb, ht⟩ := ht
    cases ht
    obtain ⟨init, rfl⟩ := List.getLast?_eq_some_iff.mp hb
    have hset := Level.pick_setRow (p := p) hr init
    rw [pickAll_append, pickAll_cons, pickAll_nil, add_zero, ← add_assoc, add_right_comm,
      add_left_inj] at hset
    rw [List.dropLast_concat, pick_cons, pick_cons, ← hset]
    abel

/-- The atoms of the innermost row and what is left of the nest have the parts of the nest. -/
theorem pick_takeRow {row : List Atom} (ht : n.takeRow? = some (row, m)) :
    m.pick p + pickAll p row = n.pick p := by
  cases n with
  | nil => cases ht
  | cons level n =>
    simp only [takeRow?, Option.map_eq_some_iff] at ht
    obtain ⟨r, hr, ht⟩ := ht
    cases ht
    have hset := Level.pick_setRow (p := p) hr []
    rw [pickAll_nil, add_zero] at hset
    rw [pick_cons, pick_cons, ← hset]
    abel

end Nest

/-- An atom that is not picked for its scripts has the parts of its base and its scripts. -/
theorem Atom.pick_openScripts {a base : Atom} {sup sub : Option Atom}
    (ho : a.openScripts = (base, sup, sub)) (h : a.isScripts = true → p a = false) :
    base.pick p + pickAll p sup.toList + pickAll p sub.toList = a.pick p := by
  cases a with
  | scripts b s t =>
    cases ho
    rw [pick_of_not (h rfl)]
    simp [children, add_assoc]
  | _ =>
    cases ho
    simp

/-- A prime is added to the parts of the atom it stands on. -/
theorem Atom.Spares.pick_primed (hp : Spares p) {a b : Atom} (hb : a.primed? = some b)
    (ha : a.HasPlainBase) (h : a.isScripts = true → p a = false) :
    b.pick p = a.pick p + Atom.prime.pick p := by
  cases a with
  | scripts base sup sub =>
    rw [pick_of_not (h rfl)]
    cases sup with
    | none =>
      cases hb
      rw [hp.pick_scripts ha rfl]
      simp [children]
      abel
    | some primes =>
      simp only [primed?, Option.ite_none_right_eq_some] at hb
      obtain ⟨-, hb⟩ := hb
      cases hb
      rw [hp.pick_scripts ha rfl]
      simp [children, hp.pick_afterPrimes]
      abel
  | _ =>
    cases hb
    rw [hp.pick_scripts rfl rfl]
    simp

namespace Nest

variable {n m : Nest} {a : Atom} {here : Nat}

/-- No atom that is picked out of the nest has scripts. -/
def PicksNoScripts (p : Atom → Bool) (n : Nest) : Prop := ∀ a ∈ n.pick p, a.isScripts = false

/-- The last atom is not picked for its scripts. -/
theorem PicksNoScripts.takeLast (h : n.PicksNoScripts p) (ht : n.takeLast? = some (a, m))
    (hs : a.isScripts = true) : p a = false := by
  by_contra hpa
  have hmem : a ∈ n.pick p := by
    rw [← pick_takeLast ht]
    exact Multiset.mem_add.mpr (.inr (mem_pick.mpr ⟨by simp [parts], by simpa using hpa⟩))
  rw [h a hmem] at hs
  cases hs

/-! ## The marks of the markup -/

theorem Sound.conserves_closeGroup (hp : Spares p) (h : n.Sound) (pos here : Nat) :
    Conserves p (n.pick p) (n.closeGroup pos here) := by
  refine h.conserves_close hp here fun m hm heq => ?_
  cases hm with
  | group _ hn =>
    rw [← heq, pick_cons, Level.held, add_comm, pickAll_append, ← hp.pick_groupAtom]
    exact hn.conserves_deliver hp here _
  | root | environment | command => exact heq.le

theorem conserves_script (hs : n.PicksNoScripts p) (slot : ScriptSlot) (pos : Nat) :
    Conserves p (n.pick p) (n.script slot pos) := by
  unfold Nest.script
  cases ht : n.takeLast? with
  | none => exact le_rfl
  | some q =>
    obtain ⟨a, m⟩ := q
    obtain ⟨base, sup, sub, ho⟩ : ∃ base sup sub, a.openScripts = (base, sup, sub) := ⟨_, _, _, rfl⟩
    have hparts := pick_openScripts ho (hs.takeLast ht)
    simp only [ho]
    rw [← pick_takeLast ht, ← hparts]
    split
    · exact Multiset.le_add_right _ _
    · simp [Conserves, Level.held, CommandState.held]
      abel

theorem Sound.conserves_prime (hp : Spares p) (h : n.Sound) (hs : n.PicksNoScripts p)
    (pos here : Nat) :
    Conserves p (n.pick p + Atom.prime.pick p) (n.prime pos here) := by
  -- Without an atom to stand on, the prime stands on the empty one, which has no parts.
  obtain ⟨a, m, heq, hm, ha, hpa, hpick⟩ : ∃ a m, n.takeLast?.getD (.empty, n) = (a, m) ∧
      m.Sound ∧ a.HasPlainBase ∧ (a.isScripts = true → p a = false) ∧
      m.pick p + a.pick p = n.pick p := by
    cases ht : n.takeLast? with
    | none =>
      refine ⟨.empty, n, rfl, h, trivial, by simp [isScripts], ?_⟩
      rw [hp.pick_simple rfl]
      simp [children]
    | some q =>
      exact ⟨_, _, rfl, (h.takeLast ht).1, (h.takeLast ht).2, hs.takeLast ht, pick_takeLast ht⟩
  unfold Nest.prime
  simp only [heq]
  rw [← hpick, add_assoc]
  cases hb : a.primed? with
  | none => exact Multiset.le_add_right _ _
  | some b =>
    rw [← hp.pick_primed hb ha hpa]
    exact hm.conserves_deliver hp here b

theorem Sound.conserves_column (hp : Spares p) (h : n.Sound) (pos here : Nat) :
    Conserves p (n.pick p) (n.column pos here) := by
  refine h.conserves_close hp here fun m hm heq => ?_
  cases hm with
  | environment =>
    rw [← heq]
    simp [Conserves, Level.held, TableBuilder.pick_addColumn hp]
  | root | group | command => exact heq.le

theorem Sound.conserves_rowSeparator (hp : Spares p) (h : n.Sound) (gap : Option Length)
    (pos here : Nat) : Conserves p (n.pick p) (n.rowSeparator gap pos here) := by
  refine h.conserves_close hp here fun m hm heq => ?_
  cases hm with
  | root | group =>
    rw [← heq]
    simp [Conserves, Level.held, hp.pick_row]
  | environment =>
    rw [← heq]
    simp [Conserves, Level.held, TableBuilder.pick_addRow hp]
  | command => exact heq.le

theorem Sound.conserves_closeEnvironment (hp : Spares p) (h : n.Sound) (name : String)
    (pos here : Nat) : Conserves p (n.pick p) (n.closeEnvironment name pos here) := by
  refine h.conserves_close hp here fun m hm heq => ?_
  cases hm with
  | @environment b opened kind start k _ hn =>
    have hparts : k.pick p + pickAll p b.held = n.pick p := by
      rw [← heq]
      simp [Level.held, add_comm]
    have hle : k.pick p ≤ n.pick p := hparts ▸ Multiset.le_add_right _ _
    simp only
    split
    · cases hf : kind.finish b with
      | ok a =>
        rw [← hparts, ← TableKind.pick_finish hp hf]
        exact hn.conserves_deliver hp here a
      | error e => exact hle
    · exact hle
  | root | group | command => exact heq.le

theorem Sound.conserves_fenceDelimiter (hp : Spares p) (h : n.Sound) (d : Delimiter)
    (closing : Bool) (pos here : Nat) :
    Conserves p (n.pick p) (n.fenceDelimiter d closing pos here) := by
  refine h.conserves_close hp here fun m hm heq => ?_
  cases hm with
  | root | group | environment => exact heq.le
  | @command c start k hw _ hn =>
    have hparts : k.pick p + pickAll p c.state.held = n.pick p := by
      rw [← heq, pick_cons, Level.held, add_comm]
    simp only
    cases hs : c.state.fenceDelimiter d closing with
    | none => exact heq.le
    | some q =>
      obtain ⟨progress, state⟩ := q
      have hkept := hw.pick_fenceDelimiter hp hs
      rw [← hparts]
      cases progress with
      | pending =>
        simp only at hkept
        simp [Conserves, Level.held, hkept, add_comm]
      | complete a =>
        simp only at hkept
        simp only [← hkept]
        exact hn.conserves_deliver hp here a

theorem Sound.conserves_setLimits (hp : Spares p) (h : n.Sound) (name : String) (above : Bool)
    (here : Nat) :
    Conserves p (n.pick p) (do
      let (a, m) ← n.setLimits name above here
      m.deliver here a) := by
  unfold Nest.setLimits
  cases ht : n.takeLast? with
  | none => exact le_rfl
  | some q =>
    obtain ⟨a, m⟩ := q
    have hlimits : (Atom.limits a above).pick p = a.pick p := hp.pick_of_child rfl rfl
    rw [← pick_takeLast ht, ← hlimits]
    exact (h.takeLast ht).1.conserves_deliver hp here _

end Nest

/-- A command that takes the row before it holds nothing itself. -/
def Directive.StealsForDivision : Directive → Prop
  | stealRow s => ∃ rule delims, s = .division rule delims [] []
  | done _ | consume _ | setLimits _ | openEnvironment .. | closeEnvironment _ | rowSeparator _
  | middle _ | right _ => True

/-- A token that takes the row before it starts a fraction. -/
def Move.StealsForDivision : Move → Prop
  | command _ d => d.StealsForDivision
  | nothing | atom _ | openGroup | closeGroup | script _ | prime | column => True

namespace Nest

variable {n m : Nest} {a : Atom} {here : Nat}

theorem Sound.conserves_perform (hp : Spares p) (h : n.Sound) (c : Command) (pos here : Nat)
    {d : Directive} (hd : d.StealsForDivision) :
    Conserves p (n.pick p + pickAll p d.brought) (n.perform c pos here d) := by
  cases d with
  | done a =>
    cases a with
    | none => exact (add_zero _).symm
    | some a => simpa [Directive.brought, Nest.perform] using h.conserves_deliver hp here a
  | consume s => simp [Nest.perform, Conserves, Directive.brought, Level.held, add_comm]
  | stealRow s =>
    obtain ⟨rule, delims, rfl⟩ := hd
    simp only [Nest.perform]
    cases ht : n.takeRow? with
    | none => exact Multiset.le_add_right _ _
    | some q =>
      obtain ⟨row, m⟩ := q
      rw [← pick_takeRow ht]
      simp [Conserves, Directive.brought, CommandState.steal, CommandState.held, Level.held,
        add_comm]
  | setLimits above =>
    simpa [Directive.brought, Nest.perform] using h.conserves_setLimits hp c.name above here
  | openEnvironment name kind format =>
    simp [Nest.perform, Conserves, Directive.brought, Level.held, TableBuilder.start,
      TableBuilder.held, Table.contents]
  | closeEnvironment name =>
    simpa [Directive.brought, Nest.perform] using h.conserves_closeEnvironment hp name pos here
  | rowSeparator gap =>
    simpa [Directive.brought, Nest.perform] using h.conserves_rowSeparator hp gap pos here
  | middle d =>
    simpa [Directive.brought, Nest.perform] using h.conserves_fenceDelimiter hp d false pos here
  | right d =>
    simpa [Directive.brought, Nest.perform] using h.conserves_fenceDelimiter hp d true pos here

/-- Every token adds the parts it brings to those of the nest, and loses none unless it is
refused. -/
theorem Sound.conserves_apply (hp : Spares p) (h : n.Sound) (hs : n.PicksNoScripts p)
    (pos here : Nat) {move : Move} (hm : move.StealsForDivision) :
    Conserves p (n.pick p + pickAll p move.brought) (n.apply pos here move) := by
  cases move with
  | nothing => exact (add_zero _).symm
  | atom a => simpa [Move.brought, Nest.apply] using h.conserves_deliver hp here a
  | openGroup => simp [Nest.apply, Conserves, Nest.openGroup, Move.brought, Level.held]
  | closeGroup => simpa [Move.brought, Nest.apply] using h.conserves_closeGroup hp pos here
  | script slot => simpa [Move.brought, Nest.apply] using conserves_script hs slot pos
  | prime => simpa [Move.brought, Nest.apply] using h.conserves_prime hp hs pos here
  | column => simpa [Move.brought, Nest.apply] using h.conserves_column hp pos here
  | command c d => exact h.conserves_perform hp c pos here hm

/-! ## The end -/

/-- The atom of the markup has all parts of the nest. -/
theorem Sound.pick_finish (hp : Spares p) (h : n.Sound) (hf : n.finish here = .ok a) :
    a.pick p = n.pick p := by
  obtain ⟨m, hm, hs, -⟩ := h.closeDeclarations here
  rw [← h.pick_closeDeclarations hp hm]
  unfold Nest.finish at hf
  rw [hm] at hf
  cases hs with
  | root =>
    cases hf
    rw [hp.pick_groupAtom]
    simp [Level.held]
  | group | environment | command => cases hf

/-- Where the end of the markup is refused, the nest has no other parts. -/
theorem Sound.pick_finish_error (hp : Spares p) (h : n.Sound) {f : Failure}
    (hf : n.finish here = .error f) : f.nest.pick p ≤ n.pick p := by
  obtain ⟨m, hm, hs, -⟩ := h.closeDeclarations here
  rw [← h.pick_closeDeclarations hp hm]
  unfold Nest.finish at hf
  rw [hm] at hf
  cases hs with
  | root => cases hf
  | group | environment | command =>
    cases hf
    exact le_rfl

end Nest

/-! ## Salvage

What is folded may be a command for scripts that has none yet, so only the parts are kept here that
a predicate picks which spares every atom that fits together. -/

theorem Atom.Spares.of_fits (hp : ∀ a : Atom, a.fits = true → p a = false) : Spares p := by
  intro a h
  simp only [isBuilt, Bool.and_eq_true] at h
  exact hp a h.1.2

/-- A command that ends early has all it holds in its atom. -/
theorem CommandState.IsWaiting.pick_close (hp : ∀ a : Atom, a.fits = true → p a = false)
    {s : CommandState} {a : Atom} (h : s.IsWaiting) (ha : s.close.1 = some a) :
    a.pick p = pickAll p s.held := by
  have hspares : Spares p := .of_fits hp
  cases s with
  | switch | division => exact CommandState.pick_close_of_isClosable hspares rfl ha
  | fence left segments middles current =>
    cases ha
    have hl : (segments ++ [Atom.row current]).length = middles.length + 1 := by
      simpa [IsWaiting] using h
    simp [hspares.pick_fenced hl, hspares.pick_row, held]
  | script base sup sub slot =>
    cases ha
    rw [pick_of_not (hp _ (by simp [fits, h.1]))]
    simp [children, held]
  | args | fresh | defined => cases ha

namespace Nest

variable {n : Nest}

/-- The atom of the innermost level and what is below it have no other parts than the nest. -/
theorem Sound.pick_pop (hp : ∀ a : Atom, a.fits = true → p a = false) (h : n.Sound)
    (hl : 1 < n.length) : n.pop.2.pick p + pickAll p n.pop.1.toList ≤ n.pick p := by
  have hspares : Spares p := .of_fits hp
  cases h with
  | root => simp at hl
  | @group atoms lines start n =>
    simp [Nest.pop, Level.held, hspares.pick_groupAtom, add_comm]
  | @environment b name kind start n =>
    cases hf : kind.finish b with
    | ok a =>
      simp [Nest.pop, hf, Except.toOption, Level.held, TableKind.pick_finish hspares hf, add_comm]
    | error e =>
      simp only [Nest.pop, hf, Except.toOption, Option.toList, pickAll_nil, add_zero, pick_cons]
      exact (Multiset.le_add_left _ _).trans (Multiset.le_add_left _ _)
  | @command c start n hw =>
    cases hc : c.state.close.1 with
    | none =>
      simp only [Nest.pop, hc, Option.toList, pickAll_nil, add_zero, pick_cons]
      exact Multiset.le_add_left _ _
    | some a => simp [Nest.pop, hc, Level.held, hw.pick_close hp hc, add_comm]

/-- Folding brings no other parts. -/
theorem Sound.pick_fold (hp : ∀ a : Atom, a.fits = true → p a = false) (h : n.Sound)
    (hl : 1 < n.length) : n.fold.pick p ≤ n.pick p := by
  have hpop := h.pick_pop hp hl
  have hs := (h.pop hl).1
  unfold Nest.fold
  rcases hn : n.pop with ⟨_ | a, m⟩ <;> rw [hn] at hpop hs <;>
    simp only [Option.toList, pickAll_nil, pickAll_cons, add_zero] at hpop
  · exact hpop
  · obtain ⟨k, hk, -⟩ := hs.deliver 0 a
    simp only [hk]
    rwa [hs.pick_deliver (.of_fits hp) hk]

/-- What is salvaged has no other parts than the nest. -/
theorem Sound.pick_salvage (hp : ∀ a : Atom, a.fits = true → p a = false) (h : n.Sound) :
    n.salvage.pick p ≤ n.pick p := by
  have hspares : Spares p := .of_fits hp
  fun_induction Nest.salvage n with
  | case1 n hl ih => exact (ih (h.fold hl)).trans (h.pick_fold hp hl)
  | case2 atoms lines start root n hl =>
    rw [hspares.pick_groupAtom, pick_cons, Level.held, pickAll_append]
    exact Multiset.le_add_right _ _
  | case3 =>
    rw [hspares.pick_row]
    exact Multiset.zero_le _

end Nest

end Typeset
