import Typeset.Proofs.Nest.Sound
import Typeset.Proofs.Table.Builder

/-!
# What salvaging shows

Salvaging folds every level of a nest into the one below it and drops what cannot be completed: a
command that lacks more than one argument, and a table with too many cells in a row.

* `Nest.shows`: nothing below the innermost row is dropped.
* `Nest.Sound.telling`: where a nest shows its innermost row, the salvaged atom tells all contents
  of the row apart; where it does not, the salvaged atom does not depend on them (`Nest.Telling`).
-/

namespace Typeset

/-- The atom marks a property of the table around it and joins no cell. -/
def Atom.isMarker : Atom → Bool
  | .hrule _ | .cellColor _ | .rowColor _ => true
  | _ => false

theorem TableBuilder.addAtom_of_isMarker {a : Atom} (h : a.isMarker = false) (b : TableBuilder) :
    b.addAtom a = { b with cell := b.cell ++ [a] } := by
  cases a <;> first | rfl | cases h

theorem isMarker_groupAtom (atoms lines : List Atom) :
    (groupAtom atoms lines).isMarker = false := by
  unfold groupAtom
  split <;> rfl

/-- The atom of a group shows its row. -/
theorem groupAtom_inj {lines as bs : List Atom} :
    groupAtom as lines = groupAtom bs lines ↔ as = bs := by
  unfold groupAtom
  split <;> simp

theorem ArgKind.isMarker_build (kind : ArgKind) (as : List Atom) :
    (kind.build as).isMarker = false := by
  unfold build
  split <;> first | rfl | (cases ‹Option Style› <;> rfl)

/-- What arguments become shows the last one. -/
theorem ArgKind.build_inj {kind : ArgKind} {as : List Atom} {a b : Atom}
    (hl : as.length + 1 = kind.arity) (h : kind.build (as ++ [a]) = kind.build (as ++ [b])) :
    a = b := by
  cases kind with
  | fraction rule style fenced =>
    obtain ⟨x, rfl⟩ := List.length_eq_one_iff.mp (Nat.succ.inj hl)
    cases fenced <;> cases style <;>
      simpa [build, inStyle, ArgKind.fence] using h
  | _ =>
    obtain rfl := List.eq_nil_of_length_eq_zero (Nat.succ.inj hl)
    simpa [build] using h

theorem TableKind.isMarker_finish {kind : TableKind} {b : TableBuilder} {a : Atom}
    (h : kind.finish b = .ok a) : a.isMarker = false := by
  rw [(finish_eq_ok_iff.mp h).2]
  cases kind <;> rfl

/-- A row of primes is not the same with an atom after it. -/
theorem afterPrimes_ne (p a : Atom) : afterPrimes p a ≠ p := by
  unfold afterPrimes
  split
  · simp
  · rename_i h
    exact fun he => h _ he.symm

theorem afterPrimes_inj {p a b : Atom} (h : afterPrimes p a = afterPrimes p b) : a = b := by
  unfold afterPrimes at h
  split at h <;> simpa using h

namespace CommandState

variable {s : CommandState} {row : List Atom} {a : Atom}

/-- A command takes an atom into its row. -/
theorem add_of_currentRow? (h : s.currentRow? = some row) (a : Atom) :
    s.add a = some (.pending, s.setCurrentRow (row ++ [a])) := by
  cases s <;> cases h <;> rfl

theorem setCurrentRow_of_currentRow? (h : s.currentRow? = some row) : s.setCurrentRow row = s := by
  cases s <;> cases h <;> rfl

/-- A command with a row shows it also if it ends early. -/
theorem exists_close_setCurrentRow (h : s.currentRow? = some row) :
    ∃ f : List Atom → Atom, (∀ r, (s.setCurrentRow r).close.1 = some (f r)) ∧
      (∀ r, (f r).isMarker = false) ∧ ∀ r r', f r = f r' ↔ r = r' := by
  cases s with
  | switch kind atoms => exact ⟨_, fun _ => rfl, fun _ => rfl, by simp⟩
  | division rule delims num den =>
    cases delims with
    | none => exact ⟨_, fun _ => rfl, fun _ => rfl, by simp⟩
    | some p => exact ⟨_, fun _ => rfl, fun _ => rfl, by simp [ArgKind.fence]⟩
  | fence left segments middles current => exact ⟨_, fun _ => rfl, fun _ => rfl, by simp⟩
  | _ => cases h

/-- A script shows its atom, and that it has one. -/
theorem exists_add_script {base : Atom} {sup sub : Option Atom} {slot : ScriptSlot}
    (h : (script base sup sub slot).IsWaiting) :
    ∃ f : Atom → Atom, (∀ a, ∃ t, (script base sup sub slot).add a = some (.complete (f a), t)) ∧
      (∀ a, (f a).isMarker = false) ∧ (∀ a b, f a = f b ↔ a = b) ∧
      ∀ a, f a ≠ .scripts base sup sub := by
  cases slot with
  | sub =>
    obtain rfl : sub = none := h.2
    exact ⟨_, fun _ => ⟨_, rfl⟩, fun _ => rfl, by simp, by simp⟩
  | sup =>
    cases sup with
    | none => exact ⟨_, fun _ => ⟨_, rfl⟩, fun _ => rfl, by simp, by simp⟩
    | some p =>
      have hp : p.isPrimes = true := h.2 p rfl
      refine ⟨fun a => .scripts base (some (afterPrimes p a)) sub,
        fun a => ⟨script .empty none none .sup, by simp [add, hp]⟩, fun _ => rfl, ?_, ?_⟩
      · exact fun a b => ⟨fun he => afterPrimes_inj (by simpa using he), fun he => he ▸ rfl⟩
      · exact fun a he => afterPrimes_ne p a (by simpa using he)

/-- The next atom is part of what the command comes to, however it ends after it. -/
def showsNext : CommandState → Bool
  | args kind as => as.length + 1 = kind.arity
  | _ => true

theorem showsNext_of_currentRow? (h : s.currentRow? = some row) : s.showsNext = true := by
  cases s <;> first | rfl | cases h

end CommandState

theorem Level.setRow_of_row? {level : Level} {row : List Atom} (h : level.row? = some row) :
    level.setRow row = level := by
  cases level with
  | command c start =>
    simp only [setRow, CommandState.setCurrentRow_of_currentRow? h]
  | environment => rfl
  | group | table => cases h; rfl

theorem Level.setRow_setRow (level : Level) (row new : List Atom) :
    (level.setRow row).setRow new = level.setRow new := by
  cases level with
  | command c start =>
    obtain ⟨package, name, state⟩ := c
    cases state <;> rfl
  | group | table | environment => rfl

namespace Nest

variable {n m : Nest} {a b : Atom} {here : Nat}

theorem Sound.ne_nil (h : n.Sound) : n ≠ [] := by
  cases h <;> simp

/-! ## Delivering without errors -/

/-- The nest after an atom is delivered, or refused. -/
def put (a : Atom) (n : Nest) : Nest :=
  match n.deliver 0 a with
  | .ok m => m
  | .error f => f.nest

/-- The place only matters to errors. -/
theorem deliver_of_deliver {there : Nat} (h : n.deliver here a = .ok m) :
    n.deliver there a = .ok m := by
  fun_induction deliver here a n with
  | case1 | case2 => exact h
  | case3 => cases h
  | case4 a c start n d hc =>
    rw [deliver, hc]
    exact h
  | case5 a c start n b d hc ih =>
    rw [deliver, hc]
    exact ih h
  | case6 => cases h

theorem put_of_deliver (h : n.deliver here a = .ok m) : n.put a = m := by
  rw [put, deliver_of_deliver h]

/-- A sound nest takes every atom. -/
theorem Sound.deliver_eq_put (h : n.Sound) (here : Nat) (a : Atom) :
    n.deliver here a = .ok (n.put a) := by
  obtain ⟨m, hm, -⟩ := h.deliver here a
  rw [hm, put_of_deliver hm]

theorem Sound.put (h : n.Sound) (ha : a.HasPlainBase) : (n.put a).Sound := by
  obtain ⟨m, hm, hs⟩ := h.deliver 0 a
  rw [put_of_deliver hm]
  exact hs ha

/-- An atom joins the row of the innermost level. -/
theorem deliver_of_row? {level : Level} {row : List Atom} (hr : level.row? = some row)
    (ha : a.isMarker = false) (here : Nat) :
    Nest.deliver here a (level :: n) = .ok (level.setRow (row ++ [a]) :: n) := by
  cases level with
  | group => cases hr; rfl
  | table b =>
    cases hr
    simp only [Nest.deliver, TableBuilder.addAtom_of_isMarker ha, Level.setRow]
  | environment => cases hr
  | command c start =>
    simp only [Nest.deliver, Command.add, CommandState.add_of_currentRow? hr a, Level.setRow]

theorem put_of_row? {level : Level} {row : List Atom} (hr : level.row? = some row)
    (ha : a.isMarker = false) : put a (level :: n) = level.setRow (row ++ [a]) :: n :=
  put_of_deliver (deliver_of_row? hr ha 0)

theorem put_of_add_complete {c : Command} {start : Nat} {t : CommandState}
    (h : c.state.add a = some (.complete b, t)) : put a (.command c start :: n) = put b n := by
  simp only [Nest.put, Nest.deliver, Command.add, h]

theorem put_of_add_pending {c : Command} {start : Nat} {t : CommandState}
    (h : c.state.add a = some (.pending, t)) :
    put a (.command c start :: n) = .command { c with state := t } start :: n := by
  simp only [Nest.put, Nest.deliver, Command.add, h]

/-! ## One level at a time -/

theorem fold_eq (n : Nest) : n.fold =
    match n.pop with
    | (none, m) => m
    | (some a, m) => m.put a := rfl

theorem salvage_eq_fold (h : 1 < n.length) : n.salvage = n.fold.salvage := by
  rw [salvage.eq_def, if_pos h]

theorem salvage_root (atoms lines : List Atom) (start : Nat) (root : Bool) :
    salvage [.group atoms lines start root] = groupAtom atoms lines := by
  rw [salvage.eq_def, if_neg (by simp)]

theorem salvage_group (h : n ≠ []) (atoms lines : List Atom) (start : Nat) (root : Bool) :
    salvage (.group atoms lines start root :: n) = (n.put (groupAtom atoms lines)).salvage :=
  salvage_eq_fold (by simpa using List.length_pos_iff.mpr h)

theorem salvage_environment (b : TableBuilder) (name : String) (kind : TableKind) (start : Nat)
    (n : Nest) : salvage (.table b :: .environment name kind start :: n) =
      match kind.finish b with
      | .ok a => (n.put a).salvage
      | .error _ => n.salvage := by
  rw [salvage_eq_fold (by simp), fold_eq, pop]
  cases kind.finish b <;> rfl

theorem salvage_command (h : n ≠ []) (c : Command) (start : Nat) :
    salvage (.command c start :: n) =
      match c.state.close.1 with
      | some a => (n.put a).salvage
      | none => n.salvage := by
  rw [salvage_eq_fold (by simpa using List.length_pos_iff.mpr h), fold_eq, pop]
  cases c.state.close.1 <;> rfl

/-! ## What the salvaged atom tells -/

/-- Nothing below the innermost row is dropped when the atom is salvaged. -/
def shows : Nest → Bool
  | .group .. :: n => shows n
  | .table b :: .environment _ kind _ :: n => (kind.finish b).isOk && shows n
  | .command c _ :: n => c.state.showsNext && shows n
  | _ => true

/-- The salvaged atom tells what is in the innermost row if the nest shows it, and only then. -/
structure Telling (n : Nest) : Prop where
  /-- It tells different atoms apart that are delivered. -/
  put_eq_put {a b : Atom} : a.isMarker = false → b.isMarker = false →
    ((n.put a).salvage = (n.put b).salvage ↔ a = b ∨ n.shows = false)
  /-- It tells whether an atom is delivered. -/
  put_eq {a : Atom} : a.isMarker = false → ((n.put a).salvage = n.salvage ↔ n.shows = false)
  /-- It tells different rows apart. -/
  setRow_eq_setRow {level : Level} {m : Nest} {row : List Atom} : n = level :: m →
    level.row? = some row → ∀ r r', (salvage (level.setRow r :: m) =
      salvage (level.setRow r' :: m) ↔ r = r' ∨ n.shows = false)

/-- An atom that is delivered joins the row, so it is enough to tell rows apart. -/
theorem telling_of_row? {level : Level} {row : List Atom} (hr : level.row? = some row)
    (h : ∀ r r', salvage (level.setRow r :: n) = salvage (level.setRow r' :: n) ↔
      r = r' ∨ shows (level :: n) = false) : Telling (level :: n) where
  put_eq_put {a b} ha hb := by
    rw [put_of_row? hr ha, put_of_row? hr hb, h]
    simp
  put_eq {a} ha := by
    have hrow := h (row ++ [a]) row
    rw [Level.setRow_of_row? hr] at hrow
    rw [put_of_row? hr ha, hrow]
    simp
  setRow_eq_setRow he hr' r r' := by
    cases he
    exact h r r'

/-- A command that the next atom completes makes different atoms of different ones, none of them
the atom it makes without one. -/
theorem Telling.command (ht : n.Telling) (hn : n ≠ []) {c : Command} (start : Nat)
    (hr : c.state.currentRow? = none) (hs : c.state.showsNext = true) {f : Atom → Atom}
    (hadd : ∀ a, ∃ t, c.state.add a = some (.complete (f a), t))
    (hm : ∀ a, (f a).isMarker = false) (hinj : ∀ a b, f a = f b ↔ a = b)
    (hclose : ∀ x ∈ c.state.close.1, x.isMarker = false ∧ ∀ a, f a ≠ x) :
    Telling (.command c start :: n) where
  put_eq_put {a b} _ _ := by
    obtain ⟨t, ha⟩ := hadd a
    obtain ⟨u, hb⟩ := hadd b
    rw [put_of_add_complete ha, put_of_add_complete hb, ht.put_eq_put (hm a) (hm b), hinj, shows,
      hs, Bool.true_and]
  put_eq {a} _ := by
    obtain ⟨t, ha⟩ := hadd a
    rw [put_of_add_complete ha, salvage_command hn, shows, hs, Bool.true_and]
    cases hc : c.state.close.1 with
    | none => exact ht.put_eq (hm a)
    | some x =>
      obtain ⟨hx, hne⟩ := hclose x hc
      simp only [ht.put_eq_put (hm a) hx, hne a, false_or]
  setRow_eq_setRow he hr' := by
    cases he
    rw [Level.row?, hr] at hr'
    cases hr'

/-- A command that lacks more than one argument is dropped, with and without another one. -/
theorem telling_args (hn : n ≠ []) {c : Command} (start : Nat) {kind : ArgKind} {as : List Atom}
    (hc : c.state = .args kind as) (hl : as.length + 1 < kind.arity) :
    Telling (.command c start :: n) := by
  have hshows : shows (.command c start :: n) = false := by
    rw [shows, hc, CommandState.showsNext, decide_eq_false (by omega), Bool.false_and]
  have hadd (a : Atom) : put a (.command c start :: n) =
      .command { c with state := .args kind (as ++ [a]) } start :: n := by
    refine put_of_add_pending ?_
    rw [hc, CommandState.add, if_pos (by simpa using hl)]
  have hdrop (as' : List Atom) :
      salvage (.command { c with state := .args kind as' } start :: n) = n.salvage :=
    salvage_command hn _ _
  have hself : salvage (.command c start :: n) = n.salvage := by
    rw [salvage_command hn, hc]
    rfl
  constructor
  · intro a b _ _
    simp only [hadd, hdrop, hshows, or_true]
  · intro a _
    simp only [hadd, hdrop, hself, hshows]
  · intro level m row he hr
    cases he
    rw [Level.row?, hc] at hr
    cases hr

/-- Where a nest shows its innermost row, the salvaged atom tells what is in it; where it does not,
the salvaged atom does not depend on that. -/
theorem Sound.telling (h : n.Sound) : n.Telling := by
  induction h with
  | root hp =>
    refine telling_of_row? rfl fun r r' => ?_
    simp only [Level.setRow, salvage_root, groupAtom_inj, shows, Bool.true_eq_false, or_false]
  | group hp hn ih =>
    refine telling_of_row? rfl fun r r' => ?_
    rw [Level.setRow, Level.setRow, salvage_group hn.ne_nil, salvage_group hn.ne_nil,
      ih.put_eq_put (isMarker_groupAtom _ _) (isMarker_groupAtom _ _), groupAtom_inj, shows]
  | @environment b name kind start n hp hn ih =>
    refine telling_of_row? rfl fun r r' => ?_
    have hr := kind.isOk_finish_cell b r
    have hr' := kind.isOk_finish_cell b r'
    rw [Level.setRow, Level.setRow, salvage_environment, salvage_environment, shows, ← hr]
    cases hf : kind.finish { b with cell := r } with
    | error e =>
      cases hf' : kind.finish { b with cell := r' } with
      | error e' => simp [Except.isOk, Except.toBool]
      | ok a' =>
        rw [hf'] at hr'
        rw [hf, ← hr'] at hr
        cases hr
    | ok a =>
      cases hf' : kind.finish { b with cell := r' } with
      | error e' =>
        rw [hf'] at hr'
        rw [hf, ← hr'] at hr
        cases hr
      | ok a' =>
        have hinj : a = a' ↔ r = r' := by
          constructor
          · rintro rfl
            exact TableKind.finish_cell_inj hf hf'
          · rintro rfl
            rw [hf] at hf'
            cases hf'
            rfl
        simp only [ih.put_eq_put (TableKind.isMarker_finish hf) (TableKind.isMarker_finish hf'),
          hinj, Except.isOk, Except.toBool, Bool.true_and]
  | @command c start n hw hp hn ih =>
    cases hr : c.state.currentRow? with
    | some row =>
      -- A row of its own: the command's atom shows it.
      obtain ⟨f, hf, hm, hinj⟩ := CommandState.exists_close_setCurrentRow hr
      refine telling_of_row? hr fun r r' => ?_
      rw [Level.setRow, Level.setRow, salvage_command hn.ne_nil, salvage_command hn.ne_nil]
      simp only [hf, ih.put_eq_put (hm r) (hm r'), hinj, shows,
        CommandState.showsNext_of_currentRow? hr, Bool.true_and]
    | none =>
      cases hs : c.state with
      | args kind as =>
        have hl : as.length < kind.arity := by simpa [hs, CommandState.IsWaiting] using hw
        by_cases hlast : as.length + 1 = kind.arity
        · refine ih.command hn.ne_nil start hr (by simp [hs, CommandState.showsNext, hlast])
            (fun a => ⟨.args kind [], ?_⟩) (fun a => kind.isMarker_build (as ++ [a]))
            (fun a b => ⟨ArgKind.build_inj hlast, fun he => he ▸ rfl⟩)
            (by simp [hs, CommandState.close])
          rw [hs, CommandState.add, if_neg (by simp [hlast])]
        · exact telling_args hn.ne_nil start hs (by omega)
      | script base sup sub slot =>
        rw [hs] at hw
        obtain ⟨f, hadd, hm, hinj, hne⟩ := CommandState.exists_add_script hw
        refine ih.command hn.ne_nil start hr (by rw [hs]; rfl) (by simpa only [hs] using hadd) hm
          hinj ?_
        rw [hs]
        rintro x ⟨⟩
        exact ⟨rfl, hne⟩
      | switch | division | fence => simp [hs, CommandState.currentRow?] at hr
      | fresh | defined =>
        rw [hs] at hw
        exact hw.elim

end Nest

end Typeset
