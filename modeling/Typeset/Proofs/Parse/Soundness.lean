import Typeset.Proofs.Parse.Course
import Typeset.Proofs.Reading.Ensures

/-!
# Parses keep their nests sound

* `Language.hasSoundFragments_nested`: pieces of markup come out well at every depth.
* `ParseState.Reached.sound`, `Nest.Salvaged.sound`: every nest of a parse is sound.
* `Nest.Sound.wellFormed`: what that says about the levels of the nest (`Nest.WellFormed`).
-/

namespace Typeset

/-! ## One token -/

namespace ParseState

variable {l : Language} {s t : ParseState}

/-- A token leaves a sound nest, also where it is refused. -/
theorem safe_step (hl : l.HasSoundFragments) (hs : s.nest.Sound) {o : Except Failure ParseState}
    (h : s.step l = some o) : Nest.Safe (fun t => t.nest.Sound) o := by
  obtain ⟨x, -, ⟨e, r, hm, rfl⟩ | ⟨move, r, hm, rfl⟩⟩ := step_cases h
  · have he := l.ensures_readMove hl s.reader.cursor.skipBlanks.position x
      { s.reader with cursor := s.reader.cursor.skipBlanks.advance 1 }
    rw [hm] at he
    exact ⟨hs, he⟩
  · have hf := l.ensures_readMove hl s.reader.cursor.skipBlanks.position x
      { s.reader with cursor := s.reader.cursor.skipBlanks.advance 1 }
    rw [hm] at hf
    exact (hs.apply _ _ hf).bind fun n hn => hn

theorem Reached.sound (hl : l.HasSoundFragments) (hs : s.nest.Sound) (h : Reached l s t) :
    t.nest.Sound := by
  induction h with
  | start => exact hs
  | token _ hu ih => exact safe_step hl ih hu

/-- A parse ends in an atom with a plain base, or with an error and a sound nest. -/
theorem safe_parse (hl : l.HasSoundFragments) (scope : Scope) (cs : List Char) :
    Nest.Safe (fun a => a.unwrapped.HasPlainBase) (parse l scope cs) := by
  obtain ⟨t, ht, ⟨-, he⟩ | ⟨f, hf, he⟩⟩ := exists_reached_scan l (start cs scope)
  · unfold parse
    rw [he]
    exact (ht.sound hl Nest.sound_start).finish _
  · unfold parse
    rw [he]
    exact safe_step hl (ht.sound hl Nest.sound_start) hf

end ParseState

/-- Pieces of markup have sound fragments themselves, at every depth. -/
theorem Language.hasSoundFragments_nested (registry : Registry) (depth : Nat) :
    (nested registry depth).HasSoundFragments := by
  induction depth with
  | zero => rintro parse ⟨⟩
  | succ depth ih =>
    rintro parse ⟨⟩ scope cs
    have h := ParseState.safe_parse ih scope cs
    cases hp : ParseState.parse (nested registry depth) scope cs with
    | ok a =>
      rw [hp] at h
      simp only [hp]
      exact h
    | error f =>
      rw [hp] at h
      simp only [hp]
      exact h.2

/-! ## All nests of a parse -/

namespace Nest

variable {l : Language} {s : ParseState} {n : Nest}

theorem Salvaged.sound (hl : l.HasSoundFragments) (hs : s.nest.Sound) (h : Salvaged l s n) :
    n.Sound := by
  induction h with
  | token ht hf => exact (ParseState.safe_step hl (ht.sound hl hs) hf).1
  | @finish t f ht _ hf =>
    have h := (ht.sound hl hs).finish t.reader.cursor.skipBlanks.position
    rw [hf] at h
    exact h.1
  | fold _ hl ih => exact ih.fold hl

end Nest

/-- The level is the whole markup. -/
def Level.isRoot : Level → Bool
  | group _ _ _ root => root
  | table _ | environment .. | command .. => false

namespace Nest

/-- What can be said about the levels of a nest, the innermost level first. -/
structure WellFormed (n : Nest) : Prop where
  /-- The last level is the root, and no other. -/
  root : ∃ levels root, n = levels ++ [root] ∧ root.isRoot = true ∧
    ∀ level ∈ levels, level.isRoot = false
  /-- The level before the opening of an environment is a table. -/
  table_of_environment : ∀ i name kind start, n[i]? = some (.environment name kind start) →
    ∃ j b, i = j + 1 ∧ n[j]? = some (.table b)
  /-- The level after a table is the opening of an environment. -/
  environment_of_table : ∀ i b, n[i]? = some (.table b) →
    ∃ name kind start, n[i + 1]? = some (.environment name kind start)
  /-- The commands are waiting for atoms. -/
  waiting : ∀ c start, .command c start ∈ n → c.state.IsWaiting

variable {n : Nest}

/-- A well-formed nest stays so with a level on it that is no root, no table and no opening. -/
theorem WellFormed.cons {level : Level} (h : n.WellFormed) (hr : level.isRoot = false)
    (ht : ∀ b, level ≠ .table b) (he : ∀ name kind start, level ≠ .environment name kind start)
    (hw : ∀ c start, level = .command c start → c.state.IsWaiting) :
    WellFormed (level :: n) where
  root := by
    obtain ⟨levels, root, rfl, hroot, hl⟩ := h.root
    exact ⟨level :: levels, root, rfl, hroot, by simpa [hr] using hl⟩
  table_of_environment i name kind start hi := by
    cases i with
    | zero => exact (he name kind start (by simpa using hi)).elim
    | succ i =>
      obtain ⟨j, b, rfl, hj⟩ := h.table_of_environment i name kind start (by simpa using hi)
      exact ⟨j + 1, b, rfl, by simpa using hj⟩
  environment_of_table i b hi := by
    cases i with
    | zero => exact (ht b (by simpa using hi)).elim
    | succ i => simpa using h.environment_of_table i b (by simpa using hi)
  waiting c start hc := by
    rcases List.mem_cons.mp hc with hc | hc
    · exact hw c start hc.symm
    · exact h.waiting c start hc

/-- A well-formed nest stays so with an environment and its table on it. -/
theorem WellFormed.cons_environment (h : n.WellFormed) (b : TableBuilder) (name : String)
    (kind : TableKind) (start : Nat) :
    WellFormed (.table b :: .environment name kind start :: n) where
  root := by
    obtain ⟨levels, root, rfl, hroot, hl⟩ := h.root
    exact ⟨.table b :: .environment name kind start :: levels, root, rfl, hroot,
      by simpa [Level.isRoot] using hl⟩
  table_of_environment i name' kind' start' hi := by
    match i with
    | 0 => simp at hi
    | 1 => exact ⟨0, b, rfl, rfl⟩
    | i + 2 =>
      obtain ⟨j, b', rfl, hj⟩ := h.table_of_environment i name' kind' start' (by simpa using hi)
      exact ⟨j + 2, b', rfl, by simpa using hj⟩
  environment_of_table i b' hi := by
    match i with
    | 0 => exact ⟨name, kind, start, rfl⟩
    | 1 => simp at hi
    | i + 2 => simpa using h.environment_of_table i b' (by simpa using hi)
  waiting c start' hc := by
    simp only [List.mem_cons, reduceCtorEq, false_or] at hc
    exact h.waiting c start' hc

theorem Sound.wellFormed (h : n.Sound) : n.WellFormed := by
  induction h with
  | root hp =>
    refine ⟨⟨[], _, rfl, rfl, by simp⟩, ?_, ?_, by simp⟩
    · intro i name kind start hi
      cases i <;> simp at hi
    · intro i b hi
      cases i <;> simp at hi
  | group hp hn ih => exact ih.cons rfl (by simp) (by simp) (by simp)
  | environment hp hn ih => exact ih.cons_environment _ _ _ _
  | command hw hp hn ih => exact ih.cons rfl (by simp) (by simp) (by rintro _ _ ⟨⟩; exact hw)

/-- A command of a sound nest takes every atom. -/
theorem Sound.add (h : n.Sound) {c : Command} {start : Nat} (hc : .command c start ∈ n)
    (a : Atom) : ∃ p d, c.add a = .ok (p, d) := by
  obtain ⟨t, ht, -⟩ | ⟨b, t, ht, -⟩ := (h.wellFormed.waiting c start hc).add a
  · exact ⟨.pending, { c with state := t }, by simp only [Command.add, ht]⟩
  · exact ⟨.complete b, { c with state := t }, by simp only [Command.add, ht]⟩

end Nest

/-- **Every nest of a parse is well-formed**: between the tokens, after an error, and while the
atom is salvaged. It takes every atom, and so does each command in it; therefore no token, no end
of the markup and no parse as a whole reports an atom outside of any group or a command that takes
no arguments, and nothing is dropped for that when an atom is salvaged. -/
theorem nests_of_parse_wellFormed (registry : Registry) (depth : Nat) (scope : Scope)
    (markup : List Char) :
    let l := Language.nested registry depth
    let start := ParseState.start markup scope
    (∀ n, (∃ s, ParseState.Reached l start s ∧ s.nest = n) ∨ Nest.Salvaged l start n →
      n.WellFormed ∧ (∀ here a, ∃ m, n.deliver here a = .ok m) ∧
        ∀ c pos, .command c pos ∈ n → ∀ a, ∃ p d, c.add a = .ok (p, d)) ∧
    (∀ s f, ParseState.Reached l start s →
      s.step l = some (.error f) ∨
        s.nest.finish s.reader.cursor.skipBlanks.position = .error f →
      f.error.isInternal = false) ∧
    (∀ n a m, Nest.Salvaged l start n → 1 < n.length → n.pop = (some a, m) →
      ∃ k, m.deliver 0 a = .ok k) ∧
    ∀ o text e, registry.parse o text = .error e → e.isInternal = false := by
  intro l start
  have hl : l.HasSoundFragments := Language.hasSoundFragments_nested registry depth
  have hstart : start.nest.Sound := Nest.sound_start
  refine ⟨fun n hn => ?_, fun s f hs hf => ?_, fun n a m hn hlen hp => ?_, fun o text e he => ?_⟩
  · have hsound : n.Sound := by
      rcases hn with ⟨s, hs, rfl⟩ | hn
      · exact hs.sound hl hstart
      · exact hn.sound hl hstart
    refine ⟨hsound.wellFormed, fun here a => ?_, fun c pos hc a => hsound.add hc a⟩
    obtain ⟨m, hm, -⟩ := hsound.deliver here a
    exact ⟨m, hm⟩
  · rcases hf with hf | hf
    · exact (ParseState.safe_step hl (hs.sound hl hstart) hf).2
    · have h := (hs.sound hl hstart).finish s.reader.cursor.skipBlanks.position
      rw [hf] at h
      exact h.2
  · have h := (hn.sound hl hstart).pop hlen
    rw [hp] at h
    obtain ⟨k, hk, -⟩ := h.1.deliver 0 a
    exact ⟨k, hk⟩
  · have h := ParseState.safe_parse (Language.hasSoundFragments_nested registry maxDepth)
      { packages := o.packages } text.toList
    unfold Registry.parse Registry.language at he
    cases hp : ParseState.parse (.nested registry maxDepth) { packages := o.packages }
        text.toList with
    | ok a => rw [hp] at he; cases he
    | error f =>
      rw [hp] at h he
      simp only at he
      split at he <;> cases he
      exact h.2

/-- In `x^{2`, the open group is folded into the script that waits for it. -/
theorem nests_of_parse_wellFormed_open_script :
    let l := Language.nested .empty 0
    let start := ParseState.start ['x', '^', '{', '2'] {}
    let open2 : Nest := [.group [.ofChar '2'] [] 2 false,
      .command { name := "^", state := .script (.ofChar 'x') none none .sup } 1,
      .group [] [] 0 true]
    let missing : Failure := ⟨.fault 2 .missingClosingBrace, open2⟩
    Nest.Salvaged l start open2 ∧ Nest.Salvaged l start open2.fold ∧ open2.WellFormed ∧
      open2.fold.WellFormed ∧ open2.finish 4 = .error missing ∧
      missing.error.isInternal = false ∧
      ∃ k, open2.pop.2.deliver 0 (.row [.ofChar '2']) = .ok k := by
  intro l start open2 missing
  let before (rest : List Char) (position : Nat) (nest : Nest) : ParseState :=
    { reader := { cursor := { rest, position } }, nest }
  have hbase : ParseState.Reached l start
      (before ['^', '{', '2'] 1 [.group [.ofChar 'x'] [] 0 true]) := .token .start rfl
  have hscript : ParseState.Reached l start (before ['{', '2'] 2 open2.tail) := .token hbase rfl
  have hopen : ParseState.Reached l start
      (before ['2'] 3 (.group [] [] 2 false :: open2.tail)) := .token hscript rfl
  have hs : ParseState.Reached l start (before [] 4 open2) := .token hopen rfl
  have hfinish : open2.finish 4 = .error missing := by
    rw [Nest.finish, Nest.closeDeclarations_of_endsInDeclaration rfl]
    rfl
  have ho : Nest.Salvaged l start open2 := .finish hs rfl hfinish
  have hf : Nest.Salvaged l start open2.fold := .fold ho (by decide)
  have h := nests_of_parse_wellFormed .empty 0 {} ['x', '^', '{', '2']
  exact ⟨ho, hf, (h.1 _ (.inr ho)).1, (h.1 _ (.inr hf)).1, hfinish,
    h.2.1 _ _ hs (.inr hfinish), h.2.2.1 _ _ _ ho (by decide) rfl⟩

end Typeset
