import Typeset.Markup.Parse

/-!
# The course of a parse

The states and nests that a parse goes through, as relations beside the functions that compute it.

* `ParseState.Reached`: the states between the tokens.
* `ParseState.step_cases`: a state reads what its next token asks for, and then its nest changes.
* `Nest.Salvaged`: what is open after an error, and while the atom is salvaged.
* `ParseState.scan_eq_ok_iff`, `ParseState.scan_eq_error_iff`: a scan ends in a state that is
  reached, or at a token that such a state refuses.
* `ParseState.Reached.parse_eq`: what a text comes to from the last state of its scan.
-/

namespace Typeset

variable {l : Language} {r s t : ParseState} {f : Failure}

namespace ParseState

/-- What a state does with its next token: it reads a move, and then the nest changes. -/
theorem step_cases {o : Except Failure ParseState} (h : s.step l = some o) :
    ∃ x, s.reader.cursor.skipBlanks.peek = some x ∧
      ((∃ e r, (l.readMove s.reader.cursor.skipBlanks.position x).run
            { s.reader with cursor := s.reader.cursor.skipBlanks.advance 1 } = (.error e, r) ∧
          o = .error ⟨e, s.nest⟩) ∨
        ∃ move r, (l.readMove s.reader.cursor.skipBlanks.position x).run
            { s.reader with cursor := s.reader.cursor.skipBlanks.advance 1 } = (.ok move, r) ∧
          o = do return { reader := r, nest :=
            ← s.nest.apply s.reader.cursor.skipBlanks.position r.position move }) := by
  simp only [step, Option.map_eq_some_iff] at h
  obtain ⟨x, hx, h⟩ := h
  refine ⟨x, hx, ?_⟩
  rcases hm : (l.readMove s.reader.cursor.skipBlanks.position x).run
      { s.reader with cursor := s.reader.cursor.skipBlanks.advance 1 } with ⟨e | move, r⟩
  · rw [hm] at h
    exact .inl ⟨e, r, rfl, h.symm⟩
  · rw [hm] at h
    exact .inr ⟨move, r, rfl, h.symm⟩

/-- What a token that is done asked for. -/
theorem exists_move_of_step (h : s.step l = some (.ok t)) :
    ∃ x move, s.reader.cursor.skipBlanks.peek = some x ∧
      (l.readMove s.reader.cursor.skipBlanks.position x).run
        { s.reader with cursor := s.reader.cursor.skipBlanks.advance 1 } = (.ok move, t.reader) ∧
      s.nest.apply s.reader.cursor.skipBlanks.position t.reader.position move = .ok t.nest := by
  obtain ⟨x, hx, ⟨e, r, -, he⟩ | ⟨move, r, hm, he⟩⟩ := step_cases h
  · cases he
  · cases ha : s.nest.apply s.reader.cursor.skipBlanks.position r.position move with
    | error f =>
      rw [ha] at he
      cases he
    | ok n =>
      rw [ha] at he
      cases he
      exact ⟨x, move, hx, hm, ha⟩

/-- Tokens are read from left to right. -/
theorem step_follows (h : s.step l = some (.ok t)) :
    t.reader.cursor.Follows s.reader.cursor.skipBlanks := by
  obtain ⟨x, move, -, hm, -⟩ := exists_move_of_step h
  have hf := (l.readMove s.reader.cursor.skipBlanks.position x).follows
    { s.reader with cursor := s.reader.cursor.skipBlanks.advance 1 }
  rw [hm] at hf
  exact hf.trans (Cursor.advance_follows _ _)

/-- The states that tokens lead to from a state. -/
inductive Reached (l : Language) (s : ParseState) : ParseState → Prop where
  | start : Reached l s s
  | token {t u : ParseState} : Reached l s t → t.step l = some (.ok u) → Reached l s u

theorem Reached.trans (hrs : Reached l r s) (hst : Reached l s t) : Reached l r t := by
  induction hst with
  | start => exact hrs
  | token _ hu ih => exact .token ih hu

theorem Reached.follows (h : Reached l s t) : t.reader.cursor.Follows s.reader.cursor := by
  induction h with
  | start => exact .refl _
  | token _ hu ih => exact (step_follows hu).trans ((Cursor.skipBlanks_follows _).trans ih)

theorem scan_of_step_eq_none (h : s.step l = none) : scan l s = .ok s := by
  unfold scan
  split <;> simp_all

theorem scan_of_step_eq_error (h : s.step l = some (.error f)) : scan l s = .error f := by
  unfold scan
  split <;> simp_all

theorem scan_of_step (h : s.step l = some (.ok t)) : scan l s = scan l t := by
  conv => lhs; unfold scan
  split <;> simp_all

/-- Scanning goes on from every state that is reached. -/
theorem Reached.scan_eq (h : Reached l s t) : scan l s = scan l t := by
  induction h with
  | start => rfl
  | token _ hu ih => exact ih.trans (scan_of_step hu)

/-- A scan ends at the end of the text, or at a token that is refused. -/
theorem exists_reached_scan (l : Language) (s : ParseState) :
    ∃ t, Reached l s t ∧ ((t.step l = none ∧ scan l s = .ok t) ∨
      ∃ f, t.step l = some (.error f) ∧ scan l s = .error f) := by
  fun_induction scan l s with
  | case1 s h => exact ⟨s, .start, .inl ⟨h, rfl⟩⟩
  | case2 s f h => exact ⟨s, .start, .inr ⟨f, h, rfl⟩⟩
  | case3 s t h ih =>
    obtain ⟨u, hu, he⟩ := ih
    exact ⟨u, (Reached.start.token h).trans hu, he⟩

theorem scan_eq_ok_iff : scan l s = .ok t ↔ Reached l s t ∧ t.step l = none := by
  constructor
  · intro h
    obtain ⟨u, hu, ⟨hn, he⟩ | ⟨f, -, he⟩⟩ := exists_reached_scan l s
    · rw [h] at he
      cases he
      exact ⟨hu, hn⟩
    · rw [h] at he
      cases he
  · rintro ⟨h, hn⟩
    exact h.scan_eq.trans (scan_of_step_eq_none hn)

theorem scan_eq_error_iff :
    scan l s = .error f ↔ ∃ t, Reached l s t ∧ t.step l = some (.error f) := by
  constructor
  · intro h
    obtain ⟨u, hu, ⟨-, he⟩ | ⟨g, hg, he⟩⟩ := exists_reached_scan l s
    · rw [h] at he
      cases he
    · rw [h] at he
      cases he
      exact ⟨u, hu, hg⟩
  · rintro ⟨t, h, hf⟩
    exact h.scan_eq.trans (scan_of_step_eq_error hf)

/-- A parse ends where its last state ends. -/
theorem Reached.parse_eq {scope : Scope} {cs : List Char}
    (h : Reached l (ParseState.start cs scope) s) (hn : s.step l = none) :
    parse l scope cs = s.nest.finish s.reader.cursor.skipBlanks.position := by
  rw [parse, scan_eq_ok_iff.mpr ⟨h, hn⟩]
  rfl

end ParseState

/-- A strict parse succeeds where the text parses. -/
theorem Registry.parse_eq_ok_iff {registry : Registry} {o : ParseOptions} {text : String} {a : Atom}
    (ho : o.lenient = false) :
    registry.parse o text = .ok a ↔
      ParseState.parse registry.language { packages := o.packages } text.toList = .ok a := by
  unfold Registry.parse
  cases ParseState.parse registry.language { packages := o.packages } text.toList <;> simp [ho]

/-- What is open after an error, and after each step in which the atom is salvaged. -/
inductive Nest.Salvaged (l : Language) (s : ParseState) : Nest → Prop where
  | token {t : ParseState} {f : Failure} : ParseState.Reached l s t →
      t.step l = some (.error f) → Salvaged l s f.nest
  | finish {t : ParseState} {f : Failure} : ParseState.Reached l s t → t.step l = none →
      t.nest.finish t.reader.cursor.skipBlanks.position = .error f → Salvaged l s f.nest
  | fold {n : Nest} : Salvaged l s n → 1 < n.length → Salvaged l s n.fold

end Typeset
