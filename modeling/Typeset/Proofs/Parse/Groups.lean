import Typeset.Proofs.Nest.Within
import Typeset.Proofs.Parse.Lenient
import Typeset.Proofs.Parse.Pieces
import Typeset.Proofs.Parse.Tokens
import Typeset.Proofs.Reading.Steady

/-!
# Groups and pieces

A text comes to the same atom as the markup of a parse of its own and as a group at the end of other
markup, as long as both succeed.

* `Language.Extends`: a language in which pieces may nest deeper answers what the other one answers,
  so that a parse that succeeds comes to the same there (`ParseState.parse_of_extends`).
* `ParseState.Within`: the text on its own, and the same text in a group with its closing brace
  behind it.
* `ParseState.Within.outcome`: the group delivers what the text comes to on its own.
-/

namespace Typeset

/-! ## Deeper languages -/

/-- Every atom that `l` answers to a piece is the answer of `k`. -/
structure Language.Extends (k l : Language) : Prop where
  registry : k.registry = l.registry
  answer : ∀ scope cs a, l.answer? scope cs = some (.ok a) → k.answer? scope cs = some (.ok a)

namespace ParseState

variable {k l : Language} {s t : ParseState}

/-- A token that is done in a language is done alike in one that extends it. -/
theorem step_of_extends (hk : k.Extends l) (h : s.step l = some (.ok t)) :
    s.step k = some (.ok t) := by
  cases hp : s.piece? l.registry with
  | none => rwa [step_of_piece?_eq_none hp hk.registry]
  | some q =>
    obtain ⟨scope, cs⟩ := q
    obtain ⟨c, pos, r, -, -, hstep⟩ := step_of_piece? hp
    have hl := hstep l rfl
    rcases ha : l.answer? scope cs with _ | e | a
    · rw [ha, h] at hl
      cases hl
    · rw [ha, h] at hl
      cases hl
    · rwa [step_of_answer?_eq hp hk.registry ((hk.answer scope cs a ha).trans ha.symm)]

theorem Reached.of_extends (hk : k.Extends l) (h : Reached l s t) : Reached k s t := by
  induction h with
  | start => exact .start
  | token _ hu ih => exact .token ih (step_of_extends hk hu)

/-- The end of a text is its end in every language. -/
theorem step_eq_none_of_language (h : s.step l = none) (k : Language) : s.step k = none := by
  simp only [step, Option.map_eq_none_iff] at h ⊢
  exact h

/-- Where the scan of a successful parse ends. -/
theorem exists_reached_of_parse_ok {scope : Scope} {cs : List Char} {a : Atom}
    (h : parse l scope cs = .ok a) :
    ∃ t, Reached l (start cs scope) t ∧ t.step l = none ∧
      t.nest.finish t.reader.cursor.skipBlanks.position = .ok a := by
  obtain ⟨t, ht, ⟨hn, -⟩ | ⟨f, -, he⟩⟩ := exists_reached_scan l (start cs scope)
  · exact ⟨t, ht, hn, (ht.parse_eq hn).symm.trans h⟩
  · rw [parse, he] at h
    cases h

theorem parse_of_extends (hk : k.Extends l) {scope : Scope} {cs : List Char} {a : Atom}
    (h : parse l scope cs = .ok a) : parse k scope cs = .ok a := by
  obtain ⟨t, ht, hn, ha⟩ := exists_reached_of_parse_ok h
  rw [(ht.of_extends hk).parse_eq (step_eq_none_of_language hn k), ha]

end ParseState

/-- A piece that has an atom has it also where pieces may nest deeper. -/
theorem Language.extends_nested_succ (registry : Registry) (depth : Nat) :
    (nested registry (depth + 1)).Extends (nested registry depth) := by
  induction depth with
  | zero => exact ⟨by simp, by rintro scope cs a ⟨⟩⟩
  | succ depth ih =>
    refine ⟨by simp, fun scope cs a h => ?_⟩
    rw [answer?_nested_succ, Option.some.injEq] at h ⊢
    cases hp : ParseState.parse (nested registry depth) scope cs with
    | error f =>
      rw [hp] at h
      cases h
    | ok b =>
      rw [hp] at h
      rw [ParseState.parse_of_extends ih hp, h]

/-! ## Texts in groups -/

namespace ParseState

variable {l : Language} {s t s' t' : ParseState} {under : Nest} {g b : Atom}

/-- The second state has the text of the first one before the closing brace that ends the markup,
in a group over `under`. -/
structure Within (under : Nest) (s t : ParseState) : Prop where
  rest : t.reader.cursor.rest = s.reader.cursor.rest ++ ['}']
  scope : s.reader.scope = t.reader.scope
  nest : Nest.Within under s.nest t.nest

theorem skipBlanks_alike {r t : Reader} (h : r.Alike t) :
    r.cursor.skipBlanks.rest = t.cursor.skipBlanks.rest := by
  rw [Cursor.skipBlanks_rest, Cursor.skipBlanks_rest, h.rest]

/-- Before the same text, the next token does the same to nests that are within each other. -/
theorem step_alike (hr : s.reader.Alike t.reader) (hn : Nest.Within under s.nest t.nest)
    (hs : s.step l = some (.ok s')) (ht : t.step l = some (.ok t')) :
    s'.reader.Alike t'.reader ∧ Nest.Within under s'.nest t'.nest := by
  obtain ⟨x, move, hx, hm, ha⟩ := exists_move_of_step hs
  obtain ⟨y, move', hy, hm', ha'⟩ := exists_move_of_step ht
  have hskip := skipBlanks_alike hr
  obtain rfl : x = y := by
    rw [Cursor.peek, hskip] at hx
    exact Option.some.inj (hx.symm.trans hy)
  have halike : Reader.Alike { s.reader with cursor := s.reader.cursor.skipBlanks.advance 1 }
      { t.reader with cursor := t.reader.cursor.skipBlanks.advance 1 } :=
    ⟨Cursor.rest_advance_eq hskip 1, hr.scope⟩
  obtain ⟨r, hrun, halike'⟩ := l.matches_readMove _ t.reader.cursor.skipBlanks.position x _ _
    halike _ _ hm
  rw [hm'] at hrun
  cases hrun
  refine ⟨halike', ?_⟩
  by_cases hc : move = .closeGroup
  · subst hc
    obtain ⟨m, hclose, h⟩ := hn.closeGroup ha t.reader.cursor.skipBlanks.position t'.reader.position
    rw [show t.nest.apply _ _ _ = t.nest.closeGroup _ _ from rfl, hclose] at ha'
    cases ha'
    exact h
  · obtain ⟨m, happly, h⟩ := (hn.apply hc _ _ _ _).of_ok ha
    rw [happly] at ha'
    cases ha'
    exact h

/-- Only a closing brace closes a group, and it is all that is read then. -/
theorem readMove_closeGroup {x : Char} {pos : Nat} {r r' : Reader}
    (h : (l.readMove pos x).run r = (.ok .closeGroup, r')) : r' = r := by
  unfold Language.readMove at h
  split at h
  case h_8 =>
    simp only [Language.readCommand, Reading.run_bind] at h
    rcases hn : Reading.commandName?.run r with ⟨e | _ | name, q⟩ <;> rw [hn] at h
    · cases h
    · cases h
    · simp only [Reading.reader, Reading.run_bind] at h
      cases hc : l.resolve q.scope (String.ofList name) pos with
      | error e =>
        rw [hc] at h
        cases h
      | ok c =>
        rw [hc] at h
        simp only [Reading.run_bind] at h
        rcases hs : (c.start l).run q with ⟨e | d, q'⟩ <;> rw [hs] at h <;> cases h
  all_goals cases h
  rfl

/-- A text without its last character is left, unless everything is read. -/
theorem exists_extend_of_ne_nil {c : Char} {cs : List Char} {d e : Cursor} (h : e.Follows d)
    (hd : d.rest = cs ++ [c]) (he : e.rest ≠ []) : ∃ e' : Cursor, e = e'.extend [c] := by
  obtain ⟨read, hr, -⟩ := h
  obtain ⟨init, last, hlast⟩ : ∃ init last, e.rest = init ++ [last] :=
    ⟨_, _, (List.dropLast_append_getLast he).symm⟩
  rw [hd, hlast, ← List.append_assoc] at hr
  obtain ⟨-, hc⟩ := List.append_inj' hr rfl
  refine ⟨{ e with rest := init }, ?_⟩
  cases e
  simp only [Cursor.extend, Cursor.mk.injEq, and_true]
  rw [show c = last from List.cons.inj hc |>.1]
  exact hlast

/-- Where the text ends, the closing brace delivers what it comes to. -/
theorem Within.outcome_of_end (hw : Within under s t) (hs : s.step l = none)
    (hg : outcome l s = .ok g) (hb : outcome l t = .ok b) :
    ∃ pos here n, under.deliver here g = .ok n ∧ n.finish pos = .ok b := by
  have hfinish : s.nest.finish s.reader.cursor.skipBlanks.position = .ok g := by
    rw [outcome, scan_of_step_eq_none hs] at hg
    exact hg
  have hbefore : t.reader.cursor.IsBefore ['}'] := by
    simp only [step, Option.map_eq_none_iff, Cursor.peek, Cursor.skipBlanks_rest,
      List.head?_eq_none_iff] at hs
    rw [Cursor.IsBefore, hw.rest, List.dropWhile_append, hs]
    rfl
  have hreads : l.Reads t.reader.scope ['}'] [] .closeGroup :=
    Language.reads_char (by decide) (fun _ => rfl) []
  obtain ⟨pos, here, c, hc, hstep⟩ := hreads.exists_step hbefore rfl
  have hclose : t.nest.apply pos here .closeGroup = under.deliver here g :=
    hw.nest.closeGroup_of_finish hfinish pos here
  rw [hclose] at hstep
  cases hd : under.deliver here g with
  | error f =>
    rw [hd] at hstep
    rw [outcome_of_step_error hstep] at hb
    cases hb
  | ok n =>
    rw [hd] at hstep
    rw [outcome_of_step hstep, outcome_of_isBefore_nil hc] at hb
    exact ⟨_, here, n, hd, hb⟩

/-- A token of the text stands before the closing brace. -/
theorem Within.skipBlanks_rest (hw : Within under s t) (hs : s.step l = some (.ok s')) :
    s.reader.cursor.skipBlanks.rest ≠ [] ∧
      t.reader.cursor.skipBlanks.rest = s.reader.cursor.skipBlanks.rest ++ ['}'] := by
  obtain ⟨x, -, hx, -, -⟩ := exists_move_of_step hs
  have hne : s.reader.cursor.skipBlanks.rest ≠ [] := by
    intro h
    rw [Cursor.peek, h] at hx
    cases hx
  refine ⟨hne, ?_⟩
  rw [Cursor.skipBlanks_rest] at hne ⊢
  rw [Cursor.skipBlanks_rest, hw.rest, List.dropWhile_append, if_neg (by simpa using hne)]

/-- A token of the text that reads the closing brace as well leaves the group open. -/
theorem Within.outcome_of_rest_eq_nil (hw : Within under s t) (hs : s.step l = some (.ok s'))
    (ht : t.step l = some (.ok t')) (hend : t'.reader.cursor.rest = []) :
    outcome l t' ≠ .ok b := by
  obtain ⟨x, move, hx, hm, ha⟩ := exists_move_of_step ht
  have hmove : move ≠ .closeGroup := by
    rintro rfl
    obtain ⟨hne, hrest⟩ := hw.skipBlanks_rest hs
    obtain ⟨y, ys, hy⟩ := List.exists_cons_of_ne_nil hne
    rw [readMove_closeGroup hm, Cursor.advance, hrest, hy] at hend
    simp at hend
  rw [outcome_of_isBefore_nil (Cursor.isBefore_of_rest hend)]
  obtain ⟨n, -, hn⟩ := (hw.nest.apply hmove 0 0 _ _).of_ok_right ha
  exact hn.finish_ne_ok _ b

/-- A token of the text that leaves the closing brace does the same on its own. -/
theorem Within.step (hw : Within under s t) (hs : s.step l = some (.ok s'))
    (ht : t.step l = some (.ok t')) (hend : t'.reader.cursor.rest ≠ []) : Within under s' t' := by
  have hfollows := (step_follows ht).trans (Cursor.skipBlanks_follows _)
  obtain ⟨c, hc⟩ := exists_extend_of_ne_nil hfollows hw.rest hend
  -- The states of the group without the closing brace.
  let u : ParseState := { t with reader := { t.reader with
    cursor := { t.reader.cursor with rest := s.reader.cursor.rest } } }
  let u' : ParseState := { t' with reader := { t'.reader with cursor := c } }
  have hu : t = u.extend ['}'] := by
    simp only [u, extend, Reader.extend, Cursor.extend, ← hw.rest]
  have hu' : t' = u'.extend ['}'] := by
    simp only [u', extend, Reader.extend, ← hc]
  rw [hu, hu'] at ht
  obtain ⟨halike, hnest⟩ :=
    step_alike (s := s) (t := u) ⟨rfl, hw.scope⟩ hw.nest hs (step_of_extend ht)
  refine ⟨?_, halike.scope, hnest⟩
  rw [hu', halike.rest]
  rfl

/-- **A group at the end of the markup.** If the text comes to an atom on its own, and the markup
with the text in a group comes to one, then the group delivers the atom of the text. The induction
is over the tokens of the text. -/
theorem Within.outcome (hw : Within under s t) (hg : outcome l s = .ok g)
    (hb : outcome l t = .ok b) :
    ∃ pos here n, under.deliver here g = .ok n ∧ n.finish pos = .ok b := by
  induction hn : s.reader.cursor.rest.length using Nat.strongRecOn generalizing s t with
  | ind k ih =>
    rcases hs : s.step l with _ | f | s'
    · exact hw.outcome_of_end hs hg hb
    · rw [outcome_of_step_error hs] at hg
      cases hg
    · rcases ht : t.step l with _ | f | t'
      · rw [ParseState.outcome, scan_of_step_eq_none ht] at hb
        exact (hw.nest.finish_ne_ok _ _ hb).elim
      · rw [outcome_of_step_error ht] at hb
        cases hb
      · rw [outcome_of_step hs] at hg
        rw [outcome_of_step ht] at hb
        by_cases hend : t'.reader.cursor.rest = []
        · exact (hw.outcome_of_rest_eq_nil hs ht hend hb).elim
        · exact ih _ (hn ▸ step_rest_lt hs) (hw.step hs ht hend) hg hb rfl

end ParseState

end Typeset
