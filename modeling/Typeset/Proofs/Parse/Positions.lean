import Typeset.Proofs.Nest.Positions
import Typeset.Proofs.Parse.Pieces
import Typeset.Proofs.Parse.Soundness

/-!
# Positions of the errors of parses

The error of a parse is at a place of the text that is parsed when the error is found. That is not
the markup if the token that is refused hands on a piece: the error keeps its place in the piece.

* `ParseState.IsIn`: a state all of whose places lie in a text.
* `FaultIn`: the text in which a parse finds its error.
* `position_of_parse_error`: the position of an error is a boundary of that text.
-/

namespace Typeset

namespace ParseState

variable {l : Language} {s t : ParseState} {cs ds : List Char} {scope : Scope} {f : Failure}

/-- The state reads the text, and what is open started in it. -/
structure IsIn (cs : List Char) (s : ParseState) : Prop where
  follows : s.reader.cursor.Follows (.start cs)
  startsAt : s.nest.StartsAt (IsBoundary cs)

theorem isIn_start (cs : List Char) (scope : Scope) : (start cs scope).IsIn cs :=
  ⟨.refl _, Nest.startsAt_start (isBoundary_zero cs)⟩

/-- The place of the next token. -/
theorem IsIn.isBoundary (h : s.IsIn cs) : IsBoundary cs s.reader.cursor.skipBlanks.position :=
  ((Cursor.skipBlanks_follows _).trans h.follows).isBoundary

/-- What a token makes of the nest. -/
theorem IsIn.apply (h : s.IsIn cs) {r : Reader} (hr : r.cursor.Follows s.reader.cursor)
    (move : Move) : Nest.PointsAt (IsBoundary cs) (Nest.StartsAt (IsBoundary cs))
      (s.nest.apply s.reader.cursor.skipBlanks.position r.position move) :=
  h.startsAt.apply (isBoundary_zero cs) h.isBoundary (hr.trans h.follows).isBoundary move

theorem follows_readMove {x : Char} {r : Reader} {o : Except ParseError Move}
    (h : (l.readMove s.reader.cursor.skipBlanks.position x).run
      { s.reader with cursor := s.reader.cursor.skipBlanks.advance 1 } = (o, r)) :
    r.cursor.Follows s.reader.cursor := by
  have hf := (l.readMove s.reader.cursor.skipBlanks.position x).follows
    { s.reader with cursor := s.reader.cursor.skipBlanks.advance 1 }
  rw [h] at hf
  exact hf.trans ((Cursor.advance_follows _ _).trans (Cursor.skipBlanks_follows _))

theorem IsIn.step (h : s.IsIn cs) (ht : s.step l = some (.ok t)) : t.IsIn cs := by
  refine ⟨(step_follows ht).trans ((Cursor.skipBlanks_follows _).trans h.follows), ?_⟩
  obtain ⟨x, move, -, hm, ha⟩ := exists_move_of_step ht
  have hn := h.apply (follows_readMove hm) move
  rwa [ha] at hn

theorem Reached.isIn (h : Reached l s t) (hs : s.IsIn cs) : t.IsIn cs := by
  induction h with
  | start => exact hs
  | token _ hu ih => exact ih.step hu

/-- A token that hands no piece on is refused at a place of the text. -/
theorem IsIn.position_of_step_error (h : s.IsIn cs) (hp : s.piece? l.registry = none)
    (hf : s.step l = some (.error f)) : ∀ p ∈ f.error.position, IsBoundary cs p := by
  rw [← step_of_piece?_eq_none (k := .nested l.registry 0) hp rfl] at hf
  obtain ⟨x, -, ⟨e, r, hm, he⟩ | ⟨move, r, hm, he⟩⟩ := step_cases hf
  · cases he
    refine Language.pointsInto_readMove rfl h.isBoundary x
      { s.reader with cursor := s.reader.cursor.skipBlanks.advance 1 } ?_ _
      (congrArg Prod.fst hm)
    exact (Cursor.advance_follows _ _).trans ((Cursor.skipBlanks_follows _).trans h.follows)
  · have hn := h.apply (follows_readMove hm) move
    cases ha : s.nest.apply s.reader.cursor.skipBlanks.position r.position move with
    | ok n =>
      rw [ha] at he
      cases he
    | error g =>
      rw [ha] at he hn
      cases he
      exact hn

/-- A token whose piece has an atom is not refused. -/
theorem exists_perform_withPiece {n : Nest} (hn : n.Sound) (c : Command) (pos here : Nat)
    (a : Atom) : ∃ m, n.perform c pos here (c.state.withPiece a) = .ok m := by
  unfold CommandState.withPiece
  split
  · split
    · exact ⟨n, rfl⟩
    · obtain ⟨m, hm, -⟩ := hn.deliver here a
      exact ⟨m, hm⟩
  · exact ⟨_, rfl⟩

/-- A token that hands a piece on is refused with the error of the piece, or where it stands if
pieces are nested too deeply. -/
theorem IsIn.position_of_piece_error (h : s.IsIn cs) (hs : s.nest.Sound)
    (hp : s.piece? l.registry = some (scope, ds)) (hf : s.step l = some (.error f)) :
    (l.answer? scope ds = none ∧ ∀ p ∈ f.error.position, IsBoundary cs p) ∨
      ∃ e, l.answer? scope ds = some (.error e) ∧ f.error.position = e.position := by
  obtain ⟨c, pos, r, -, hr, hstep⟩ := step_of_piece? hp
  rw [hstep l rfl, Option.some.injEq] at hf
  rcases ha : l.answer? scope ds with _ | e | a
  · rw [ha] at hf
    cases hf
    have hb : IsBoundary cs r.position := (hr.trans h.follows).isBoundary
    exact .inl ⟨rfl, by simpa using hb⟩
  · rw [ha] at hf
    cases hf
    exact .inr ⟨e, rfl, ParseError.position_inCommand e c.name⟩
  · obtain ⟨m, hm⟩ := exists_perform_withPiece hs c pos r.position a
    rw [ha] at hf
    simp only [hm] at hf
    cases hf

end ParseState

open ParseState

/-- The text in which a parse finds its error: the markup, or the text in which the error of a
piece is found that the refused token hands on. -/
inductive FaultIn (registry : Registry) : Nat → Scope → List Char → List Char → Prop where
  | here {depth : Nat} {scope : Scope} {cs : List Char} {s : ParseState} :
      Reached (.nested registry depth) (.start cs scope) s →
      (∀ t, s.step (.nested registry depth) ≠ some (.ok t)) →
      s.piece? registry = none ∨ depth = 0 → FaultIn registry depth scope cs cs
  | piece {depth : Nat} {scope scope' : Scope} {cs cs' text : List Char} {s : ParseState} :
      Reached (.nested registry (depth + 1)) (.start cs scope) s →
      (∀ t, s.step (.nested registry (depth + 1)) ≠ some (.ok t)) →
      s.piece? registry = some (scope', cs') → FaultIn registry depth scope' cs' text →
      FaultIn registry (depth + 1) scope cs text

theorem ParseState.piece?_of_step_eq_none {l : Language} {s : ParseState} (h : s.step l = none)
    (registry : Registry) : s.piece? registry = none := by
  simp only [step, Option.map_eq_none_iff] at h
  rw [piece?, h, Option.bind_none]

theorem exists_of_pieceAnswer_eq_error {o : Except Failure Atom} {e : ParseError}
    (h : pieceAnswer o = .error e) : ∃ f : Failure, o = .error f ∧ f.error = e := by
  cases o with
  | ok a => cases h
  | error f => exact ⟨f, rfl, Except.error.inj h⟩

/-- Where a parse finds its error: at the end of the markup, or at a token that is refused. -/
theorem ParseState.exists_reached_of_parse_error {l : Language} {scope : Scope} {cs : List Char}
    {f : Failure} (hf : parse l scope cs = .error f) :
    ∃ s, Reached l (start cs scope) s ∧
      (s.step l = none ∧ s.nest.finish s.reader.cursor.skipBlanks.position = .error f ∨
        s.step l = some (.error f)) := by
  obtain ⟨s, hs, ⟨hn, -⟩ | ⟨g, hg, he⟩⟩ := exists_reached_scan l (start cs scope)
  · exact ⟨s, hs, .inl ⟨hn, (hs.parse_eq hn).symm.trans hf⟩⟩
  · rw [parse, he] at hf
    cases hf
    exact ⟨s, hs, .inr hg⟩

theorem ParseState.parse_of_step_error {l : Language} {scope : Scope} {cs : List Char}
    {s : ParseState} {f : Failure} (hs : Reached l (start cs scope) s)
    (hf : s.step l = some (.error f)) : parse l scope cs = .error f := by
  rw [parse, scan_eq_error_iff.mpr ⟨s, hs, hf⟩]
  rfl

/-- An error is at a place of the text in which it is found. -/
theorem exists_faultIn {registry : Registry} {depth : Nat} {scope : Scope} {cs : List Char}
    {f : Failure} (hf : parse (.nested registry depth) scope cs = .error f) :
    ∃ text, FaultIn registry depth scope cs text ∧
      ∀ p ∈ f.error.position, IsBoundary text p := by
  obtain ⟨s, hs, hend⟩ := exists_reached_of_parse_error hf
  have hin : s.IsIn cs := hs.isIn (isIn_start cs scope)
  have hsound : s.nest.Sound :=
    hs.sound (Language.hasSoundFragments_nested registry depth) Nest.sound_start
  have hstop (t : ParseState) : s.step (.nested registry depth) ≠ some (.ok t) := by
    rcases hend with ⟨hn, -⟩ | hf <;> simp [*]
  cases hp : s.piece? registry with
  | none =>
    refine ⟨cs, .here hs hstop (.inl hp), ?_⟩
    rcases hend with ⟨-, hfin⟩ | hstep
    · have hfin' := hin.startsAt.finish (isBoundary_zero cs) hin.isBoundary
      rw [hfin] at hfin'
      exact hfin'
    · exact hin.position_of_step_error (by rwa [Language.registry_nested]) hstep
  | some q =>
    obtain ⟨scope', cs'⟩ := q
    have hstep : s.step (.nested registry depth) = some (.error f) := by
      refine hend.resolve_left fun ⟨hn, _⟩ => ?_
      rw [piece?_of_step_eq_none hn] at hp
      cases hp
    have hcases := hin.position_of_piece_error hsound (by rwa [Language.registry_nested]) hstep
    cases depth with
    | zero =>
      refine ⟨cs, .here hs hstop (.inr rfl), ?_⟩
      obtain ⟨-, h⟩ | ⟨e, he, -⟩ := hcases
      · exact h
      · cases he
    | succ depth =>
      obtain ⟨he, -⟩ | ⟨e, he, hpos⟩ := hcases
      · cases he
      · rw [Language.answer?_nested_succ, Option.some.injEq] at he
        obtain ⟨g, hg, rfl⟩ := exists_of_pieceAnswer_eq_error he
        obtain ⟨text, htext, h⟩ := exists_faultIn hg
        exact ⟨text, .piece hs hstop hp htext, hpos ▸ h⟩
termination_by depth

/-- **Where the error of a parse points.** The position of an error is a boundary of the text in
which the error is found: the markup, or a piece that a token of the markup hands on, or a piece
within that. For markup that hands no piece on it is a place in the markup. -/
theorem position_of_parse_error (registry : Registry) (packages : List String) (src : String)
    {e : ParseError} {p : Nat} (he : registry.parse { packages } src = .error e)
    (hp : e.position = some p) :
    (∃ text, FaultIn registry maxDepth { packages } src.toList text ∧ IsBoundary text p ∧
      p ≤ byteLength text) ∧
    ((∀ s, Reached registry.language (.start src.toList { packages }) s →
      s.piece? registry = none) → IsBoundary src.toList p ∧ p ≤ byteLength src.toList) := by
  obtain ⟨f, hf, rfl⟩ : ∃ f : Failure,
      parse registry.language { packages } src.toList = .error f ∧ f.error = e := by
    unfold Registry.parse at he
    split at he
    · cases he
    · rename_i f hf
      cases he
      exact ⟨f, hf, rfl⟩
  obtain ⟨text, htext, h⟩ := exists_faultIn hf
  refine ⟨⟨text, htext, h p hp, (h p hp).le⟩, fun hnone => ?_⟩
  cases htext with
  | here => exact ⟨h p hp, (h p hp).le⟩
  | piece hs _ hpiece _ =>
    rw [hnone _ hs] at hpiece
    cases hpiece

/-- The error of an operation that fails. -/
def errorOf? {α : Type} : Except Failure α → Option ParseError
  | .ok _ => none
  | .error f => some f.error

theorem exists_of_errorOf? {α : Type} {o : Except Failure α} {e : ParseError}
    (h : errorOf? o = some e) : ∃ f, o = .error f ∧ f.error = e := by
  cases o with
  | ok a => cases h
  | error f => exact ⟨f, rfl, Option.some.inj h⟩

/-- In `\bra{^}` the script is refused at offset 13 of the text that `\bra` stands for, and that
is the position of the error; the markup has only seven bytes. -/
theorem position_of_parse_error_braket :
    let e : ParseError := .syntaxError 13 (some "\\bra") (.danglingScript .sup)
    Registry.builtin.parse { packages := ["braket"] } "\\bra{^}" = .error e ∧
      (∃ text, FaultIn .builtin maxDepth { packages := ["braket"] } "\\bra{^}".toList text ∧
        IsBoundary text 13 ∧ 13 ≤ byteLength text) ∧
      byteLength "\\bra{^}".toList = 7 ∧ ¬IsBoundary "\\bra{^}".toList 13 := by
  intro e
  have hlen : byteLength "\\bra{^}".toList = 7 := by decide
  let scope : Scope := { packages := ["braket"] }
  let s := start "\\bra{^}".toList scope
  let text := "\\left\\langle ^\\right|".toList
  let inner : ParseError := .fault 13 (.danglingScript .sup)
  -- The script is the second token of the text that `\bra` stands for.
  have htokens : ((((start text scope).step (.nested .builtin 99)).bind Except.toOption).bind
      fun t => (t.step (.nested .builtin 99)).map errorOf?) = some (some inner) := by
    decide +kernel
  obtain ⟨f, hf, hinner⟩ : ∃ f : Failure,
      parse (.nested .builtin 99) scope text = .error f ∧ f.error = inner := by
    simp only [Option.bind_eq_some_iff, Option.map_eq_some_iff] at htokens
    obtain ⟨t, ⟨o, ho, ht⟩, o', hf, he⟩ := htokens
    obtain rfl : o = .ok t := by
      cases o <;> cases ht
      rfl
    obtain ⟨f, rfl, hinner⟩ := exists_of_errorOf? he
    exact ⟨f, parse_of_step_error (.token .start ho) hf, hinner⟩
  have hpiece : s.piece? .builtin = some (scope, text) := by
    have htext : (s.piece? .builtin).map Prod.snd = some text := by decide +kernel
    obtain ⟨⟨scope', text'⟩, hp, rfl⟩ := Option.map_eq_some_iff.mp htext
    rw [hp, scope_of_piece? hp]
    rfl
  let answering : Language := { registry := .builtin, fragment? := some fun _ _ => .error inner }
  have hanswer : Registry.builtin.language.answer? scope text = answering.answer? scope text := by
    rw [Registry.language, maxDepth, Language.answer?_nested_succ, hf]
    exact congrArg (some ∘ Except.error) hinner
  have hparse : Registry.builtin.parse { packages := ["braket"] } "\\bra{^}" = .error e := by
    have hstep : (s.step answering).map errorOf? = some (some e) := by decide +kernel
    rw [step_of_answer?_eq (k := answering) (l := Registry.builtin.language) hpiece rfl
      hanswer.symm] at hstep
    obtain ⟨o, ho, he⟩ := Option.map_eq_some_iff.mp hstep
    obtain ⟨g, rfl, hg⟩ := exists_of_errorOf? he
    rw [Registry.parse, parse_of_step_error .start ho, ← hg]
    rfl
  exact ⟨hparse, (position_of_parse_error _ _ _ hparse rfl).1, hlen,
    fun h => absurd h.le (by rw [hlen]; decide)⟩

end Typeset
