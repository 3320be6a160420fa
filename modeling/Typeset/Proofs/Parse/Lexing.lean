import Typeset.Proofs.Nest.Scripts
import Typeset.Proofs.Parse.Canonical
import Typeset.Proofs.Parse.Groups

/-!
# Tokens and what they ask for

A parse reads tokens, and what it reads does not depend on the nest. So the tokens of a text, and
whether one of them is refused, can be told apart from what they do.

* `Language.Lexes`: the tokens of a text in front of the rest of the markup;
  `Language.exists_lexes`: every text has its tokens.
* `Language.Lexes.leads`: a parse over the text does what the tokens ask for, or fails.
* `ParseState.outcome_alike`: from the same text on, nests that are alike come to the same.
* `ParseState.exists_lexes_toOption_parse_eq`: a parse comes to what its tokens come to.
* `Language.Lexes.content?_eq`: in front of more markup, the tokens of a text come to what the text
  comes to on its own.
* `Language.HandsOn`: a command hands a piece of markup on, and is read by the atom of the piece.
-/

namespace Typeset

open Canonical (braced sign)

variable {l : Language} {rest v : List Char} {scope scope' : Scope} {text text' : List Char}
  {move : Move} {moves moves' : List Move} {o o' : Option Scope}

namespace Language

/-- The text starts with a token that is refused. -/
def Refuses (l : Language) (scope : Scope) (text : List Char) : Prop :=
  ∃ x cs, text = x :: cs ∧ Text.isBlank x = false ∧ ∀ pos position, ∃ e r,
    (l.readMove pos x).run { cursor := { rest := cs, position }, scope } = (.error e, r)

/-- The tokens of a text in front of the rest of the markup ask for some moves, up to one that is
refused or up to the rest, with the names that are set up then. -/
inductive Lexes (l : Language) (rest : List Char) :
    Scope → List Char → List Move → Option Scope → Prop where
  | nil {scope : Scope} : Lexes l rest scope [] [] (some scope)
  | blank {scope : Scope} {x : Char} {cs : List Char} {moves : List Move} {o : Option Scope} :
      Text.isBlank x = true → Lexes l rest scope cs moves o → Lexes l rest scope (x :: cs) moves o
  | token {scope scope' : Scope} {token cs : List Char} {move : Move} {moves : List Move}
      {o : Option Scope} : l.ReadsTo scope token (cs ++ rest) move scope' →
      Lexes l rest scope' cs moves o → Lexes l rest scope (token ++ cs) (move :: moves) o
  | refused {scope : Scope} {x : Char} {cs : List Char} : l.Refuses scope (x :: cs ++ rest) →
      Lexes l rest scope (x :: cs) [] none

namespace Lexes

/-- One text after another. Behind a token that is refused nothing is read. -/
theorem append (h : l.Lexes (text' ++ rest) scope text moves o)
    (h' : ∀ s ∈ o, l.Lexes rest s text' moves' o') :
    l.Lexes rest scope (text ++ text') (moves ++ if o.isSome then moves' else [])
      (o.bind fun _ => o') := by
  induction h with
  | nil => exact h' _ rfl
  | blank hx _ ih => exact .blank hx (ih h')
  | token ht _ ih =>
    rw [List.append_assoc]
    rw [← List.append_assoc] at ht
    exact .token ht (ih h')
  | refused hr =>
    rw [← List.append_assoc] at hr
    exact .refused hr

/-- A token that sets up no names. -/
theorem of_reads (h : l.Reads scope text rest move) :
    l.Lexes rest scope text [move] (some scope) := by
  have h : l.Lexes rest scope (text ++ []) [move] (some scope) := .token h.readsTo .nil
  rwa [List.append_nil] at h

/-- A token of one character. -/
theorem cons_char {x : Char} (hx : Text.isBlank x = false)
    (hread : ∀ pos, l.readMove pos x = pure move)
    (h : l.Lexes rest scope text moves o) : l.Lexes rest scope (x :: text) (move :: moves) o :=
  .token (reads_char hx hread _).readsTo h

/-- A character that stands for itself. -/
theorem cons_ordinary {x : Char} (hx : isOrdinary x = true) (h : l.Lexes rest scope text moves o) :
    l.Lexes rest scope (x :: text) (.atom (.ofChar x) :: moves) o :=
  .token (reads_ordinary hx _).readsTo h

end Lexes

end Language

/-- The first character of a token starts the token at every place, or is refused at every place. -/
theorem Language.readsTo_or_refuses {x : Char} (hx : Text.isBlank x = false) (l : Language)
    (scope : Scope) (cs : List Char) :
    (∃ token rest move scope', cs = token ++ rest ∧
      l.ReadsTo scope (x :: token) rest move scope') ∨ l.Refuses scope (x :: cs) := by
  have halike (position position' : Nat) :
      Reader.Alike { cursor := { rest := cs, position }, scope }
        { cursor := { rest := cs, position := position' }, scope } := ⟨rfl, rfl⟩
  rcases hm : (l.readMove 0 x).run { cursor := { rest := cs, position := 0 }, scope } with
    ⟨e | move, r⟩
  · refine .inr ⟨x, cs, rfl, hx, fun pos position => ?_⟩
    rcases hm' : (l.readMove pos x).run { cursor := { rest := cs, position }, scope } with
      ⟨e' | move, r'⟩
    · exact ⟨e', r', rfl⟩
    · obtain ⟨t, ht, -⟩ := l.matches_readMove pos 0 x _ _ (halike position 0) _ _ hm'
      rw [hm] at ht
      cases ht
  · have hfollows := (l.readMove 0 x).follows { cursor := { rest := cs, position := 0 }, scope }
    rw [hm] at hfollows
    obtain ⟨token, hcs, -⟩ := hfollows
    refine .inl ⟨token, r.cursor.rest, move, r.scope, hcs, x, token, rfl, hx,
      fun pos position => ?_⟩
    obtain ⟨t, ht, hrest, hscope⟩ := l.matches_readMove 0 pos x _ _ (halike 0 position) _ _ hm
    refine ⟨t.cursor, ?_, Cursor.isBefore_of_rest hrest.symm⟩
    rw [← hcs, ht, hscope]

/-- Every text has tokens, up to one that is refused or up to its end. -/
theorem Language.exists_lexes (l : Language) (scope : Scope) (cs : List Char) :
    ∃ moves o, l.Lexes [] scope cs moves o := by
  induction hk : cs.length using Nat.strongRecOn generalizing scope cs with
  | ind k ih =>
    cases cs with
    | nil => exact ⟨_, _, .nil⟩
    | cons x cs =>
      rw [List.length_cons] at hk
      cases hx : Text.isBlank x with
      | true =>
        obtain ⟨moves, o, h⟩ := ih cs.length (by omega) scope cs rfl
        exact ⟨moves, o, .blank hx h⟩
      | false =>
        obtain ⟨token, rest, move, scope', rfl, ht⟩ | h := l.readsTo_or_refuses hx scope cs
        · rw [List.length_append] at hk
          obtain ⟨moves, o, h⟩ := ih rest.length (by omega) scope' rest rfl
          rw [← List.append_nil rest] at ht
          exact ⟨move :: moves, o, .token ht h⟩
        · rw [← List.append_nil (x :: cs)] at h
          exact ⟨[], none, .refused h⟩

/-! ## What the tokens do -/

namespace ParseState

variable {s t : ParseState} {n m : Nest} {n? : Option Nest} {f : Failure}

/-- A state before a token that is refused fails. -/
theorem exists_outcome_of_refuses (h : l.Refuses scope text) (hs : s.reader.cursor.IsBefore text)
    (hscope : s.reader.scope = scope) : ∃ f, outcome l s = .error f := by
  subst hscope
  obtain ⟨x, cs, rfl, hx, hrun⟩ := h
  have hrest : s.reader.cursor.skipBlanks.rest = x :: cs := hs.skipBlanks_rest_eq hx
  obtain ⟨e, r, he⟩ := hrun s.reader.cursor.skipBlanks.position
    (s.reader.cursor.skipBlanks.advance 1).position
  refine ⟨⟨e, s.nest⟩, outcome_of_step_error ?_⟩
  simp only [step, Cursor.peek, hrest, List.head?_cons, Option.map_some,
    reader_advance_one hrest, he]

/-- A parse comes to a state before the rest, with the names and the nest that are told; where none
are told it fails. -/
def Leads (l : Language) (rest : List Char) (s : ParseState) : Option Scope → Option Nest → Prop
  | some scope, some n => ∃ t, Reached l s t ∧ t.reader.scope = scope ∧
      t.reader.cursor.IsBefore rest ∧ Nest.Alike t.nest n
  | _, _ => ∃ f, outcome l s = .error f

theorem leads_of_error (h : ∃ f, outcome l s = .error f) (hnone : o = none ∨ n? = none) :
    Leads l rest s o n? := by
  obtain rfl | rfl := hnone
  · cases n? <;> exact h
  · cases o <;> exact h

theorem Leads.exists_error (h : Leads l rest s none n?) : ∃ f, outcome l s = .error f := by
  cases n? <;> exact h

theorem Leads.of_reached (hst : Reached l s t) (h : Leads l rest t o n?) :
    Leads l rest s o n? := by
  match o, n?, h with
  | some _, some _, ⟨u, hu, h⟩ => exact ⟨u, hst.trans hu, h⟩
  | none, none, ⟨f, hf⟩ | none, some _, ⟨f, hf⟩ | some _, none, ⟨f, hf⟩ =>
    exact ⟨f, hst.outcome_eq.trans hf⟩

end ParseState

open ParseState (Leads outcome Reached)

/-- A parse over a text does what its tokens ask for. -/
theorem Language.Lexes.leads (h : l.Lexes rest scope text moves o) {s : ParseState} {n : Nest}
    (hs : s.reader.cursor.IsBefore (text ++ rest)) (hscope : s.reader.scope = scope)
    (hn : Nest.Alike s.nest n) : Leads l rest s o (n.after moves) := by
  induction h generalizing s n with
  | nil => exact ⟨s, .start, hscope, hs, hn⟩
  | blank hx _ ih =>
    refine ih ?_ hscope hn
    rw [Cursor.IsBefore, hs, List.cons_append, List.dropWhile_cons_of_pos hx]
  | token ht _ ih =>
    rw [List.append_assoc] at hs
    obtain ⟨pos, here, c, hc, hstep⟩ := ht.exists_step hs hscope
    rw [Nest.after_cons]
    obtain ⟨m, m', hm, hm', hn'⟩ | ⟨f, f', hf, hf'⟩ := (hn.apply _ pos here 0 0).cases
    · rw [hm] at hstep
      rw [hm']
      exact (ih (s := ⟨⟨c, _⟩, m⟩) hc rfl hn').of_reached (.token .start hstep)
    · rw [hf] at hstep
      rw [hf']
      exact ParseState.leads_of_error ⟨f, ParseState.outcome_of_step_error hstep⟩ (.inr rfl)
  | refused hr =>
    exact ParseState.leads_of_error (ParseState.exists_outcome_of_refuses hr hs hscope) (.inl rfl)

namespace ParseState

variable {s t : ParseState}

/-- Before the same text, the next token asks for the same in both states, or is refused in both. -/
theorem step_cases_alike {x : Char} {cs : List Char}
    (hs : s.reader.cursor.skipBlanks.rest = x :: cs)
    (ht : t.reader.cursor.skipBlanks.rest = x :: cs) (hscope : s.reader.scope = t.reader.scope) :
    (∃ f f', s.step l = some (.error f) ∧ t.step l = some (.error f')) ∨
      ∃ move pos pos' r r', Reader.Alike r r' ∧
        s.step l = some (do return { reader := r, nest := ← s.nest.apply pos r.position move }) ∧
        t.step l = some (do
          return { reader := r', nest := ← t.nest.apply pos' r'.position move }) := by
  have halike : Reader.Alike { s.reader with cursor := s.reader.cursor.skipBlanks.advance 1 }
      { t.reader with cursor := t.reader.cursor.skipBlanks.advance 1 } :=
    ⟨Cursor.rest_advance_eq (hs.trans ht.symm) 1, hscope⟩
  simp only [step, Cursor.peek, hs, ht, List.head?_cons, Option.map_some]
  rcases hm : (l.readMove s.reader.cursor.skipBlanks.position x).run
      { s.reader with cursor := s.reader.cursor.skipBlanks.advance 1 } with ⟨e | move, r⟩
  · rcases hm' : (l.readMove t.reader.cursor.skipBlanks.position x).run
        { t.reader with cursor := t.reader.cursor.skipBlanks.advance 1 } with ⟨e' | move', r'⟩
    · exact .inl ⟨_, _, rfl, rfl⟩
    · obtain ⟨q, hq, -⟩ := l.matches_readMove t.reader.cursor.skipBlanks.position
        s.reader.cursor.skipBlanks.position x _ _ ⟨halike.rest.symm, halike.scope.symm⟩ _ _ hm'
      rw [hm] at hq
      cases hq
  · obtain ⟨r', hm', hr⟩ := l.matches_readMove _ t.reader.cursor.skipBlanks.position x _ _
      halike _ _ hm
    rw [hm']
    exact .inr ⟨move, _, _, r, r', hr, rfl, rfl⟩

/-- From the same text on, nests that are alike come to the same. -/
theorem outcome_alike (hrest : s.reader.cursor.skipBlanks.rest = t.reader.cursor.skipBlanks.rest)
    (hscope : s.reader.scope = t.reader.scope) (hn : Nest.Alike s.nest t.nest) :
    Nest.Lockstep Eq (outcome l s) (outcome l t) := by
  induction hk : s.reader.cursor.rest.length using Nat.strongRecOn generalizing s t with
  | ind k ih =>
    cases hs : s.reader.cursor.skipBlanks.rest with
    | nil =>
      have hsend : s.reader.cursor.IsBefore [] := (Cursor.skipBlanks_rest _).symm.trans hs
      have htend : t.reader.cursor.IsBefore [] :=
        (Cursor.skipBlanks_rest _).symm.trans (hrest.symm.trans hs)
      rw [outcome_of_isBefore_nil hsend, outcome_of_isBefore_nil htend]
      exact hn.finish _ _
    | cons x cs =>
      obtain ⟨f, f', hf, hf'⟩ | ⟨move, pos, pos', r, r', hr, hstep, hstep'⟩ :=
        step_cases_alike (l := l) hs (hrest.symm.trans hs) hscope
      · rw [outcome_of_step_error hf, outcome_of_step_error hf']
        trivial
      · rw [outcome_of_step_eq_bind hstep, outcome_of_step_eq_bind hstep']
        refine (hn.apply move pos r.position pos' r'.position).bind fun m m' hm hmm' => ?_
        rw [hm] at hstep
        exact ih _ (hk ▸ step_rest_lt hstep) (skipBlanks_alike hr) hr.scope hmm' rfl

/-- Two parses that are led to the same nest before the same rest come to the same, and so do two
in which a token is refused. -/
theorem Leads.lockstep {n?' : Option Nest} (h : Leads l rest s o n?) (h' : Leads l rest t o n?')
    (hsame : o ≠ none → n? = n?') : Nest.Lockstep Eq (outcome l s) (outcome l t) := by
  have hfail (hs : ∃ f, outcome l s = .error f) (ht : ∃ f, outcome l t = .error f) :
      Nest.Lockstep Eq (outcome l s) (outcome l t) := by
    obtain ⟨f, hf⟩ := hs
    obtain ⟨f', hf'⟩ := ht
    rw [hf, hf']
    trivial
  cases o with
  | none => exact hfail h.exists_error h'.exists_error
  | some scope =>
    obtain rfl := hsame (Option.some_ne_none _)
    cases n? with
    | none => exact hfail h h'
    | some n =>
      obtain ⟨u, hu, hscope, hrest, halike⟩ := h
      obtain ⟨u', hu', hscope', hrest', halike'⟩ := h'
      rw [hu.outcome_eq, hu'.outcome_eq]
      have hskip : u.reader.cursor.skipBlanks.rest = u'.reader.cursor.skipBlanks.rest := by
        rw [Cursor.skipBlanks_rest, Cursor.skipBlanks_rest, hrest, hrest']
      have hout := outcome_alike (l := l) (t := ⟨u'.reader, n⟩) hskip
        (hscope.trans hscope'.symm) halike
      have hout' := outcome_alike (l := l) (s := u') (t := ⟨u'.reader, n⟩) rfl rfl halike'
      exact hout.join hout' fun _ _ _ ha hb => ha.trans hb.symm

/-- A parse over a text from its start. -/
theorem leads_start (h : l.Lexes rest scope text moves o) :
    Leads l rest (.start (text ++ rest) scope) o (Nest.start.after moves) :=
  h.leads (Cursor.isBefore_of_rest rfl) rfl Nest.alike_start

/-- Two texts in front of the same rest come to the same, if their tokens come to the same nest, or
if a token is refused in both. -/
theorem toOption_parse_eq (h : l.Lexes rest scope text moves o)
    (h' : l.Lexes rest scope text' moves' o)
    (hsame : o ≠ none → Nest.start.after moves = Nest.start.after moves') :
    (parse l scope (text ++ rest)).toOption = (parse l scope (text' ++ rest)).toOption :=
  ((leads_start h).lockstep (leads_start h') hsame).toOption_eq

/-- A text that is read to its end comes to what its tokens come to. -/
theorem toOption_parse_of_lexes (h : l.Lexes [] scope text moves (some scope')) :
    (parse l scope text).toOption = Nest.content? moves := by
  have hleads := leads_start h
  rw [List.append_nil] at hleads
  rw [parse_eq_outcome, Nest.content?]
  cases hm : Nest.start.after moves with
  | none =>
    rw [hm] at hleads
    obtain ⟨f, hf⟩ := hleads
    rw [hf]
    rfl
  | some m =>
    rw [hm] at hleads
    obtain ⟨t, ht, -, hend, halike⟩ := hleads
    rw [ht.outcome_eq, outcome_of_isBefore_nil hend]
    exact (halike.finish _ 0).toOption_eq

end ParseState

/-- A parse reads the tokens of its text and does what they ask for. -/
theorem ParseState.exists_lexes_toOption_parse_eq (l : Language) (scope : Scope) (cs : List Char) :
    ∃ moves o, l.Lexes [] scope cs moves o ∧
      (parse l scope cs).toOption = o.bind fun _ => Nest.content? moves := by
  obtain ⟨moves, o, h⟩ := l.exists_lexes scope cs
  refine ⟨moves, o, h, ?_⟩
  cases o with
  | none =>
    obtain ⟨f, hf⟩ := (leads_start h).exists_error
    rw [List.append_nil] at hf
    rw [parse_eq_outcome, hf]
    rfl
  | some scope' => exact toOption_parse_of_lexes h

/-- A strict parse of a text. -/
theorem Registry.parse_ofList (registry : Registry) (packages : List String) (cs : List Char) :
    registry.parse { packages } (String.ofList cs) =
      (ParseState.parse registry.language { packages } cs).mapError (·.error) := by
  rw [Registry.parse, String.toList_ofList]
  cases ParseState.parse registry.language { packages } cs <;> rfl

theorem Registry.toOption_parse (registry : Registry) (packages : List String)
    (cs : List Char) : (registry.parse { packages } (String.ofList cs)).toOption =
      (ParseState.parse registry.language { packages } cs).toOption := by
  rw [registry.parse_ofList]
  cases ParseState.parse registry.language { packages } cs <;> rfl

/-! ## Groups -/

/-- The mark of a script and its group. -/
def scripted (slot : ScriptSlot) (text : List Char) : List Char := sign slot :: braced text

/-- A cursor before a text and a token behind it stands in front of the token without it. -/
theorem Cursor.IsBefore.exists_extend {c : Cursor} {x : Char} (hx : Text.isBlank x = false)
    (h : c.IsBefore (text ++ x :: v)) : ∃ d : Cursor, c = d.extend (x :: v) ∧ d.IsBefore text := by
  have htoken : (x :: v).dropWhile Text.isBlank = x :: v :=
    List.dropWhile_cons_of_neg (by simp [hx])
  have hdrop : (text ++ x :: v).dropWhile Text.isBlank = text.dropWhile Text.isBlank ++ x :: v := by
    rw [List.dropWhile_append]
    split
    · rename_i hempty
      rw [List.isEmpty_iff.mp hempty, htoken, List.nil_append]
    · rfl
  refine ⟨{ c with rest := c.rest.takeWhile Text.isBlank ++ text.dropWhile Text.isBlank }, ?_, ?_⟩
  · rw [Cursor.IsBefore, hdrop] at h
    simp only [Cursor.extend, List.append_assoc, ← h, List.takeWhile_append_dropWhile]
  · rw [Cursor.IsBefore, List.dropWhile_append_of_pos fun y hy => List.mem_takeWhile_imp hy,
      List.dropWhile_idempotent]

namespace Language

/-- A token in front of a text asks for the same without what stands behind the text. -/
theorem ReadsTo.of_append {x : Char} (hx : Text.isBlank x = false)
    (h : l.ReadsTo scope text (text' ++ x :: v) move scope') :
    l.ReadsTo scope text text' move scope' := by
  obtain ⟨y, cs, rfl, hy, hrun⟩ := h
  refine ⟨y, cs, rfl, hy, fun pos position => ?_⟩
  obtain ⟨c, hc, hb⟩ := hrun pos position
  obtain ⟨d, rfl, hd⟩ := hb.exists_extend hx
  refine ⟨d, l.isLocal_readMove pos y { cursor := { rest := cs ++ text', position }, scope }
    { cursor := d, scope := scope' } (x :: v) move (Eq.trans ?_ hc), hd⟩
  rw [← List.append_assoc]
  rfl

/-- The tokens of a text are the same without what stands behind it. -/
theorem Lexes.of_append {x : Char} (hx : Text.isBlank x = false)
    (h : l.Lexes (x :: v) scope text moves (some scope')) :
    l.Lexes [] scope text moves (some scope') := by
  generalize ho : some scope' = o at h
  induction h with
  | nil => exact .nil
  | blank hblank _ ih => exact .blank hblank (ih ho)
  | token ht _ ih =>
    refine .token ?_ (ih ho)
    rw [List.append_nil]
    exact ht.of_append hx
  | refused => cases ho

/-- The text is read as some tokens in front of the rest, or one of them is refused there. -/
def LexesAs (l : Language) (rest : List Char) (scope : Scope) (text : List Char)
    (moves : List Move) (o : Option Scope) : Prop :=
  ∃ moves', l.Lexes rest scope text moves' o ∧ (o ≠ none → moves' = moves)

theorem Lexes.lexesAs (h : l.Lexes rest scope text moves o) : l.LexesAs rest scope text moves o :=
  ⟨moves, h, fun _ => rfl⟩

theorem LexesAs.lexes (h : l.LexesAs rest scope text moves (some scope')) :
    l.Lexes rest scope text moves (some scope') := by
  obtain ⟨moves', hlexes, hmoves⟩ := h
  rwa [hmoves (Option.some_ne_none _)] at hlexes

/-- One text after another. -/
theorem LexesAs.append (h : l.LexesAs (text' ++ rest) scope text moves o)
    (h' : ∀ s ∈ o, l.LexesAs rest s text' moves' o') :
    l.LexesAs rest scope (text ++ text') (moves ++ moves') (o.bind fun _ => o') := by
  cases o with
  | none =>
    obtain ⟨m, hm, -⟩ := h
    have hnone : ∀ s ∈ (none : Option Scope), l.Lexes rest s text' [] o' := nofun
    exact ⟨_, hm.append hnone, fun hne => absurd rfl hne⟩
  | some s =>
    obtain ⟨m, hm, hmoves⟩ := h' s rfl
    refine ⟨moves ++ m, h.lexes.append fun t ht => ?_, fun ho => by rw [hmoves ho]⟩
    cases ht
    exact hm

/-- The tokens of a text behind other markup. -/
theorem Lexes.append_lexesAs (h : l.Lexes (text' ++ rest) scope text moves (some scope'))
    (h' : l.LexesAs rest scope' text' moves' o') :
    l.LexesAs rest scope (text ++ text') (moves ++ moves') o' :=
  h.lexesAs.append fun s hs => by
    cases hs
    exact h'

/-- The mark of a script and its group. -/
theorem LexesAs.scripted (h : l.LexesAs ('}' :: rest) scope text moves o) (slot : ScriptSlot) :
    l.LexesAs rest scope (scripted slot text) (Nest.scriptMoves slot moves) o := by
  have hclose : ∀ s ∈ o, l.LexesAs rest s ['}'] [.closeGroup] o := by
    rintro s rfl
    exact (Lexes.of_reads (reads_char (by decide) (fun _ => rfl) _)).lexesAs
  obtain ⟨m, hm, hmoves⟩ := h.append hclose
  have ho : (o.bind fun _ => o) = o := by cases o <;> rfl
  rw [ho] at hm hmoves
  refine ⟨_, (hm.cons_char (x := '{') (by decide) fun _ => rfl).cons_char
    (by cases slot <;> decide) fun _ => by cases slot <;> rfl, fun hne => ?_⟩
  rw [hmoves hne]
  rfl

/-- What a group has in it is what its text comes to on its own. -/
theorem Lexes.content?_eq {x : Char} (hx : Text.isBlank x = false)
    (h : l.Lexes (x :: v) scope text moves (some scope')) :
    Nest.content? moves = (ParseState.parse l scope text).toOption :=
  (ParseState.toOption_parse_of_lexes (h.of_append hx)).symm

/-! ## Pieces -/

variable {token token' piece piece' before : List Char} {c : Command}

/-- The token is a command that hands a piece of markup on. -/
def HandsOn (l : Language) (scope : Scope) (c : Command) (token rest piece : List Char) : Prop :=
  ∃ cs, token = '\\' :: cs ∧ ∀ position, ∃ name e d,
    Cursor.readName? { rest := cs ++ rest, position } = (some name, e) ∧
    (∀ pos, l.resolve scope (String.ofList name) pos = .ok c) ∧
    c.state.piece?.run { cursor := e, scope } = (.ok (some piece), { cursor := d, scope }) ∧
    Cursor.IsBefore d rest

theorem HandsOn.readsTo {a : Atom} (h : l.HandsOn scope c token rest piece)
    (ha : l.answer? scope piece = some (.ok a)) :
    l.ReadsTo scope token rest (.command c (c.state.withPiece a)) scope := by
  obtain ⟨cs, rfl, hrun⟩ := h
  refine ⟨'\\', cs, rfl, by decide, fun pos position => ?_⟩
  obtain ⟨name, e, d, hname, hresolve, hpiece, hd⟩ := hrun position
  refine ⟨d, ?_, hd⟩
  simp only [readMove_backslash, readCommand, Reading.run_bind, Reading.commandName?,
    Reading.ofCursor, hname, Reading.reader, hresolve, Command.start, Reading.inCommand,
    CommandState.run_start_of_piece? hpiece l, ha]
  rfl

theorem HandsOn.refuses (h : l.HandsOn scope c token rest piece)
    (ha : ∀ a, l.answer? scope piece ≠ some (.ok a)) : l.Refuses scope (token ++ rest) := by
  obtain ⟨cs, rfl, hrun⟩ := h
  refine ⟨'\\', cs ++ rest, rfl, by decide, fun pos position => ?_⟩
  obtain ⟨name, e, d, hname, hresolve, hpiece, -⟩ := hrun position
  simp only [readMove_backslash, readCommand, Reading.run_bind, Reading.commandName?,
    Reading.ofCursor, hname, Reading.reader, hresolve, Command.start, Reading.inCommand,
    CommandState.run_start_of_piece? hpiece l]
  rcases hanswer : l.answer? scope piece with _ | e | a
  · exact ⟨_, _, rfl⟩
  · exact ⟨_, _, rfl⟩
  · exact absurd hanswer (ha a)

/-- Two tokens of one command whose pieces have the same atom, if any, are read the same way. -/
theorem HandsOn.exists_lexesAs (h : l.HandsOn scope c token rest piece)
    (h' : l.HandsOn scope c token' rest piece')
    (hsame : ∀ a, l.answer? scope piece = some (.ok a) ↔ l.answer? scope piece' = some (.ok a)) :
    ∃ moves o, l.LexesAs rest scope token moves o ∧ l.LexesAs rest scope token' moves o := by
  by_cases ha : ∃ a, l.answer? scope piece = some (.ok a)
  · obtain ⟨a, ha⟩ := ha
    have hlexes {token piece : List Char} (h : l.HandsOn scope c token rest piece)
        (ha : l.answer? scope piece = some (.ok a)) :
        l.LexesAs rest scope token [.command c (c.state.withPiece a)] (some scope) :=
      (Lexes.of_reads (h.readsTo ha)).lexesAs
    exact ⟨_, _, hlexes h ha, hlexes h' ((hsame a).mp ha)⟩
  · have hlexes {token piece : List Char} (h : l.HandsOn scope c token rest piece)
        (ha : ∀ a, l.answer? scope piece ≠ some (.ok a)) :
        l.LexesAs rest scope token [] none := by
      have hrefuses := h.refuses ha
      obtain ⟨cs, rfl, -⟩ := h
      exact (Lexes.refused hrefuses).lexesAs
    rw [not_exists] at ha
    exact ⟨_, _, hlexes h ha, hlexes h' fun a ha' => ha a ((hsame a).mpr ha')⟩

end Language

end Typeset
