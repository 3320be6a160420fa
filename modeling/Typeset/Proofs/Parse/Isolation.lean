import Typeset.Proofs.Parse.Termination
import Typeset.Proofs.Reading.Packages

/-!
# Packages are isolated

What is registered in a package plays no part in a parse in which the package is not active.

* `ParseState.namedPackages`: the packages that the next token names to activate them.
* `ParseState.step_eq`: a token is the same in two languages that know the same but for the commands
  of a package, if that is not active and not named by the token.
* `Parsing.Avoids`: the package plays no part in any parser at work; `Parsing.turn_eq`: then a turn
  is the same in both parses.
* `Parsing.NeverNames`: no token on the way names the package; `Parsing.avoids_of_leads`: then it
  plays no part on the way.
* `Registry.AgreesOutside.parse_eq`: so both parses come to the same.
* `Registry.lookup_and_parse_after`: what a name stands for after any registrations, and what those
  of one package leave as it was.
* `Parsing.neverNamesWithin`: taking the turns of a parse to see which packages it names.
-/

namespace Typeset

open Reading

/-! ## Named packages -/

/-- The packages that a command names to activate them whose backslash stands at `pos` and has been
read. -/
def Registry.commandNamed (registry : Registry) (pos : Nat) : Reading (List String) := do
  match ← commandName? with
  | none => pure []
  | some name =>
    match (Language.nested registry 0).resolve (← reader).scope (String.ofList name) pos with
    | .error _ => pure []
    | .ok c => c.state.named

/-- The packages that the next token of a state names to activate them. -/
def ParseState.namedPackages (registry : Registry) (s : ParseState) : List String :=
  let c := s.reader.cursor.skipBlanks
  if c.peek = some '\\' then
    match (registry.commandNamed c.position).run { s.reader with cursor := c.advance 1 } with
    | (.ok names, _) => names
    | (.error _, _) => []
  else []

/-! ## Tokens -/

namespace Language

variable {p : String} {l k : Language}

theorem AgreesOutside.resolve_eq (h : l.AgreesOutside p k) {s : Scope} (hs : p ∉ s.packages)
    (name : String) (pos : Nat) : l.resolve s name pos = k.resolve s name pos := by
  rw [resolve, resolve, h.registry.resolve_eq hs]

/-- The language in which pieces are nested too deeply resolves names as every other one. -/
theorem resolve_nested_zero (l : Language) (s : Scope) (name : String) (pos : Nat) :
    (nested l.registry 0).resolve s name pos = l.resolve s name pos := rfl

/-- A command does the same in both languages where the package is not active, if it does not name
the package to activate it. -/
theorem AgreesOutside.agreesAt_readCommand (h : l.AgreesOutside p k) {pos : Nat} {r : Reader}
    (hr : p ∉ r.scope.packages)
    (hnamed : ∀ names r', (l.registry.commandNamed pos).run r = (.ok names, r') → p ∉ names) :
    (l.readCommand pos).AgreesAt p (k.readCommand pos) r := by
  have hname : commandName?.AgreesAt p commandName? r := (keepsScope_ofCursor _ _).agrees p r hr
  refine hname.bind fun name t ht htp => ?_
  rw [Registry.commandNamed, run_bind, ht] at hnamed
  cases name with
  | none => exact ⟨rfl, htp⟩
  | some name =>
    have hreader : reader.AgreesAt p reader t := keepsScope_reader.agrees p t htp
    refine hreader.bind fun r' t' ht' _ => ?_
    obtain ⟨rfl, rfl⟩ : r' = t ∧ t' = t := by cases ht'; exact ⟨rfl, rfl⟩
    simp only [reader, run_bind, resolve_nested_zero] at hnamed
    rw [← h.resolve_eq htp]
    cases hc : l.resolve t'.scope (String.ofList name) pos with
    | error e => exact ⟨rfl, htp⟩
    | ok c =>
      rw [hc] at hnamed
      have hstart := (c.state.agreesAt_start h htp hnamed).inCommand c.name
      exact hstart.bind fun d s _ hs => ⟨rfl, hs⟩

/-- Only commands set names up. -/
theorem keepsScope_readMove {x : Char} (hx : x ≠ '\\') (l : Language) (pos : Nat) :
    (l.readMove pos x).KeepsScope := by
  unfold readMove
  split
  · exact KeepsScope.bind (fun _ => rfl) fun _ => keepsScope_pure _
  all_goals try exact keepsScope_pure _
  exact absurd rfl hx

end Language

namespace ParseState

variable {p : String} {l k : Language} {s : ParseState}

/-- A token is read alike where the package is not active and not named by it. -/
theorem agreesAt_readMove (h : l.AgreesOutside p k) (hs : p ∉ s.reader.scope.packages)
    (hnamed : p ∉ s.namedPackages l.registry) {x : Char}
    (hx : s.reader.cursor.skipBlanks.peek = some x) :
    (l.readMove s.reader.cursor.skipBlanks.position x).AgreesAt p
      (k.readMove s.reader.cursor.skipBlanks.position x)
      { s.reader with cursor := s.reader.cursor.skipBlanks.advance 1 } := by
  by_cases hb : x = '\\'
  · subst hb
    rw [Language.readMove_backslash, Language.readMove_backslash]
    refine h.agreesAt_readCommand hs fun names r' hn => ?_
    simpa only [namedPackages, hx, if_true, hn] using hnamed
  · rw [Language.readMove_of_ne hb k l]
    exact (Language.keepsScope_readMove hb k _).agrees p _ hs

/-- So it does the same. -/
theorem step_eq (h : l.AgreesOutside p k) (hs : p ∉ s.reader.scope.packages)
    (hnamed : p ∉ s.namedPackages l.registry) : s.step l = s.step k := by
  simp only [step]
  cases hx : s.reader.cursor.skipBlanks.peek with
  | none => rw [Option.map_none, Option.map_none]
  | some x => simp only [Option.map_some, (agreesAt_readMove h hs hnamed hx).1]

/-- And it does not make the package active. -/
theorem not_mem_packages_of_step (h : l.AgreesOutside p k) (hs : p ∉ s.reader.scope.packages)
    (hnamed : p ∉ s.namedPackages l.registry) {t : ParseState} (ht : s.step l = some (.ok t)) :
    p ∉ t.reader.scope.packages := by
  obtain ⟨x, move, hx, hm, -⟩ := exists_move_of_step ht
  have hp := (agreesAt_readMove h hs hnamed hx).2
  rwa [hm] at hp

/-- A token hands the same piece on, whatever the commands of a package that is not active. -/
theorem piece?_eq {registry registry' : Registry} (h : registry.AgreesOutside p registry')
    (hs : p ∉ s.reader.scope.packages) : s.piece? registry = s.piece? registry' := by
  have hl : (Language.nested registry 0).AgreesOutside p (.nested registry' 0) := ⟨h, rfl⟩
  have hcommand (pos : Nat) :
      (registry.commandPiece? pos).Agrees p (registry'.commandPiece? pos) := by
    refine KeepsScope.bind_agrees (keepsScope_ofCursor _ _) fun name => ?_
    cases name with
    | none => exact agrees_pure _
    | some name =>
      refine reader_bind_agrees fun r hr => ?_
      rw [hl.resolve_eq hr]
      split
      · exact agrees_pure _
      · exact (CommandState.keepsScope_piece? _).agrees p
  have htoken (pos : Nat) (x : Char) :
      (registry.piece? pos x).Agrees p (registry'.piece? pos x) := by
    unfold Registry.piece?
    split
    · exact hcommand pos
    · exact agrees_pure _
  simp only [piece?]
  refine congrArg (s.reader.cursor.skipBlanks.peek.bind ·) (funext fun x => ?_)
  have hrun := (htoken s.reader.cursor.skipBlanks.position x
    ⟨s.reader.cursor.skipBlanks.advance 1, s.reader.scope⟩ hs).1
  simp only [hrun]

end ParseState

/-! ## Turns -/

namespace Parsing

open ParseState

variable {p : String} {registry registry' : Registry}

/-- The parsers at work that still read tokens. -/
def states : Parsing → List ParseState
  | reading s waiting => s :: waiting
  | ended _ waiting => waiting

/-- The package is not active in a parser at work, and not named by its next token. -/
def Avoids (p : String) (registry : Registry) (w : Parsing) : Prop :=
  ∀ s ∈ w.states, p ∉ s.reader.scope.packages ∧ p ∉ s.namedPackages registry

/-- No token on the way names the package to activate it. -/
def NeverNames (p : String) (registry : Registry) (w : Parsing) : Prop :=
  ∀ s waiting, Leads registry w (reading s waiting) → p ∉ s.namedPackages registry

/-- What a turn can do: the innermost parser does a token, or a parser starts in its scope on the
piece that the token hands on. -/
theorem turn_cases {w v : Parsing} (h : turn registry w = .inr v) :
    ∃ s waiting, w.states = s :: waiting ∧
      ((∃ l : Language, l.registry = registry ∧ v = afterToken s waiting (s.step l)) ∨
        ∃ cs, v = reading (.start cs s.reader.scope) (s :: waiting)) := by
  cases w with
  | reading s waiting =>
    have htoken : ∃ l : Language, l.registry = registry ∧
        afterToken s waiting (s.step (.nested registry 0)) = afterToken s waiting (s.step l) :=
      ⟨_, rfl, rfl⟩
    refine ⟨s, waiting, rfl, ?_⟩
    simp only [turn] at h
    split at h
    · cases h
      exact .inl htoken
    · rename_i scope cs hp
      split at h <;> cases h
      · exact .inr ⟨cs, by rw [scope_of_piece? hp]⟩
      · exact .inl htoken
  | ended o waiting =>
    cases waiting with
    | nil => cases h
    | cons s waiting =>
      cases h
      exact ⟨s, waiting, rfl, .inl ⟨answering registry o, rfl, rfl⟩⟩

/-- After a token, the parsers are the one that did it, if it goes on, and those that wait. -/
theorem mem_states_afterToken {o : Option (Except Failure ParseState)} {s t : ParseState}
    {waiting : List ParseState} (ht : t ∈ (afterToken s waiting o).states) :
    o = some (.ok t) ∨ t ∈ waiting := by
  rcases o with _ | f | u
  · exact .inr ht
  · exact .inr ht
  · rcases List.mem_cons.mp ht with rfl | ht
    · exact .inl rfl
    · exact .inr ht

/-- A turn is the same in both parses while the package plays no part. -/
theorem turn_eq (h : registry.AgreesOutside p registry') {w : Parsing} (hw : w.Avoids p registry) :
    turn registry w = turn registry' w := by
  cases w with
  | reading s waiting =>
    obtain ⟨hs, hn⟩ := hw s (List.mem_cons_self ..)
    have hl : (Language.nested registry 0).AgreesOutside p (.nested registry' 0) := ⟨h, rfl⟩
    simp only [turn, piece?_eq h hs, step_eq hl hs hn]
  | ended o waiting =>
    cases waiting with
    | nil => rfl
    | cons s waiting =>
      obtain ⟨hs, hn⟩ := hw s (List.mem_cons_self ..)
      have hl : (answering registry o).AgreesOutside p (answering registry' o) := ⟨h, rfl⟩
      simp only [turn, step_eq hl hs hn]

/-- A turn does not make the package active. -/
theorem not_mem_packages_of_turn {w v : Parsing} (hw : w.Avoids p registry)
    (hv : turn registry w = .inr v) {t : ParseState} (ht : t ∈ v.states) :
    p ∉ t.reader.scope.packages := by
  obtain ⟨s, waiting, hstates, hcases⟩ := turn_cases hv
  rw [Avoids, hstates, List.forall_mem_cons] at hw
  obtain ⟨⟨hs, hn⟩, hwaiting⟩ := hw
  rcases hcases with ⟨l, rfl, rfl⟩ | ⟨cs, rfl⟩
  · rcases mem_states_afterToken ht with ht | ht
    · exact not_mem_packages_of_step ⟨.refl p _, rfl⟩ hs hn ht
    · exact (hwaiting t ht).1
  · rcases List.mem_cons.mp ht with rfl | ht
    · exact hs
    · rcases List.mem_cons.mp ht with rfl | ht
      · exact hs
      · exact (hwaiting t ht).1

/-- The parsers after a turn were at work before, up to the one that reads. -/
theorem mem_states_of_turn {w v : Parsing} (hv : turn registry w = .inr v) {t : ParseState}
    (ht : t ∈ v.states) : t ∈ w.states ∨ ∃ waiting, v = reading t waiting := by
  obtain ⟨s, waiting, hstates, ⟨l, -, rfl⟩ | ⟨cs, rfl⟩⟩ := turn_cases hv <;> rw [hstates]
  · rcases mem_states_afterToken ht with ho | ht
    · exact .inr ⟨waiting, by rw [ho, afterToken]⟩
    · exact .inl (List.mem_cons_of_mem s ht)
  · rcases List.mem_cons.mp ht with rfl | ht
    · exact .inr ⟨_, rfl⟩
    · exact .inl ht

/-- A package that is not active at the start, and that no parser names, plays no part. -/
theorem avoids_of_leads {w v : Parsing} (hw : w.Avoids p registry)
    (hnamed : w.NeverNames p registry) (h : Leads registry w v) : v.Avoids p registry := by
  induction h with
  | refl => exact hw
  | tail hu hv ih =>
    intro t ht
    refine ⟨not_mem_packages_of_turn ih hv ht, ?_⟩
    rcases mem_states_of_turn hv ht with ht | ⟨waiting, rfl⟩
    · exact (ih t ht).2
    · exact hnamed t waiting (hu.tail hv)

/-- Both parses lead to the same. -/
theorem leads_of_agreesOutside (h : registry.AgreesOutside p registry') {w v : Parsing}
    (hw : w.Avoids p registry) (hnamed : w.NeverNames p registry) (hv : Leads registry w v) :
    Leads registry' w v := by
  induction hv with
  | refl => exact .refl
  | tail hu hv ih => exact ih.tail ((turn_eq h (avoids_of_leads hw hnamed hu)).symm.trans hv)

end Parsing

open Parsing

/-! ## Parses -/

namespace Registry

/-- The parses of two registries that know the same but for the commands of a package come to the
same, if the package is not active at the start and not named in one of the parses. -/
theorem AgreesOutside.parse_eq {p : String} {r r' : Registry} (h : r.AgreesOutside p r')
    (o : ParseOptions) (markup : String) (hp : p ∉ o.packages)
    (hnamed : (Parsing.start o.packages markup).NeverNames p r) :
    r.parse o markup = r'.parse o markup := by
  let s := ParseState.start markup.toList { packages := o.packages }
  have hstart : (Parsing.start o.packages markup).Avoids p r := by
    intro t ht
    obtain rfl : t = s := List.mem_singleton.mp ht
    exact ⟨hp, hnamed _ _ .refl⟩
  have hends := (leads_of_agreesOutside h hstart hnamed
    (leads_ended r maxDepth s [] (Nat.zero_add _))).ends
  have hends' := (leads_ended r' maxDepth s [] (Nat.zero_add _)).ends
  have heq := hends.unique hends'
  rw [Registry.parse, Registry.parse, language, language, ParseState.parse_eq_outcome,
    ParseState.parse_eq_outcome, heq]

/-- **Layered lookup and isolation.** After any commands, definitions and environments have been
registered in any registry, a name stands for the prototype that was registered last for it in the
last active package that has the name; else for the one that was registered last globally; else for
the sign of that name; and else for nothing. What is registered in one package leaves every parse
as it was, strict or lenient, in which the package is not active at the start and no token names it
to activate it, be it with what was registered or without. -/
theorem lookup_and_parse_after (r : Registry) (calls : List Registration) :
    (∀ name active, (r.after calls).lookup? name active =
      ((active.reverse.findSome? fun q => (r.latest? (some q) name calls).map (some q, ·)).or
        ((r.latest? none name calls).map (none, ·))).or
        ((Symbol.named? name).map fun s => (none, .symbol s))) ∧
    ∀ p, (∀ call ∈ calls, call.IsIn p) → ∀ (o : ParseOptions) (markup : String), p ∉ o.packages →
      ((Parsing.start o.packages markup).NeverNames p r ∨
        (Parsing.start o.packages markup).NeverNames p (r.after calls)) →
      (r.after calls).parse o markup = r.parse o markup := by
  refine ⟨fun name active => ?_, fun p hcalls o markup hp hnamed => ?_⟩
  · simp only [lookup?_eq, own?_after]
  · have h := agreesOutside_after r hcalls
    rcases hnamed with hnamed | hnamed
    · exact (h.symm.parse_eq o markup hp hnamed).symm
    · exact h.parse_eq o markup hp hnamed

end Registry

/-! ## Finding out which packages are named -/

namespace Parsing

/-- The packages that the next token of the innermost parser names to activate them. -/
def namedPackages (registry : Registry) : Parsing → List String
  | reading s _ => s.namedPackages registry
  | ended _ _ => []

/-- The loop ends within `n` turns, and no token up to there names the package. -/
def neverNamesWithin (registry : Registry) (p : String) : Nat → Parsing → Bool
  | 0, _ => false
  | n + 1, w =>
    !(w.namedPackages registry).contains p &&
      (turn registry w).elim (fun _ => true) (neverNamesWithin registry p n)

theorem neverNames_of_neverNamesWithin {registry : Registry} {p : String} {n : Nat} {w : Parsing}
    (h : neverNamesWithin registry p n w = true) : w.NeverNames p registry := by
  intro s waiting hs
  induction n generalizing w with
  | zero => cases h
  | succ n ih =>
    simp only [neverNamesWithin, Bool.and_eq_true] at h
    rcases hs.cases_head with rfl | ⟨v, hv, hs⟩
    · simpa [namedPackages] using h.1
    · rw [hv] at h
      exact ih h.2 hs

end Parsing

namespace Registry

/-- A registry in which packages can be activated, with a command `\m` in the package `q`. -/
def withPackage : Registry :=
  (empty.register "usepackage" (.builtin .usePackage)).define (some "q") (.simple "m" ['x'])

/-- A command `\m` in another package takes the place of that one only where its package is active
as well. -/
theorem lookup_and_parse_after_other_package :
    let call : Registration := .definition (some "p") (.simple "m" ['y'])
    let markup := "\\usepackage\x7bq\x7d\\m"
    call.IsIn "p" ∧ (Parsing.start [] markup).NeverNames "p" withPackage ∧
      (withPackage.after [call]).parse {} markup = withPackage.parse {} markup ∧
      (withPackage.after [call]).lookup? "m" ["q", "p"] =
        some (some "p", .defined (.simple "m" ['y'])) := by
  intro call markup
  have hnamed : (Parsing.start [] markup).NeverNames "p" withPackage :=
    neverNames_of_neverNamesWithin (n := 8) (by decide +kernel)
  obtain ⟨hlookup, hparse⟩ := lookup_and_parse_after withPackage [call]
  have hcall : ∀ c ∈ [call], c.IsIn "p" := by simp [call, Registration.IsIn]
  refine ⟨rfl, hnamed, hparse "p" hcall {} markup (by simp) (.inl hnamed), ?_⟩
  rw [hlookup]
  rfl

end Registry

end Typeset
