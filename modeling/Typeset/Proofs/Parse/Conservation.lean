import Typeset.Proofs.Nest.Conservation
import Typeset.Proofs.Parse.Soundness

/-!
# A parse loses and duplicates no sign

Along a parse the signs of the nest grow by those of the tokens, and by nothing else.

* `Atom.signs`, `Nest.signs`: the signs in an atom, and in all that a nest holds.
* `ParseState.nextSigns`: the signs that the next token brings; `ParseState.signsAhead`: those of
  all tokens up to the end of the text.
* `ParseState.Reached.signs_step`: one token adds its signs.
* `ParseState.signs_parse`: the atom of a text has the signs of all tokens.
-/

namespace Typeset

open Atom

/-- The signs in the atom, each with its character and class. -/
def Atom.signs (a : Atom) : Multiset Atom := a.pick isSymbol

/-- The signs in all that the nest holds. -/
def Nest.signs (n : Nest) : Multiset Atom := n.pick isSymbol

/-! ## The signs of a token -/

/-- The signs of a piece of markup that is met at a reader. -/
def Language.fragmentSigns (l : Language) (cs : List Char) (r : Reader) : Multiset Atom :=
  match (l.fragment cs).run r with
  | (.ok a, _) => a.signs
  | _ => 0

/-- The signs that a command brings which starts at a reader: a symbol is one, a root has those of
its degree, and a defined command those of its replacement text. -/
def CommandState.signsAt (l : Language) (r : Reader) : CommandState → Multiset Atom
  | .fresh (.symbol s) => {.symbol s.char s.mathClass}
  | .fresh .sqrt =>
    match Reading.optional?.run r with
    | (.ok (some degree), r) => l.fragmentSigns degree r
    | _ => 0
  | .defined d =>
    match (Reading.arguments d.parameters).run r with
    | (.ok as, r) => l.fragmentSigns (d.expand as) r
    | _ => 0
  | _ => 0

/-- The signs of the command whose backslash has been read. -/
def Language.commandSigns (l : Language) (pos : Nat) (r : Reader) : Multiset Atom :=
  match Reading.commandName?.run r with
  | (.ok (some name), r) =>
    match l.resolve r.scope (String.ofList name) pos with
    | .ok c => c.state.signsAt l r
    | .error _ => 0
  | _ => 0

/-- The signs of the token whose first character has been read: a character is one, and so is a
prime. -/
def Language.tokenSigns (l : Language) (pos : Nat) (r : Reader) : Char → Multiset Atom
  | '\\' => l.commandSigns pos r
  | '\'' => {.prime}
  | '%' | '{' | '}' | '^' | '_' | '&' | '~' | '$' => 0
  | c => {.ofChar c}

/-- The signs of the next token. -/
def ParseState.nextSigns (l : Language) (s : ParseState) : Multiset Atom :=
  let c := s.reader.cursor.skipBlanks
  match c.peek with
  | none => 0
  | some x => l.tokenSigns c.position { s.reader with cursor := c.advance 1 } x

/-- The signs of the tokens up to the end of the text, or up to one that is refused. -/
def ParseState.signsAhead (l : Language) (s : ParseState) : Multiset Atom :=
  match _h : s.step l with
  | some (.ok t) => s.nextSigns l + signsAhead l t
  | _ => 0
termination_by s.reader.cursor.rest.length
decreasing_by exact step_rest_lt ‹_›

/-! ## What a token brings -/

/-- A directive that brings no more than an atom without parts brings none. -/
theorem Directive.IsPlain.pick_brought {p : Atom → Bool} (hp : Spares p) {d : Directive}
    (h : d.IsPlain) : pickAll p d.brought = 0 := by
  cases d with
  | done a =>
    cases a with
    | none => rfl
    | some a =>
      obtain ⟨hs, hc⟩ := h a rfl
      simp [brought, hp.pick_simple hs, hc]
  | consume s => simp [brought, h.2.2]
  | stealRow s =>
    obtain ⟨rule, delims, rfl⟩ := h
    rfl
  | _ => rfl

theorem Directive.IsPlain.stealsForDivision {d : Directive} (h : d.IsPlain) :
    d.StealsForDivision := by
  cases d with
  | stealRow s => exact h
  | _ => trivial

/-- A command that starts with its name asks for a directive that brings its signs. -/
theorem CommandState.signs_start {l : Language} {s : CommandState} {r r' : Reader} {d : Directive}
    (hs : (∃ b, s = .fresh b) ∨ ∃ d, s = .defined d) (h : (s.start l).run r = (.ok d, r')) :
    pickAll isSymbol d.brought = s.signsAt l r := by
  obtain ⟨b, rfl⟩ | ⟨definition, rfl⟩ := hs
  · cases hb : b.bringsSigns with
    | false =>
      have hplain := b.ensures_plain l hb r
      rw [CommandState.start] at h
      rw [h] at hplain
      rw [hplain.pick_brought spares_isSymbol]
      cases b <;> first | rfl | cases hb
    | true =>
      cases b with
      | symbol s =>
        cases h
        rfl
      | sqrt =>
        simp only [CommandState.start, Builtin.start, Reading.run_bind] at h
        rw [signsAt]
        rcases ho : Reading.optional?.run r with ⟨e | o, t⟩ <;> simp only [ho] at h
        · cases h
        · cases o with
          | none =>
            cases h
            rfl
          | some degree =>
            simp only [Reading.run_bind] at h
            simp only [Language.fragmentSigns]
            rcases hf : (l.fragment degree).run t with ⟨e | a, u⟩ <;> simp only [hf] at h
            · cases h
            · cases h
              simp [Directive.brought, Directive.takeArguments, held, ArgKind.degree?, Atom.signs]
      | _ => cases hb
  · simp only [CommandState.start, Language.expand, Reading.run_bind] at h
    rw [signsAt]
    rcases ha : (Reading.arguments definition.parameters).run r with ⟨e | as, t⟩ <;>
      simp only [ha] at h
    · cases h
    · simp only [Language.fragmentSigns]
      rcases hf : (l.fragment (definition.expand as)).run t with ⟨e | a, u⟩ <;>
        simp only [hf] at h
      · cases h
      · simp only
        split at h
        · cases h
          exact (spares_isSymbol.pick_row []).symm
        · cases h
          simp [Directive.brought, Atom.signs]

namespace Language

variable {l : Language} {r s : Reader} {move : Move} {pos : Nat} {x : Char}

theorem signs_readCommand (h : (l.readCommand pos).run r = (.ok move, s)) :
    pickAll isSymbol move.brought = l.commandSigns pos r := by
  simp only [readCommand, Reading.run_bind] at h
  unfold commandSigns
  rcases hn : Reading.commandName?.run r with ⟨e | name, t⟩ <;> simp only [hn] at h
  · cases h
  · cases name with
    | none => cases h
    | some name =>
      simp only [Reading.run_bind, Reading.reader] at h
      simp only
      cases hc : l.resolve t.scope (String.ofList name) pos with
      | error e =>
        simp only [hc] at h
        cases h
      | ok c =>
        simp only [hc, Reading.run_bind, Command.start, Reading.inCommand] at h
        rcases hd : (c.state.start l).run t with ⟨e | d, u⟩ <;>
          simp only [hd, Except.mapError] at h
        · cases h
        · cases h
          exact CommandState.signs_start (state_of_resolve hc) hd

/-- A token brings its signs to the nest. -/
theorem signs_readMove (h : (l.readMove pos x).run r = (.ok move, s)) :
    pickAll isSymbol move.brought = l.tokenSigns pos r x := by
  unfold readMove at h
  unfold tokenSigns
  split at h <;> simp only
  all_goals first
    | exact signs_readCommand h
    | cases h; rfl

/-- A token that takes the row before it starts a fraction. -/
theorem stealsForDivision_readMove (hl : l.HasSoundFragments)
    (h : (l.readMove pos x).run r = (.ok move, s)) : move.StealsForDivision := by
  have hb (b : Builtin) : (b.start l).Ensures Directive.StealsForDivision := by
    cases hb : b.bringsSigns with
    | false => exact (b.ensures_plain l hb).mono fun _ => Directive.IsPlain.stealsForDivision
    | true =>
      cases b with
      | symbol => exact .pure trivial
      | sqrt =>
        refine Reading.ensures_optional?.andThen fun degree => ?_
        split
        · exact .pure trivial
        · exact (ensures_fragment hl _).bind fun _ _ => .pure trivial
      | _ => cases hb
  have hd (d : Definition) : (l.expand d).Ensures Directive.StealsForDivision := by
    refine (Reading.ensures_arguments _).andThen fun as =>
      (ensures_fragment hl _).bind fun a _ => ?_
    split <;> exact .pure trivial
  have hmove := l.ensures_readMove_of hb hd pos x r
  rw [h] at hmove
  cases move with
  | command c d => exact hmove.2 c d rfl
  | _ => trivial

end Language

/-! ## All tokens -/

theorem Nest.picksNoScripts_isSymbol (n : Nest) : n.PicksNoScripts isSymbol := by
  intro a ha
  have hs := (mem_pickAll.mp ha).2
  cases a <;> first | rfl | cases hs

namespace ParseState

variable {l : Language} {s t u : ParseState}

/-- One token adds its signs to those of a sound nest. -/
theorem signs_step (hl : l.HasSoundFragments) (hs : s.nest.Sound) (h : s.step l = some (.ok t)) :
    t.nest.signs = s.nest.signs + s.nextSigns l := by
  obtain ⟨x, move, hx, hm, ha⟩ := exists_move_of_step h
  have hkept := hs.conserves_apply spares_isSymbol s.nest.picksNoScripts_isSymbol
    s.reader.cursor.skipBlanks.position t.reader.position (l.stealsForDivision_readMove hl hm)
  rw [Language.signs_readMove hm, ha] at hkept
  simp only [nextSigns, hx]
  exact hkept

/-- From a state with a sound nest on, the signs of the tokens ahead are added to those of its
nest. -/
theorem Reached.signs_add_signsAhead (hl : l.HasSoundFragments) (hs : s.nest.Sound)
    (h : Reached l s t) : t.nest.signs + t.signsAhead l = s.nest.signs + s.signsAhead l := by
  induction h with
  | start => rfl
  | @token t u ht hu ih =>
    rw [← ih, signs_step hl (ht.sound hl hs) hu]
    conv => rhs; rw [signsAhead]
    split
    · rename_i v hv
      rw [hu] at hv
      cases hv
      rw [add_assoc]
    · rename_i hv
      exact (hv u hu).elim

/-- The atom of a text has the signs of its tokens. -/
theorem signs_parse (hl : l.HasSoundFragments) {scope : Scope} {cs : List Char} {a : Atom}
    (h : parse l scope cs = .ok a) : a.signs = (start cs scope).signsAhead l := by
  have hs : (start cs scope).nest.Sound := Nest.sound_start
  obtain ⟨t, ht, ⟨hn, -⟩ | ⟨f, -, he⟩⟩ := exists_reached_scan l (start cs scope)
  · rw [ht.parse_eq hn] at h
    have hahead : t.signsAhead l = 0 := by
      rw [signsAhead]
      split
      · rename_i u hu
        rw [hn] at hu
        cases hu
      · rfl
    have hstart : (start cs scope).nest.signs = 0 := rfl
    have hall := ht.signs_add_signsAhead hl hs
    rw [hahead, hstart, add_zero, zero_add] at hall
    rw [← hall]
    exact (ht.sound hl hs).pick_finish spares_isSymbol h
  · rw [parse, he] at h
    cases h

end ParseState

/-- A parse loses and duplicates no sign: from every state that it reaches, a token that succeeds
adds to the signs of the nest exactly those that it brings, and the atom of a text that parses has
exactly the signs of its tokens. -/
theorem signs_of_parse (registry : Registry) (depth : Nat) (scope : Scope) (markup : List Char) :
    let l := Language.nested registry depth
    let start := ParseState.start markup scope
    start.nest.signs = 0 ∧
    (∀ s t, ParseState.Reached l start s → s.step l = some (.ok t) →
      t.nest.signs = s.nest.signs + s.nextSigns l) ∧
    (∀ a, ParseState.parse l scope markup = .ok a → a.signs = start.signsAhead l) ∧
    ∀ o text a, o.lenient = false → registry.parse o text = .ok a →
      a.signs =
        (ParseState.start text.toList { packages := o.packages }).signsAhead registry.language := by
  intro l start
  have hl : l.HasSoundFragments := Language.hasSoundFragments_nested registry depth
  refine ⟨rfl, fun s t hs ht => ?_, fun a ha => ParseState.signs_parse hl ha,
    fun o text a ho ha => ?_⟩
  · exact ParseState.signs_step hl (hs.sound hl Nest.sound_start) ht
  · exact ParseState.signs_parse (Language.hasSoundFragments_nested registry maxDepth)
      ((Registry.parse_eq_ok_iff ho).mp ha)

/-- In `x'`, the second token brings a prime, and the two signs are in the atom. -/
theorem signs_of_parse_primed :
    let l := Registry.empty.language
    let start := ParseState.start "x'".toList {}
    let x := Atom.ofChar 'x'
    let a := Atom.row [.scripts x (some .prime) none]
    ∃ s t, ParseState.Reached l start s ∧ s.step l = some (.ok t) ∧ s.nest.signs = {x} ∧
      s.nextSigns l = {.prime} ∧ t.nest.signs = {x} + {.prime} ∧
      Registry.empty.parse {} "x'" = .ok a ∧ a.signs = start.signsAhead l ∧
      a.signs = {x} + {.prime} := by
  intro l start x a
  let before (rest : List Char) (position : Nat) (row : List Atom) : ParseState :=
    { reader := { cursor := { rest, position } }, nest := [.group row [] 0 true] }
  let s := before ['\''] 1 [x]
  let t := before [] 2 [.scripts x (some .prime) none]
  have hs : ParseState.Reached l start s := .token .start rfl
  have ht : s.step l = some (.ok t) := rfl
  have hx : s.nest.signs = {x} := rfl
  have hfinish : t.nest.finish 2 = .ok a := by
    rw [Nest.finish, Nest.closeDeclarations_of_endsInDeclaration rfl]
    rfl
  have hparse : Registry.empty.parse {} "x'" = .ok a :=
    (Registry.parse_eq_ok_iff rfl).mpr (((hs.token ht).parse_eq rfl).trans hfinish)
  have h := signs_of_parse .empty maxDepth {} "x'".toList
  exact ⟨s, t, hs, ht, hx, rfl, h.2.1 s t hs ht, hparse, h.2.2.2 {} _ _ rfl hparse, rfl⟩

end Typeset
