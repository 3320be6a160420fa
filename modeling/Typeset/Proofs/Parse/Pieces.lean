import Typeset.Proofs.Parse.Course

/-!
# Pieces of markup within markup

A token may hand a piece of markup on to be parsed on its own: the degree of a root, or the text
that a defined command stands for. What such a token asks for depends on the atom of its piece, and
on nothing else of how pieces are parsed.

* `ParseState.piece?`: the piece that the next token hands on, with the scope that it is met in;
  that is the scope before the token (`ParseState.scope_of_piece?`).
* `ParseState.step_of_piece?_eq_none`: a token without a piece is the same in every language of the
  registry.
* `ParseState.step_of_piece?`: what a token does with the answer to its piece
  (`Language.answer?`).
-/

namespace Typeset

/-- What a language makes of a piece of markup; nothing, if pieces are nested too deeply. -/
def Language.answer? (l : Language) (scope : Scope) (cs : List Char) :
    Option (Except ParseError Atom) :=
  l.fragment?.map fun parse => parse scope cs

/-- What a piece comes to whose own parse comes to `o`. -/
def pieceAnswer (o : Except Failure Atom) : Except ParseError Atom :=
  match o with
  | .ok a => .ok a.unwrapped
  | .error f => .error f.error

namespace Language

@[simp] theorem registry_nested (registry : Registry) (depth : Nat) :
    (nested registry depth).registry = registry := by
  cases depth <;> rfl

theorem answer?_nested_zero (registry : Registry) (scope : Scope) (cs : List Char) :
    (nested registry 0).answer? scope cs = none := rfl

/-- A piece is parsed one level deeper. -/
theorem answer?_nested_succ (registry : Registry) (depth : Nat) (scope : Scope)
    (cs : List Char) : (nested registry (depth + 1)).answer? scope cs =
      some (pieceAnswer (ParseState.parse (nested registry depth) scope cs)) := rfl

theorem run_fragment (l : Language) (cs : List Char) (r : Reader) :
    (l.fragment cs).run r =
      match l.answer? r.scope cs with
      | none => (.error (.fault r.position .nestedTooDeeply), r)
      | some o => (o, r) := by
  unfold fragment answer?
  cases l.fragment? with
  | none => rfl
  | some parse =>
    simp only [Reading.run_bind, Reading.reader, Option.map_some]
    cases parse r.scope cs <;> rfl

end Language

/-! ## Commands -/

/-- The piece that a command of the language hands on: the degree of a root. -/
def Builtin.piece? : Builtin → Reading (Option (List Char))
  | sqrt => Reading.optional?
  | _ => pure none

namespace CommandState

/-- The piece that a command hands on. A defined command hands on the text it stands for. -/
def piece? : CommandState → Reading (Option (List Char))
  | fresh b => b.piece?
  | defined d => return some (d.expand (← Reading.arguments d.parameters))
  | _ => pure none

/-- What a command asks for once its piece has an atom. -/
def withPiece (a : Atom) : CommandState → Directive
  | defined _ =>
    match a with
    | .row [] => .done none
    | a => .done (some a)
  | _ => .takeArguments (.sqrt (some a))

variable {s : CommandState} {r r' : Reader} {cs : List Char} {l k : Language}

/-- A command that hands a piece on reads nothing after it. -/
theorem run_start_of_piece? (h : s.piece?.run r = (.ok (some cs), r')) (l : Language) :
    (s.start l).run r =
      match l.answer? r'.scope cs with
      | none => (.error (.fault r'.position .nestedTooDeeply), r')
      | some (.error e) => (.error e, r')
      | some (.ok a) => (.ok (s.withPiece a), r') := by
  have hrun {k : Atom → Reading Directive} (hk : ∀ a, k a = pure (s.withPiece a)) :
      (l.fragment cs >>= k).run r' =
        match l.answer? r'.scope cs with
        | none => (.error (.fault r'.position .nestedTooDeeply), r')
        | some (.error e) => (.error e, r')
        | some (.ok a) => (.ok (s.withPiece a), r') := by
    rw [Reading.run_bind, l.run_fragment]
    rcases l.answer? r'.scope cs with _ | e | a
    · rfl
    · rfl
    · exact congrArg (fun k => k.run r') (hk a)
  cases s with
  | fresh b =>
    cases b with
    | sqrt =>
      change (Reading.optional? >>= _).run r = _
      rw [Reading.run_bind, show Reading.optional?.run r = (.ok (some cs), r') from h]
      exact hrun fun _ => rfl
    | _ => cases h
  | defined d =>
    simp only [piece?, Reading.run_bind] at h
    change (Reading.arguments d.parameters >>= _).run r = _
    rw [Reading.run_bind]
    rcases ha : (Reading.arguments d.parameters).run r with ⟨e | args, r''⟩ <;>
      rw [ha] at h <;> cases h
    refine hrun fun a => ?_
    cases a with
    | row atoms => cases atoms <;> rfl
    | _ => rfl
  | args | switch | division | fence | script => cases h

/-- A command that hands no piece on starts the same in every language of the registry. -/
theorem run_start_of_no_piece (h : ∀ cs r', s.piece?.run r ≠ (.ok (some cs), r'))
    (hl : k.registry = l.registry) : (s.start k).run r = (s.start l).run r := by
  obtain ⟨registry, fragment?⟩ := l
  obtain ⟨registry', fragment?'⟩ := k
  obtain rfl : registry' = registry := hl
  cases s with
  | fresh b =>
    cases b with
    | sqrt =>
      change (Reading.optional? >>= _).run r = (Reading.optional? >>= _).run r
      rw [Reading.run_bind, Reading.run_bind]
      rcases ho : Reading.optional?.run r with ⟨e | _ | cs, r'⟩
      · rfl
      · rfl
      · exact absurd ho (h cs r')
    | _ => rfl
  | defined d =>
    change (Reading.arguments d.parameters >>= _).run r =
      (Reading.arguments d.parameters >>= _).run r
    rw [Reading.run_bind, Reading.run_bind]
    rcases ha : (Reading.arguments d.parameters).run r with ⟨e | args, r'⟩
    · rfl
    · refine absurd ?_ (h (d.expand args) r')
      simp only [piece?, Reading.run_bind, ha]
      rfl
  | args | switch | division | fence | script => rfl

end CommandState

/-! ## Tokens -/

/-- The piece that a command hands on whose backslash stands at `pos` and has been read. -/
def Registry.commandPiece? (registry : Registry) (pos : Nat) : Reading (Option (List Char)) := do
  match ← Reading.commandName? with
  | none => pure none
  | some name =>
    match (Language.nested registry 0).resolve (← Reading.reader).scope (String.ofList name) pos with
    | .error _ => pure none
    | .ok c => c.state.piece?

/-- The piece that a token hands on whose first character stands at `pos` and has been read. -/
def Registry.piece? (registry : Registry) (pos : Nat) (c : Char) :
    Reading (Option (List Char)) :=
  if c = '\\' then registry.commandPiece? pos else pure none

namespace Language

variable {l k : Language} {pos : Nat} {r r' : Reader} {cs : List Char}

/-- A command that hands a piece on waits for its atom. -/
theorem run_readCommand_of_piece? {registry : Registry}
    (h : (registry.commandPiece? pos).run r = (.ok (some cs), r')) :
    ∃ c : Command, ∀ l : Language, l.registry = registry →
      (l.readCommand pos).run r =
        match l.answer? r'.scope cs with
        | none => (.error ((ParseError.fault r'.position .nestedTooDeeply).inCommand c.name), r')
        | some (.error e) => (.error (e.inCommand c.name), r')
        | some (.ok a) => (.ok (.command c (c.state.withPiece a)), r') := by
  rw [Registry.commandPiece?, Reading.run_bind] at h
  rcases hn : Reading.commandName?.run r with ⟨e | _ | name, t⟩ <;> rw [hn] at h
  · cases h
  · cases h
  simp only [Reading.run_bind, Reading.reader] at h
  cases hc : (nested registry 0).resolve t.scope (String.ofList name) pos with
  | error e =>
    rw [hc] at h
    cases h
  | ok c =>
    rw [hc] at h
    refine ⟨c, fun l hl => ?_⟩
    have hc' : l.resolve t.scope (String.ofList name) pos = .ok c := by
      rw [← hc, resolve, resolve, hl]
      rfl
    simp only [readCommand, Reading.run_bind, hn, Reading.reader, hc', Command.start,
      Reading.inCommand, CommandState.run_start_of_piece? h l]
    rcases l.answer? r'.scope cs with _ | e | a <;> rfl

/-- A command that hands no piece on asks for the same in every language of the registry. -/
theorem run_readCommand_of_no_piece
    (h : ∀ cs r', (l.registry.commandPiece? pos).run r ≠ (.ok (some cs), r'))
    (hl : k.registry = l.registry) : (k.readCommand pos).run r = (l.readCommand pos).run r := by
  simp only [Registry.commandPiece?, Reading.run_bind] at h
  simp only [readCommand, Reading.run_bind]
  rcases hn : Reading.commandName?.run r with ⟨e | _ | name, t⟩
  · rfl
  · rfl
  rw [hn] at h
  have hres : k.resolve t.scope (String.ofList name) pos =
      l.resolve t.scope (String.ofList name) pos := by
    rw [resolve, resolve, hl]
  simp only [Reading.reader, Reading.run_bind, hres] at h ⊢
  cases hc : l.resolve t.scope (String.ofList name) pos with
  | error e => rfl
  | ok c =>
    have hc' : (nested l.registry 0).resolve t.scope (String.ofList name) pos = .ok c := hc
    rw [hc'] at h
    simp only [Reading.run_bind, Command.start, Reading.inCommand,
      CommandState.run_start_of_no_piece h hl]

end Language

theorem Language.readMove_backslash (l : Language) (pos : Nat) :
    l.readMove pos '\\' = l.readCommand pos := rfl

/-- Only commands look names up. -/
theorem Language.readMove_of_ne {x : Char} (hx : x ≠ '\\') (l k : Language) (pos : Nat) :
    k.readMove pos x = l.readMove pos x := by
  unfold Language.readMove
  split <;> first | rfl | exact (hx rfl).elim

namespace ParseState

variable {l : Language} {s : ParseState} {scope : Scope} {cs : List Char}

/-- The piece that the next token of a state hands on, and the scope that it is met in. -/
def piece? (registry : Registry) (s : ParseState) : Option (Scope × List Char) :=
  let c := s.reader.cursor.skipBlanks
  c.peek.bind fun x =>
    match (registry.piece? c.position x).run { s.reader with cursor := c.advance 1 } with
    | (.ok (some cs), r) => some (r.scope, cs)
    | _ => none

/-- A token without a piece is the same in every language of the registry. -/
theorem step_of_piece?_eq_none {k : Language} (h : s.piece? l.registry = none)
    (hl : k.registry = l.registry) : s.step k = s.step l := by
  simp only [piece?] at h
  simp only [step]
  cases hx : s.reader.cursor.skipBlanks.peek with
  | none => rw [Option.map_none, Option.map_none]
  | some x =>
    rw [hx, Option.bind_some] at h
    by_cases hb : x = '\\'
    · subst hb
      rw [Registry.piece?, if_pos rfl] at h
      have hrun := Language.run_readCommand_of_no_piece (k := k) (fun cs r' he => by
        rw [he] at h
        cases h) hl
      simp only [Option.map_some, Language.readMove_backslash, hrun]
    · simp only [Option.map_some, Language.readMove_of_ne hb l k]

/-- A token that hands a piece on does with the answer what its command asks for. -/
theorem step_of_piece? {registry : Registry} (h : s.piece? registry = some (scope, cs)) :
    ∃ (c : Command) (pos : Nat) (r : Reader), r.scope = scope ∧
      r.cursor.Follows s.reader.cursor ∧ ∀ l : Language, l.registry = registry →
        s.step l = some (
          match l.answer? scope cs with
          | none => .error
              ⟨(ParseError.fault r.position .nestedTooDeeply).inCommand c.name, s.nest⟩
          | some (.error e) => .error ⟨e.inCommand c.name, s.nest⟩
          | some (.ok a) => do
            return { reader := r,
                     nest := ← s.nest.perform c pos r.position (c.state.withPiece a) }) := by
  simp only [piece?, Option.bind_eq_some_iff] at h
  obtain ⟨x, hx, h⟩ := h
  by_cases hb : x = '\\'
  · subst hb
    simp only [Registry.piece?, if_true] at h
    have hf := (registry.commandPiece? s.reader.cursor.skipBlanks.position).follows
      { s.reader with cursor := s.reader.cursor.skipBlanks.advance 1 }
    split at h
    · rename_i ds r hp
      cases h
      rw [hp] at hf
      obtain ⟨c, hc⟩ := Language.run_readCommand_of_piece? hp
      refine ⟨c, s.reader.cursor.skipBlanks.position, r, rfl,
        hf.trans ((Cursor.advance_follows _ _).trans (Cursor.skipBlanks_follows _)), fun l hl => ?_⟩
      simp only [step, hx, Option.map_some, Language.readMove_backslash, hc l hl]
      rcases l.answer? r.scope cs with _ | e | a <;> rfl
    · cases h
  · rw [Registry.piece?, if_neg hb] at h
    cases h

/-- A token is the same in two languages that answer its piece alike. -/
theorem step_of_answer?_eq {k : Language} (h : s.piece? l.registry = some (scope, cs))
    (hl : k.registry = l.registry) (ha : k.answer? scope cs = l.answer? scope cs) :
    s.step k = s.step l := by
  obtain ⟨c, pos, r, -, -, hstep⟩ := step_of_piece? h
  rw [hstep k hl, hstep l rfl, ha]

end ParseState

/-! ## Scopes -/

namespace Reading

variable {α β : Type} {x : Reading α}

/-- The reading sets no names up. -/
def KeepsScope (x : Reading α) : Prop := ∀ r, (x.run r).2.scope = r.scope

theorem KeepsScope.bind {f : α → Reading β} (hx : x.KeepsScope) (hf : ∀ a, (f a).KeepsScope) :
    (x >>= f).KeepsScope := by
  intro r
  have h := hx r
  rw [run_bind]
  rcases he : x.run r with ⟨e | a, s⟩ <;> rw [he] at h
  · exact h
  · exact (hf a s).trans h

theorem keepsScope_pure (a : α) : (pure a : Reading α).KeepsScope := fun _ => rfl

theorem keepsScope_fail (e : ParseError) : (fail e : Reading α).KeepsScope := fun _ => rfl

theorem keepsScope_reader : reader.KeepsScope := fun _ => rfl

theorem keepsScope_ofCursor (g : Cursor → α × Cursor) (hg : ∀ c, (g c).2.Follows c) :
    (ofCursor g hg).KeepsScope := fun _ => rfl

theorem keepsScope_orFailAt (position : Nat) (c : Fault) (o : Option α) :
    (orFailAt position c o).KeepsScope := by
  cases o <;> exact fun _ => rfl

theorem keepsScope_argument : argument.KeepsScope := by
  refine KeepsScope.bind (fun _ => rfl) fun _ => .bind (fun _ => rfl) fun here =>
    .bind (fun _ => rfl) fun c => ?_
  split
  · exact keepsScope_fail _
  · exact (keepsScope_ofCursor _ _).bind (keepsScope_orFailAt here _)

theorem keepsScope_optional? : optional?.KeepsScope := keepsScope_ofCursor _ _

theorem keepsScope_arguments (ps : List Parameter) : (arguments ps).KeepsScope := by
  induction ps with
  | nil => exact keepsScope_pure _
  | cons p ps ih =>
    cases p with
    | required => exact keepsScope_argument.bind fun _ => ih.bind fun _ => keepsScope_pure _
    | optional => exact keepsScope_optional?.bind fun _ => ih.bind fun _ => keepsScope_pure _

end Reading

theorem CommandState.keepsScope_piece? (s : CommandState) : s.piece?.KeepsScope := by
  cases s with
  | fresh b =>
    cases b with
    | sqrt => exact Reading.keepsScope_optional?
    | _ => exact Reading.keepsScope_pure _
  | defined d => exact (Reading.keepsScope_arguments _).bind fun _ => Reading.keepsScope_pure _
  | args | switch | division | fence | script => exact Reading.keepsScope_pure _

theorem Registry.keepsScope_piece? (registry : Registry) (pos : Nat) (c : Char) :
    (registry.piece? pos c).KeepsScope := by
  unfold Registry.piece?
  split
  · refine Reading.KeepsScope.bind (Reading.keepsScope_ofCursor _ _) fun name => ?_
    split
    · exact Reading.keepsScope_pure _
    · refine Reading.keepsScope_reader.bind fun r => ?_
      split
      · exact Reading.keepsScope_pure _
      · exact CommandState.keepsScope_piece? _
  · exact Reading.keepsScope_pure _

/-- A piece is met in the scope before its token. -/
theorem ParseState.scope_of_piece? {registry : Registry} {s : ParseState} {scope : Scope}
    {cs : List Char} (h : s.piece? registry = some (scope, cs)) : scope = s.reader.scope := by
  simp only [piece?, Option.bind_eq_some_iff] at h
  obtain ⟨x, -, h⟩ := h
  split at h
  · rename_i ds r hr
    cases h
    have hk := registry.keepsScope_piece? s.reader.cursor.skipBlanks.position x
      { s.reader with cursor := s.reader.cursor.skipBlanks.advance 1 }
    rwa [hr] at hk
  · cases h

end Typeset
