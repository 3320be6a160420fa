import Typeset.Proofs.Parse.Canonical
import Typeset.Proofs.Parse.Groups

/-!
# Calls of defined commands

A call of a command that the markup defines comes to what its text comes to in a group.

* `Cursor.IsBalanced`: a text that braces around it delimit.
* `Reading.Takes`: what a reading takes of the markup in front of the rest of it.
* `ParseState.exists_step_newCommand`, `ParseState.exists_step_call`: the tokens of a definition and
  of a call.
* `ParseState.outcome_call_eq_ok_iff`, `ParseState.eq_of_outcome_braced`: what markup comes to that
  ends with a call, or with a group.
-/

namespace Typeset

open Canonical (braced)

/-! ## Names and balanced texts -/

/-- Letters that name a command. -/
structure IsWord (name : List Char) : Prop where
  ne_nil : name ≠ []
  isAlpha : ∀ c ∈ name, c.isAlpha = true

namespace Cursor

variable {body rest : List Char}

/-- Braces around the text make a group whose content is the text. -/
def IsBalanced (cs : List Char) : Prop := ((start (braced cs)).readBalanced? '{' '}').1 = some cs

instance (cs : List Char) : Decidable (IsBalanced cs) :=
  inferInstanceAs (Decidable (((start (braced cs)).readBalanced? '{' '}').1 = some cs))

theorem isBalanced_iff :
    IsBalanced body ↔ balancedLength? '{' '}' 0 (body ++ ['}']) = some body.length := by
  rw [IsBalanced]
  rcases readBalanced?_cases '{' '}' (start (braced body)) with hn | ⟨n, xs, hr, hn, he⟩
  · refine ⟨fun h => ?_, fun h => ?_⟩
    · rw [hn] at h
      cases h
    · rw [readBalanced?_of_balancedLength? rfl h, List.take_left]
  · obtain rfl : body ++ ['}'] = xs := (List.cons.inj hr).2
    rw [he, hn, Option.some.injEq, Option.some.injEq]
    have hlt : n < (body ++ ['}']).length := ((balancedLength?_eq_some_iff []).mp hn).2
    refine ⟨fun h => ?_, fun h => by rw [h, List.take_left]⟩
    have hlen := congrArg List.length h
    rw [List.length_take] at hlen
    omega

/-- A balanced text between braces is read as a group, whatever follows. -/
theorem IsBalanced.readBalanced? (h : IsBalanced body) {c : Cursor}
    (hc : c.rest = braced body ++ rest) :
    ∃ d : Cursor, c.readBalanced? '{' '}' = (some body, d) ∧ d.rest = rest := by
  have hlen := ((balancedLength?_eq_some_iff rest).mp (isBalanced_iff.mp h)).1
  rw [List.append_assoc] at hlen
  have hrest : c.rest = '{' :: (body ++ ('}' :: rest)) := by simp [hc, braced]
  refine ⟨c.advance (body.length + 2), ?_, by simp [advance, hrest, List.drop_append]⟩
  rw [readBalanced?_of_balancedLength? hrest hlen, List.take_left]

/-- A backslash with a name of letters is balanced. -/
theorem isBalanced_command {name : List Char} (h : IsWord name) : IsBalanced ('\\' :: name) := by
  obtain ⟨x, xs, rfl⟩ := List.exists_cons_of_ne_nil h.ne_nil
  have hxs : balancedLength? '{' '}' 0 (xs ++ ['}']) = some xs.length :=
    balancedLength?_of_forall [] fun y hy =>
      (plain_of_isAlpha (.inl (h.isAlpha y (List.mem_cons_of_mem _ hy)))).2
  rw [isBalanced_iff, List.cons_append, List.cons_append, balancedLength?_backslash, hxs]
  rfl

end Cursor

/-! ## What readings take -/

/-- A command in a definition is named by its letters. -/
theorem readDefinedName?_command {name : List Char} (h : IsWord name) :
    readDefinedName? ('\\' :: name) = some (String.ofList name) := by
  have htrim : Text.trim ('\\' :: name) = '\\' :: name := by
    refine Text.trim_of_forall fun c hc => ?_
    rcases List.mem_cons.mp hc with rfl | hc
    · decide
    · exact (plain_of_isAlpha (.inl (h.isAlpha c hc))).1
  have hend : Text.trimEnd (· == '}') ('\\' :: name) = '\\' :: name := by
    refine List.rdropWhile_eq_self_iff.mpr fun hl => ?_
    rw [List.getLast_cons h.ne_nil]
    simpa using (plain_of_isAlpha (.inl (h.isAlpha _ (List.getLast_mem h.ne_nil)))).2.2.2
  obtain ⟨x, xs, rfl⟩ := List.exists_cons_of_ne_nil h.ne_nil
  have hstart : Text.trimStart (· == '{') ('\\' :: x :: xs) = '\\' :: x :: xs := rfl
  simp only [readDefinedName?, htrim, hstart, hend]

theorem readCount?_digitChar : ∀ n ≤ 9, readCount? [Nat.digitChar n] = some n := by decide

theorem digitChar_ne : ∀ n ≤ 9, Nat.digitChar n ≠ '\\' ∧ Nat.digitChar n ≠ '[' ∧
    Nat.digitChar n ≠ ']' := by decide

namespace Reading

variable {α β : Type} {x : Reading α} {t u rest body : List Char} {s s' s'' : Scope} {a : α} {b : β}

/-- In front of the rest of the markup, the reading takes a text and gives a value, and sets names
up. -/
def Takes (x : Reading α) (text rest : List Char) (s : Scope) (a : α) (s' : Scope) : Prop :=
  ∀ c : Cursor, c.rest = text ++ rest →
    ∃ d : Cursor, x.run { cursor := c, scope := s } = (.ok a, { cursor := d, scope := s' }) ∧
      d.rest = rest

theorem takes_pure : (pure a : Reading α).Takes [] rest s a s := fun c hc => ⟨c, rfl, hc⟩

theorem Takes.bind {f : α → Reading β} (hx : x.Takes t (u ++ rest) s a s')
    (hf : (f a).Takes u rest s' b s'') : (x >>= f).Takes (t ++ u) rest s b s'' := by
  intro c hc
  obtain ⟨d, hd, hrest⟩ := hx c (by rw [hc, List.append_assoc])
  obtain ⟨e, he, hrest'⟩ := hf d hrest
  refine ⟨e, ?_, hrest'⟩
  rw [run_bind, hd]
  exact he

/-- What follows a reading that takes its whole text. -/
theorem Takes.bind_nil {f : α → Reading β} (hx : x.Takes t rest s a s')
    (hf : (f a).Takes [] rest s' b s'') : (x >>= f).Takes t rest s b s'' := by
  have h := Takes.bind (u := []) hx hf
  rwa [List.append_nil] at h

theorem takes_group (h : Cursor.IsBalanced body) : group.Takes (braced body) rest s body s := by
  intro c hc
  obtain ⟨d, hd, hrest⟩ := h.readBalanced? hc
  exact ⟨d, run_group_of_readBalanced? hc hd s, hrest⟩

theorem takes_argument (h : Cursor.IsBalanced body) :
    argument.Takes (braced body) rest s body s := by
  intro c hc
  obtain ⟨d, hd, hrest⟩ := h.readBalanced? hc
  refine ⟨d, ?_, hrest⟩
  have hskip : c.skipIgnorable = c := Cursor.skipIgnorable_eq_self hc (by decide) (by decide)
  have hpeek : c.peek = some '{' := by rw [Cursor.peek, hc]; rfl
  have hread : c.readArgument? = (some body, d) := by
    simp only [Cursor.readArgument?, hskip, hpeek, hd]
  simp only [argument, run_bind, skipIgnorable, move, ofCursor, hskip, position, reader, peek,
    run_pure, hpeek, if_neg (show ¬some '{' = some '}' by decide), hread]
  rfl

theorem takes_definedName {name : List Char} (h : IsWord name) :
    definedName.Takes (braced ('\\' :: name)) rest s (String.ofList name) s := by
  refine (takes_argument (Cursor.isBalanced_command h)).bind_nil ?_
  rw [readDefinedName?_command h]
  exact takes_pure

/-- The arguments of a call are the contents of its groups. -/
theorem takes_arguments {args : List (List Char)} (h : ∀ a ∈ args, Cursor.IsBalanced a) :
    (arguments (List.replicate args.length .required)).Takes (args.flatMap braced) rest s args
      s := by
  induction args with
  | nil => exact takes_pure
  | cons arg args ih =>
    refine (takes_argument (h arg (by simp))).bind (Takes.bind_nil ?_ takes_pure)
    exact ih fun a ha => h a (by simp [ha])

theorem takes_eat {c y : Char} (hy : Text.isBlank y = false) (hc : y ≠ c) :
    (eat c).Takes [] (y :: rest) s false s := by
  intro d hd
  have hskip : d.skipBlanks.rest = y :: rest :=
    (Cursor.isBefore_of_rest hd).skipBlanks_rest_eq hy
  have heat : d.skipBlanks.eat c = (false, d.skipBlanks) := by
    rw [Cursor.eat, if_neg (by simp [Cursor.peek, hskip, hc])]
  refine ⟨d.skipBlanks, ?_, hskip⟩
  simp only [eat, run_bind, move, ofCursor, heat]

theorem takes_optional?_none {y : Char} (hy : Text.isBlank y = false) (hp : y ≠ '%' ∧ y ≠ '[') :
    optional?.Takes [] (y :: rest) s none s := by
  intro d hd
  refine ⟨d, run_optional?_of_head (fun z hz => ?_) s, hd⟩
  rw [hd, List.nil_append, List.dropWhile_cons_of_neg (by simp [hy])] at hz
  cases hz
  exact hp

/-- One character in brackets. -/
theorem takes_optional?_some {y : Char} (hy : y ≠ '\\' ∧ y ≠ '[' ∧ y ≠ ']') :
    optional?.Takes ['[', y, ']'] rest s (some [y]) s := by
  intro d hd
  have hlen : Cursor.balancedLength? '[' ']' 0 (y :: ']' :: rest) = some 1 := by
    rw [balancedLength?_cons hy.1, if_neg (by simp [hy.2.1]), if_neg hy.2.2,
      balancedLength?_cons (by decide), if_neg (by decide), if_pos rfl]
    rfl
  have hskip : d.skipIgnorable = d := Cursor.skipIgnorable_eq_self hd (by decide) (by decide)
  have hread := Cursor.readBalanced?_of_balancedLength? hd hlen
  refine ⟨d.advance 3, ?_, by rw [Cursor.advance, hd]; rfl⟩
  simp only [optional?, ofCursor, Cursor.readOptional?, hskip, hread]
  rfl

end Reading

/-! ## Definitions and calls -/

/-- The markup that defines a command. -/
def newCommandText (name : List Char) (count : Nat) (body : List Char) : List Char :=
  '\\' :: ("newcommand".toList ++
    (braced ('\\' :: name) ++ (['[', Nat.digitChar count, ']'] ++ braced body)))

/-- The markup that calls a command. -/
def callText (name : List Char) (args : List (List Char)) : List Char :=
  '\\' :: (name ++ args.flatMap braced)

/-- The scope with a definition. -/
def Scope.define (s : Scope) (d : Definition) : Scope :=
  { s with definitions := s.definitions.insert d.name d }

theorem Scope.find?_define (s : Scope) (d : Definition) :
    (s.define d).definitions.find? d.name = some d := by
  rw [define, Dictionary.find?_insert, if_pos rfl]

namespace Language

variable {l : Language} {name body rest : List Char} {s : Scope}

/-- A name that is free gets its meaning. -/
theorem takes_define {d : Definition} (h : l.isDefined s d.name = false) :
    (l.define .new d).Takes [] rest s () (s.define d) := by
  intro c hc
  refine ⟨c, ?_, hc⟩
  simp only [define, Reading.run_bind, Reading.reader, h]
  rfl

/-- A definition of a name that is free. -/
theorem takes_newCommand (hname : IsWord name)
    (hfree : l.isDefined s (String.ofList name) = false) {count : Nat} (hcount : count ≤ 9)
    (hbody : Cursor.IsBalanced body) :
    (l.newCommand .new).Takes
      (braced ('\\' :: name) ++ (['[', Nat.digitChar count, ']'] ++ braced body)) rest s ()
      (s.define (.withArguments (String.ofList name) count body)) := by
  have hbrace : Text.isBlank '{' = false := by decide
  refine Reading.Takes.bind (t := []) (Reading.takes_eat hbrace (by decide)) ?_
  refine (Reading.takes_definedName hname).bind ?_
  refine (Reading.takes_optional?_some (digitChar_ne count hcount)).bind ?_
  simp only [readCount?_digitChar count hcount]
  refine Reading.Takes.bind (t := []) Reading.takes_pure ?_
  refine Reading.Takes.bind (t := []) (Reading.takes_optional?_none hbrace (by decide)) ?_
  exact (Reading.takes_group hbody).bind_nil (takes_define hfree)

end Language

namespace ParseState

variable {l : Language} {s : ParseState} {name body rest : List Char} {args : List (List Char)}

/-- The token of a command with a name of letters does what the command asks for. -/
theorem exists_step_command {c : Command} (hs : s.reader.cursor.IsBefore ('\\' :: (name ++ rest)))
    (hname : IsWord name)
    (hrest : ∀ x ∈ rest.head?, x.isAlpha = false ∧ Text.isBlank x = false)
    (hc : ∀ pos, l.resolve s.reader.scope (String.ofList name) pos = .ok c) :
    ∃ (pos : Nat) (d : Cursor), d.rest = rest ∧ s.step l = some (
      match (c.start l).run { cursor := d, scope := s.reader.scope } with
      | (.error e, _) => .error ⟨e, s.nest⟩
      | (.ok directive, r) => do
        return { reader := r, nest := ← s.nest.perform c pos r.position directive }) := by
  have hskip : s.reader.cursor.skipBlanks.rest = '\\' :: (name ++ rest) :=
    hs.skipBlanks_rest_eq (by decide)
  have hblank : rest.dropWhile Text.isBlank = rest := by
    cases rest with
    | nil => rfl
    | cons x xs => exact List.dropWhile_cons_of_neg (by simp [(hrest x rfl).2])
  obtain ⟨p, hadvance⟩ : ∃ p, s.reader.cursor.skipBlanks.advance 1 =
      { rest := name ++ rest, position := p } := by
    simp only [Cursor.advance, hskip, List.drop_succ_cons, List.drop_zero]
    exact ⟨_, rfl⟩
  obtain ⟨q, hq⟩ := Cursor.readName?_letters hname.ne_nil hname.isAlpha
    (fun x hx => (hrest x hx).1) p
  rw [hblank] at hq
  refine ⟨s.reader.cursor.skipBlanks.position, { rest, position := q }, rfl, ?_⟩
  simp only [step, Cursor.peek, hskip, List.head?_cons, Option.map_some, hadvance,
    Language.readMove_backslash, Language.readCommand, Reading.run_bind, Reading.commandName?,
    Reading.ofCursor, hq, Reading.reader, hc]
  rcases (c.start l).run { cursor := { rest, position := q }, scope := s.reader.scope } with
    ⟨e | directive, r⟩ <;> rfl

/-- The token of a definition sets its name up and leaves the nest as it is. -/
theorem exists_step_newCommand {package : Option String}
    (hlookup : l.registry.lookup? "newcommand" s.reader.scope.packages =
      some (package, .builtin (.newCommand .new)))
    (hdefinitions : s.reader.scope.definitions = {})
    (hname : IsWord name)
    (hfree : l.isDefined s.reader.scope (String.ofList name) = false)
    {count : Nat} (hcount : count ≤ 9) (hbody : Cursor.IsBalanced body)
    (hs : s.reader.cursor.IsBefore (newCommandText name count body ++ rest)) :
    ∃ d : Cursor, d.rest = rest ∧ s.step l = some (.ok {
      reader := { cursor := d, scope :=
        s.reader.scope.define (.withArguments (String.ofList name) count body) }
      nest := s.nest }) := by
  have hresolve (pos : Nat) : l.resolve s.reader.scope (String.ofList "newcommand".toList) pos =
      .ok { package, name := "\\newcommand", state := .fresh (.newCommand .new) } := by
    have hfind : s.reader.scope.definitions.find? "newcommand" = none := by
      rw [hdefinitions]
      rfl
    rw [String.ofList_toList, Language.resolve, hfind]
    simp only [Registry.resolve, hlookup]
    rfl
  rw [newCommandText, List.cons_append, List.append_assoc] at hs
  obtain ⟨pos, c, hc, hstep⟩ := exists_step_command hs
    ⟨by decide, List.all_eq_true.mp (by decide)⟩ (by rintro x ⟨⟩; decide) hresolve
  obtain ⟨d, hd, hrest⟩ :=
    Language.takes_newCommand (l := l) hname hfree hcount hbody c hc
  refine ⟨d, hrest, ?_⟩
  simp only [hstep, Command.start, Reading.inCommand, CommandState.start, Builtin.start,
    Reading.run_bind, hd]
  rfl

/-- The token of a call does with the answer to its text what a defined command asks for. -/
theorem exists_step_call {d : Definition}
    (hfind : s.reader.scope.definitions.find? (String.ofList name) = some d)
    (hparameters : d.parameters = List.replicate args.length .required)
    (hname : IsWord name) (hargs : ∀ arg ∈ args, Cursor.IsBalanced arg)
    (hs : s.reader.cursor.IsBefore (callText name args)) :
    ∃ (c : Command) (pos : Nat) (r : Reader), c.state = .defined d ∧ r.cursor.rest = [] ∧
      s.step l = some (
        match l.answer? s.reader.scope (d.expand args) with
        | none => .error ⟨(ParseError.fault r.position .nestedTooDeeply).inCommand c.name, s.nest⟩
        | some (.error e) => .error ⟨e.inCommand c.name, s.nest⟩
        | some (.ok a) => do
          return { reader := r,
                   nest := ← s.nest.perform c pos r.position (c.state.withPiece a) }) := by
  have hresolve (pos : Nat) : l.resolve s.reader.scope (String.ofList name) pos =
      .ok { name := "\\" ++ String.ofList name, state := .defined d } := by
    rw [Language.resolve, hfind]
  have hhead : ∀ x ∈ (args.flatMap braced).head?, x.isAlpha = false ∧ Text.isBlank x = false := by
    cases args with
    | nil => rintro x ⟨⟩
    | cons arg args =>
      rintro x ⟨⟩
      decide
  obtain ⟨pos, c, hc, hstep⟩ := exists_step_command hs hname hhead hresolve
  have hpiece : (CommandState.defined d).piece?.Takes (args.flatMap braced) [] s.reader.scope
      (some (d.expand args)) s.reader.scope := by
    refine Reading.Takes.bind_nil ?_ Reading.takes_pure
    rw [hparameters]
    exact Reading.takes_arguments hargs
  obtain ⟨e, he, hrest⟩ := hpiece c (by rw [hc, List.append_nil])
  refine ⟨{ name := "\\" ++ String.ofList name, state := .defined d }, pos,
    { cursor := e, scope := s.reader.scope }, rfl, hrest, ?_⟩
  simp only [hstep, Command.start, Reading.inCommand, CommandState.run_start_of_piece? he]
  rcases l.answer? s.reader.scope (d.expand args) with _ | e | a <;> rfl

end ParseState

/-! ## Calls and groups -/

/-- What a call adds to its row, where its text comes to an atom: a row of one atom is that atom,
and an empty row is nothing. Lines are one atom as they are. -/
def Atom.spliced (g : Atom) : List Atom :=
  match g.unwrapped with
  | .row [] => []
  | a => [a]

/-- A call with nothing before it has in its row what its text comes to. -/
theorem Nest.perform_withPiece {c : Command} {d : Definition} (hc : c.state = .defined d)
    (pos here : Nat) (g : Atom) :
    Nest.start.perform c pos here (c.state.withPiece g.unwrapped) =
      .ok [.group g.spliced [] 0 true] := by
  rw [hc, Atom.spliced]
  generalize g.unwrapped = a
  cases a with
  | row atoms => cases atoms <;> rfl
  | _ => rfl

namespace ParseState

variable {l : Language} {s : ParseState} {name text body : List Char} {args : List (List Char)}
  {a b g : Atom}

/-- Markup that ends with a call comes to an atom where its text does, with that in the row. -/
theorem outcome_call_eq_ok_iff {d : Definition}
    (hfind : s.reader.scope.definitions.find? (String.ofList name) = some d)
    (hparameters : d.parameters = List.replicate args.length .required)
    (hname : IsWord name) (hargs : ∀ arg ∈ args, Cursor.IsBalanced arg) (hn : s.nest = .start)
    (hs : s.reader.cursor.IsBefore (callText name args)) {o : Except Failure Atom}
    (ho : l.answer? s.reader.scope (d.expand args) = some (pieceAnswer o)) :
    outcome l s = .ok a ↔ ∃ g, o = .ok g ∧ a = .row g.spliced := by
  obtain ⟨c, pos, r, hc, hr, hstep⟩ :=
    exists_step_call (l := l) hfind hparameters hname hargs hs
  rw [ho] at hstep
  cases o with
  | error f =>
    rw [outcome_of_step_error hstep]
    exact ⟨nofun, fun ⟨g, hg, _⟩ => nomatch hg⟩
  | ok g =>
    simp only [pieceAnswer, hn, Nest.perform_withPiece hc] at hstep
    have houtcome : outcome l s = .ok (.row g.spliced) := by
      rw [outcome_of_step hstep, outcome_of_isBefore_nil (Cursor.isBefore_of_rest hr)]
      exact Canonical.finish_of_closesTo (fun _ => rfl) _
    rw [houtcome]
    refine ⟨fun h => ⟨g, rfl, (Except.ok.inj h).symm⟩, ?_⟩
    rintro ⟨g, ⟨⟩, rfl⟩
    rfl

/-- Markup that ends with a group has the atom of its text in the row. -/
theorem eq_of_outcome_braced (hn : s.nest = .start)
    (hs : s.reader.cursor.IsBefore (braced text)) (h : outcome l s = .ok b)
    (hg : parse l s.reader.scope text = .ok g) : b = .row [g] := by
  have hskip : s.reader.cursor.skipBlanks.rest = '{' :: (text ++ ['}']) :=
    hs.skipBlanks_rest_eq (by decide)
  have hstep : s.step l = some (.ok {
      reader := { s.reader with cursor := s.reader.cursor.skipBlanks.advance 1 }
      nest := Nest.start.openGroup s.reader.cursor.skipBlanks.position }) := by
    rw [step, Cursor.peek, hskip, hn]
    rfl
  rw [outcome_of_step hstep] at h
  have hwithin : Within .start (start text s.reader.scope) {
      reader := { s.reader with cursor := s.reader.cursor.skipBlanks.advance 1 }
      nest := Nest.start.openGroup s.reader.cursor.skipBlanks.position } :=
    ⟨by rw [Cursor.advance, hskip]; rfl, rfl, .base⟩
  obtain ⟨pos, here, n, hdeliver, hfinish⟩ := hwithin.outcome hg h
  obtain rfl : [.group [g] [] 0 true] = n := Except.ok.inj hdeliver
  rw [Canonical.finish_of_closesTo fun _ => rfl] at hfinish
  exact (Except.ok.inj hfinish).symm

/-- Markup that starts with a definition goes on in a scope with the command. -/
theorem exists_outcome_newCommand {registry : Registry} {packages : List String}
    {package : Option String}
    (hlookup : registry.lookup? "newcommand" packages = some (package, .builtin (.newCommand .new)))
    (hname : IsWord name)
    (hfree : registry.isDefined (String.ofList name) packages = false)
    (hbody : Cursor.IsBalanced body) {count : Nat} (hcount : count ≤ 9) (rest : List Char) :
    ∃ c : Cursor, c.rest = rest ∧
      parse registry.language { packages } (newCommandText name count body ++ rest) =
        outcome registry.language { reader :=
          ⟨c, Scope.define { packages } (.withArguments (String.ofList name) count body)⟩ } := by
  let s := start (newCommandText name count body ++ rest) { packages }
  have hregistry : registry.language.registry = registry :=
    Language.registry_nested registry maxDepth
  have hfree' : registry.language.isDefined s.reader.scope (String.ofList name) = false := by
    rw [Language.isDefined, hregistry]
    exact hfree
  obtain ⟨c, hc, hstep⟩ := exists_step_newCommand (s := s) (hregistry ▸ hlookup) rfl hname
    hfree' hcount hbody (Cursor.isBefore_of_rest rfl)
  exact ⟨c, hc, outcome_of_step hstep⟩

end ParseState

end Typeset
