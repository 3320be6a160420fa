import Typeset.Proofs.Parse.Arguments

/-!
# Commands behind gaps

What the commands of the language read after their names, and what a parse makes of them.

* `Builtin.intake`: what a command reads after its name.
* `Stands`: a name stands for a command of the language, whatever the markup defined so far;
  `stands_of_mem` and `stands_of_symbol` are for the names of the two tables.
* `ParseState.Settles`: from a cursor on, a parse does what a move asks for and goes on before the
  rest, or fails.
* `Stands.exists_settles`: a command asks for what it finds after its name.
-/

namespace Typeset

open Canonical (braced)

/-! ## Commands -/

/-- What a command reads after its name. -/
inductive Intake where
  | nothing
  | delimiter
  /-- An argument in braces, as it stands. -/
  | group
  /-- A star, if one follows, and then an argument in braces. -/
  | starredGroup
  /-- Anything else. -/
  | other
  deriving DecidableEq, Repr

namespace Builtin

/-- What a command of the language reads after its name. -/
def intake : Builtin → Intake
  | symbol _ | operator .. | fraction .. | division .. | decorate _ | font _ | fontSwitch _
  | classed _ | style _ | frameBox | space _ | limits _ | hrule | vcenter => .nothing
  | left | middle | right | bigDelimiter .. => .delimiter
  | text _ | closeEnvironment => .group
  | hspace | operatorName => .starredGroup
  | _ => .other

variable {b : Builtin}

theorem ne_sqrt_of_intake (h : b.intake ≠ .other) : b ≠ .sqrt := by
  rintro rfl
  exact h rfl

theorem exists_start_of_nothing (h : b.intake = .nothing) :
    ∃ d, ∀ l, b.start l = pure d := by
  cases b <;> first | exact ⟨_, fun _ => rfl⟩ | cases h

theorem exists_start_of_delimiter (h : b.intake = .delimiter) :
    ∃ f : Delimiter → Directive, ∀ l, b.start l = do return f (← Reading.delimiter) := by
  cases b <;> first | exact ⟨_, fun _ => rfl⟩ | cases h

/-- What a command asks for that reads an argument in braces. -/
theorem exists_finds_of_group (h : b.intake = .group) : ∃ f : List Char → Directive,
    ∀ (l : Language) (scope : Scope) (t u : List Char) (o : Option (List Char)),
      Reading.group.Finds scope t u o → (b.start l).Finds scope t u (o.map f) := by
  cases b <;> first | exact ⟨_, fun _ _ _ _ _ ho => ho.map _⟩ | cases h

/-- What a command asks for that reads an argument in braces behind a star, or without one. -/
theorem exists_finds_of_starredGroup (h : b.intake = .starredGroup) :
    ∃ f : Bool → List Char → Option Directive, ∀ (l : Language) (scope : Scope)
      (t u v : List Char) (star : Bool) (o : Option (List Char)),
      (Reading.eat '*').Finds scope t u (some star) → Reading.group.Finds scope u v o →
      (b.start l).Finds scope t v (o.bind (f star)) := by
  cases b with
  | hspace =>
    refine ⟨fun _ text => (Length.read? (Text.trim text)).map fun d => .done (some (.space d)),
      fun l scope t u v star o hs ho => hs.bind ?_⟩
    have hlength := ho.length.map fun d => Directive.done (some (.space d))
    rwa [Option.map_bind] at hlength
  | operatorName =>
    refine ⟨fun star text => some (.done (some (.operator (String.ofList (plainText text)) star))),
      fun l scope t u v star o hs ho => hs.bind ?_⟩
    have hname := ho.map fun text =>
      Directive.done (some (.operator (String.ofList (plainText text)) star))
    rwa [Option.map_eq_bind] at hname
  | _ => cases h

/-- What a command asks for that finds an argument in braces, without a star in front of it. -/
theorem exists_finds_of_brace (h : b.intake = .group ∨ b.intake = .starredGroup) :
    ∃ f : List Char → Option Directive, ∀ (l : Language) (scope : Scope) (g t u : List Char)
      (o : Option (List Char)), IsGap g → Reading.group.Finds scope (g ++ '{' :: t) u o →
      (b.start l).Finds scope (g ++ '{' :: t) u (o.bind f) := by
  rcases h with h | h
  · obtain ⟨f, hf⟩ := exists_finds_of_group h
    refine ⟨fun text => some (f text), fun l scope g t u o _ ho => ?_⟩
    have hfinds := hf l scope _ u o ho
    rwa [Option.map_eq_bind] at hfinds
  · obtain ⟨f, hf⟩ := exists_finds_of_starredGroup h
    refine ⟨f false, fun l scope g t u o hg ho => hf l scope _ _ u false o ?_ ho⟩
    exact Reading.finds_eat_of_head (by decide) hg (startsToken_cons (by decide) t)
      (by rintro _ ⟨⟩; decide)

end Builtin

/-- The name stands for a command of the language while packages are active. -/
structure Stands (packages : List String) (name : List Char) (b : Builtin) : Prop where
  isName : IsName name
  exists_lookup : ∃ package p,
    Registry.builtin.lookup? (String.ofList name) packages = some (package, p) ∧ p.start = .fresh b

variable {packages : List String} {name text a : List Char} {b : Builtin}

theorem Stands.unique {b' : Builtin} (h : Stands packages name b) (h' : Stands packages name b') :
    b = b' := by
  obtain ⟨package, p, hp, hb⟩ := h.exists_lookup
  obtain ⟨package', p', hp', hb'⟩ := h'.exists_lookup
  obtain ⟨rfl, rfl⟩ := Prod.mk.inj (Option.some.inj (hp.symm.trans hp'))
  exact CommandState.fresh.inj (hb.symm.trans hb')

/-- Every command of the language has a name, and no package gives it another meaning. -/
theorem isName_of_mem_table : ∀ e ∈ Builtin.table,
    IsName e.1.toList ∧ e.1 ∉ Registry.braket.map Definition.name := by
  decide +kernel

theorem stands_of_mem {name : String} (h : (name, b) ∈ Builtin.table) (packages : List String) :
    Stands packages name.toList b := by
  obtain ⟨hname, hpackage⟩ := isName_of_mem_table _ h
  exact ⟨hname, none, .builtin b,
    by rw [String.ofList_toList, Registry.lookup?_builtin h hpackage], rfl⟩

/-- The name of a sign stands for it where it names no other command. -/
theorem stands_of_symbol {name : String} {s : Symbol} (hname : IsName name.toList)
    (h : Symbol.named? name = some s) (hcommand : Registry.builtin.commands.find? name = none)
    (hpackage : name ∉ Registry.braket.map Definition.name) (packages : List String) :
    Stands packages name.toList (.symbol s) := by
  refine ⟨hname, none, .symbol s, ?_, rfl⟩
  rw [String.ofList_toList]
  simp [Registry.lookup?, Registry.lookupIn?_builtin_eq_none hpackage, hcommand, h]

theorem stands_rowSeparator (packages : List String) :
    Stands packages "\\".toList .rowSeparator :=
  stands_of_mem (by simp [Builtin.table, Builtin.tables]) packages

theorem stands_sqrt (packages : List String) : Stands packages "sqrt".toList .sqrt :=
  stands_of_mem (by simp [Builtin.table, Builtin.fractions]) packages

theorem stands_begin (packages : List String) :
    Stands packages "begin".toList .openEnvironment :=
  stands_of_mem (by simp [Builtin.table, Builtin.tables]) packages

/-! ## Outcomes -/

namespace ParseState

variable {l : Language} {c : Cursor} {rest rest' g cs : List Char}

/-- From a cursor on, a parse makes of its nest what a move asks for and goes on before the rest.
Without a move it fails. -/
def Settles (l : Language) (packages : List String) (c : Cursor) (rest : List Char) :
    Option Move → Prop
  | some move => ∀ n, ∃ (pos here : Nat) (d : Cursor), d.IsBefore rest ∧
      outcome l ⟨⟨c, { packages }⟩, n⟩ =
        n.apply pos here move >>= fun m => outcome l ⟨⟨d, { packages }⟩, m⟩
  | none => ∀ n, ∃ f, outcome l ⟨⟨c, { packages }⟩, n⟩ = .error f

theorem settles_of_reads {token : List Char} {move : Move}
    (h : l.Reads { packages } token rest move) (hc : c.IsBefore (token ++ rest)) :
    Settles l packages c rest (some move) := by
  intro n
  obtain ⟨pos, here, d, hd, hstep⟩ := h.exists_step (s := ⟨⟨c, { packages }⟩, n⟩) hc rfl
  exact ⟨pos, here, d, hd, outcome_of_step_eq_bind hstep⟩

/-- A parse passes over a gap. -/
theorem exists_outcome_gap (l : Language) (scope : Scope) (hg : IsGap g)
    (hc : c.IsBefore (g ++ cs)) : ∃ d : Cursor, d.IsBefore cs ∧
      ∀ n, outcome l ⟨⟨c, scope⟩, n⟩ = outcome l ⟨⟨d, scope⟩, n⟩ := by
  induction hg generalizing c with
  | nil => exact ⟨c, hc, fun _ => rfl⟩
  | blank hx _ ih =>
    refine ih ?_
    rw [Cursor.IsBefore, hc, List.cons_append, List.dropWhile_cons_of_pos hx]
  | @comment text g htext _ ih =>
    have hskip : c.skipBlanks.rest = '%' :: (text ++ '\n' :: (g ++ cs)) := by
      rw [List.cons_append, List.append_assoc] at hc
      exact hc.skipBlanks_rest_eq (by decide)
    have hadvance : (c.skipBlanks.advance 1).rest = text ++ '\n' :: (g ++ cs) := by
      rw [Cursor.advance, hskip]
      rfl
    obtain ⟨d, hd, hrest⟩ := ih (c := (c.skipBlanks.advance 1).skipLine)
      (Cursor.isBefore_of_rest (Cursor.skipLine_rest htext hadvance))
    refine ⟨d, hd, fun n => ?_⟩
    rw [← hrest]
    refine outcome_of_step ?_
    simp only [step, Cursor.peek, hskip, List.head?_cons, Option.map_some]
    rfl

theorem Settles.of_gap {o : Option Move} (hg : IsGap g) (hc : c.IsBefore (g ++ cs))
    (h : ∀ d : Cursor, d.IsBefore cs → Settles l packages d rest o) :
    Settles l packages c rest o := by
  obtain ⟨d, hd, heq⟩ := exists_outcome_gap l { packages } hg hc
  have := h d hd
  cases o <;> exact fun n => by simpa only [heq n] using this n

end ParseState

namespace Stands

open ParseState (Settles outcome)

variable {l : Language} {c : Cursor} {rest rest' : List Char}

/-- The command of a name is the same wherever the name stands. -/
theorem exists_resolve (h : Stands packages name b) : ∃ command : Command,
    command.state = .fresh b ∧ ∀ l : Language, l.registry = .builtin →
      ∀ pos, l.resolve { packages } (String.ofList name) pos = .ok command := by
  obtain ⟨package, p, hlookup, hp⟩ := h.exists_lookup
  refine ⟨{ package, name := "\\" ++ String.ofList name, state := .fresh b }, rfl,
    fun l hl pos => ?_⟩
  have hfind : ({ packages } : Scope).definitions.find? (String.ofList name) = none := rfl
  rw [Language.resolve, hfind, hl]
  simp only [Registry.resolve, hlookup, hp]

/-- The step that a parse makes over a command. -/
theorem exists_outcome (h : Stands packages name b) : ∃ command : Command,
    ∀ l : Language, l.registry = .builtin → ∀ (rest : List Char) (c : Cursor),
      ((Token.command name).endsInLetters = true → ∀ x ∈ rest.head?, x.isAlpha = false) →
      c.IsBefore ('\\' :: (name ++ rest)) → ∃ (pos : Nat) (e : Cursor), e.IsBefore rest ∧
        ∀ n, outcome l ⟨⟨c, { packages }⟩, n⟩ =
          match (b.start l).run { cursor := e, scope := { packages } } with
          | (.error err, _) => .error ⟨err.inCommand command.name, n⟩
          | (.ok d, r) =>
            n.apply pos r.position (.command command d) >>= fun m => outcome l ⟨r, m⟩ := by
  obtain ⟨command, hstate, hcommand⟩ := h.exists_resolve
  refine ⟨command, fun l hl rest c hrest hc => ?_⟩
  have hskip : c.skipBlanks.rest = '\\' :: (name ++ rest) := hc.skipBlanks_rest_eq (by decide)
  have hadvance : (c.skipBlanks.advance 1).rest = name ++ rest := by
    rw [Cursor.advance, hskip]
    rfl
  obtain ⟨e, he, hb⟩ := Cursor.exists_readName? h.isName hadvance hrest
  refine ⟨c.skipBlanks.position, e, hb, fun n => ?_⟩
  have hstep : ParseState.step l ⟨⟨c, { packages }⟩, n⟩ = some (
      match (b.start l).run { cursor := e, scope := { packages } } with
      | (.error err, _) => .error ⟨err.inCommand command.name, n⟩
      | (.ok d, r) => do
        return { reader := r, nest := ←
          n.apply c.skipBlanks.position r.position (.command command d) }) := by
    simp only [ParseState.step, Cursor.peek, hskip, List.head?_cons, Option.map_some,
      Language.readMove_backslash, Language.readCommand, Reading.run_bind, Reading.commandName?,
      Reading.ofCursor, he, Reading.reader, hcommand l hl, Command.start, Reading.inCommand,
      hstate, CommandState.start]
    rcases (b.start l).run { cursor := e, scope := { packages } } with ⟨err | d, r⟩ <;> rfl
  rcases hstart : (b.start l).run { cursor := e, scope := { packages } } with ⟨err | d, r⟩ <;>
    rw [hstart] at hstep
  · exact ParseState.outcome_of_step_error hstep
  · exact ParseState.outcome_of_step_eq_bind hstep

/-- A command asks for what it finds after its name. -/
theorem exists_settles (h : Stands packages name b) : ∃ command : Command,
    ∀ l : Language, l.registry = .builtin → ∀ (tail : List Char) (us : List Token) (w : List Char),
      Writes tail .markup (.command name :: us) w →
      ∃ w', Writes tail (.behind (.command name)) us w' ∧
        ∀ (rest : List Char) (o : Option Directive) (c : Cursor),
          (b.start l).Finds { packages } w' rest o → c.IsBefore w →
          Settles l packages c rest (o.map (.command command)) := by
  obtain ⟨command, hcommand⟩ := h.exists_outcome
  refine ⟨command, fun l hl tail us w hw => ?_⟩
  obtain ⟨g, _, w', rfl, rfl, hg, -, hapart, hw'⟩ := hw.exists_of_cons
  refine ⟨w', hw', fun rest o c ho hc => Settles.of_gap hg hc fun d hd => ?_⟩
  obtain ⟨pos, e, he, houtcome⟩ := hcommand l hl w' d hapart hd
  cases o with
  | none =>
    intro n
    obtain ⟨err, r, hr⟩ := ho e he
    exact ⟨_, by rw [houtcome, hr]⟩
  | some directive =>
    intro n
    obtain ⟨e', hr, he'⟩ := ho e he
    exact ⟨pos, e'.position, e', he', by rw [houtcome, hr]; rfl⟩

/-- Only a root has a degree behind it. -/
theorem behind_eq (h : Stands packages name b) (hb : b ≠ .sqrt) :
    Place.behind (.command name) = .markup := by
  refine if_neg fun he => hb ?_
  obtain rfl := Token.command.inj he
  exact h.unique (stands_sqrt packages)

end Stands

end Typeset
