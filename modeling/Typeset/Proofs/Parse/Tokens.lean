import Typeset.Proofs.Cursor.Before
import Typeset.Proofs.Parse.Course

/-!
# Reading tokens

What single tokens of the builtin language ask for, when the text around them is known. Blanks in
front of a text do not count (`Cursor.IsBefore`), so that it does not matter which token takes them.

* `Language.Reads`: a token in front of a text asks for a move and leaves the text to be read;
  `Language.ReadsTo`: a token that may set up names as well.
* `Language.ReadsTo.exists_step`: the step that a state makes over a token.
* `Registry.lookup?_builtin`: a name of the language stands for its command, whatever packages are
  active.
* `ParseState.outcome`: what a parse comes to from a state on.
-/

namespace Typeset

/-! ## Names -/

theorem Dictionary.find?_of_mem {β : Type} {d : Dictionary β} {name : String} {v : β}
    (hd : d.names.Nodup) (h : (name, v) ∈ d.entries) : d.find? name = some v := by
  obtain ⟨es⟩ := d
  simp only [names, find?] at *
  induction es with
  | nil => cases h
  | cons e es ih =>
    obtain ⟨n, w⟩ := e
    simp only [List.map_cons, List.nodup_cons] at hd
    rw [lookup_cons]
    rcases List.mem_cons.mp h with he | hm
    · cases he
      exact if_pos rfl
    · have hne : name ≠ n := fun he => hd.1 (List.mem_map.mpr ⟨(name, v), hm, he⟩)
      rw [if_neg hne, ih hd.2 hm]

namespace Registry

theorem names_builtin_commands : Registry.builtin.commands.names = Builtin.table.map Prod.fst := by
  simp [builtin, Dictionary.names, Function.comp_def]

/-- The only package of the language is `braket`. -/
theorem lookupIn?_builtin_eq_none {name : String} (h : name ∉ braket.map Definition.name)
    (active : List String) : builtin.lookupIn? name active = none := by
  have hpackage (p : String) : (builtin.package p).find? name = none := by
    simp only [package, builtin, Dictionary.find?, Dictionary.lookup_cons]
    split
    · simp only [braket, List.map_cons, List.map_nil, List.mem_cons, List.not_mem_nil, or_false,
        not_or, Definition.withArguments] at h
      simp [braket, Dictionary.lookup_cons, Definition.withArguments, h]
    · rfl
  simp [lookupIn?, hpackage]

/-- A name of the language stands for its command, whatever packages are active. -/
theorem lookup?_builtin {name : String} {b : Builtin} (hb : (name, b) ∈ Builtin.table)
    (hp : name ∉ braket.map Definition.name) (active : List String) :
    builtin.lookup? name active = some (none, .builtin b) := by
  have hfind : builtin.commands.find? name = some (.builtin b) := by
    refine Dictionary.find?_of_mem ?_ (List.mem_map.mpr ⟨_, hb, rfl⟩)
    rw [names_builtin_commands]
    exact Builtin.table_names_nodup
  simp [lookup?, lookupIn?_builtin_eq_none hp, hfind]

theorem resolve_builtin {name : String} {b : Builtin} (hb : (name, b) ∈ Builtin.table)
    (hp : name ∉ braket.map Definition.name) (active : List String) (position : Nat) :
    builtin.resolve name active position =
      .ok { name := "\\" ++ name, state := .fresh b } := by
  rw [resolve, lookup?_builtin hb hp]
  rfl

/-- The language defines no environments besides the kinds of tables. -/
theorem environment?_builtin (name : String) :
    builtin.environment? name = TableKind.named? name := by
  have hnone : builtin.environments.find? name = none := rfl
  simp only [environment?, hnone, Option.orElse_eq_orElse, Option.orElse_none]

end Registry

/-! ## Tokens -/

/-- The token asks for a move, leaves the rest of the text to be read, and comes to other names. -/
def Language.ReadsTo (l : Language) (scope : Scope) (token rest : List Char) (move : Move)
    (scope' : Scope) : Prop :=
  ∃ x cs, token = x :: cs ∧ Text.isBlank x = false ∧ ∀ pos position, ∃ c : Cursor,
    (l.readMove pos x).run { cursor := { rest := cs ++ rest, position }, scope } =
      (.ok move, { cursor := c, scope := scope' }) ∧ c.IsBefore rest

/-- The token asks for a move, and leaves the rest of the text to be read. -/
def Language.Reads (l : Language) (scope : Scope) (token rest : List Char) (move : Move) : Prop :=
  ∃ x cs, token = x :: cs ∧ Text.isBlank x = false ∧ ∀ pos position, ∃ c : Cursor,
    (l.readMove pos x).run { cursor := { rest := cs ++ rest, position }, scope } =
      (.ok move, { cursor := c, scope }) ∧ c.IsBefore rest

/-- A token that leaves the names as they are. -/
theorem Language.Reads.readsTo {l : Language} {scope : Scope} {token rest : List Char}
    {move : Move} (h : l.Reads scope token rest move) : l.ReadsTo scope token rest move scope :=
  h

/-- A state before the first character of a token reads on behind it. -/
theorem ParseState.reader_advance_one {s : ParseState} {x : Char} {cs : List Char}
    (h : s.reader.cursor.skipBlanks.rest = x :: cs) :
    ({ s.reader with cursor := s.reader.cursor.skipBlanks.advance 1 } : Reader) =
      { cursor := { rest := cs, position := (s.reader.cursor.skipBlanks.advance 1).position },
        scope := s.reader.scope } := by
  simp only [Cursor.advance, h, List.drop_succ_cons, List.drop_zero]

/-- A state before a token does what the token asks for. -/
theorem Language.ReadsTo.exists_step {l : Language} {scope scope' : Scope}
    {token rest : List Char} {move : Move} {s : ParseState}
    (h : l.ReadsTo scope token rest move scope')
    (hs : s.reader.cursor.IsBefore (token ++ rest)) (hscope : s.reader.scope = scope) :
    ∃ pos here c, Cursor.IsBefore c rest ∧ s.step l = some (do
      let n ← s.nest.apply pos here move
      return { reader := { cursor := c, scope := scope' }, nest := n }) := by
  subst hscope
  obtain ⟨x, cs, rfl, hx, hrun⟩ := h
  have hrest : s.reader.cursor.skipBlanks.rest = x :: (cs ++ rest) := hs.skipBlanks_rest_eq hx
  obtain ⟨c, hc, hb⟩ := hrun s.reader.cursor.skipBlanks.position
    (s.reader.cursor.skipBlanks.advance 1).position
  refine ⟨s.reader.cursor.skipBlanks.position, c.position, c, hb, ?_⟩
  simp only [ParseState.step, Cursor.peek, hrest, List.head?_cons, Option.map_some,
    ParseState.reader_advance_one hrest, hc]
  rfl

theorem Language.Reads.exists_step {l : Language} {scope : Scope} {token rest : List Char}
    {move : Move} {s : ParseState} (h : l.Reads scope token rest move)
    (hs : s.reader.cursor.IsBefore (token ++ rest)) (hscope : s.reader.scope = scope) :
    ∃ pos here c, Cursor.IsBefore c rest ∧ s.step l = some (do
      return { reader := { cursor := c, scope }, nest := ← s.nest.apply pos here move }) :=
  h.readsTo.exists_step hs hscope

namespace Reading

variable {c : Cursor} {rest : List Char}

/-- A group in braces is read up to where they are balanced. -/
theorem run_group_of_readBalanced? {body cs : List Char} {d : Cursor} (hc : c.rest = '{' :: cs)
    (hd : c.readBalanced? '{' '}' = (some body, d)) (scope : Scope) :
    group.run { cursor := c, scope } = (.ok body, { cursor := d, scope }) := by
  have hskip : c.skipIgnorable = c := Cursor.skipIgnorable_eq_self hc (by decide) (by decide)
  have hpeek : c.peek = some '{' := by rw [Cursor.peek, hc]; rfl
  simp only [group, run_bind, skipIgnorable, move, ofCursor, hskip, position, reader, peek,
    run_pure, hpeek, if_true, hd]
  rfl

/-- A group without braces inside is read. -/
theorem run_group {body : List Char} (hc : c.rest = '{' :: (body ++ '}' :: rest))
    (h : ∀ x ∈ body, x ≠ '\\' ∧ x ≠ '{' ∧ x ≠ '}') (scope : Scope) :
    ∃ d : Cursor, group.run { cursor := c, scope } = (.ok body, { cursor := d, scope }) ∧
      d.rest = rest := by
  obtain ⟨d, hd, hrest⟩ := Cursor.readBalanced?_of_forall hc h
  exact ⟨d, run_group_of_readBalanced? hc hd scope, hrest⟩

/-- A delimiter of one character is read. -/
theorem run_delimiter {x : Char} {d : Delimiter} (hc : c.rest = x :: rest)
    (hx : Text.isBlank x = false) (hp : x ≠ '%') (hb : x ≠ '\\')
    (hd : delimiter? [x] = some d) (scope : Scope) :
    ∃ e : Cursor, delimiter.run { cursor := c, scope } = (.ok d, { cursor := e, scope }) ∧
      e.rest = rest := by
  refine ⟨c.advance 1, ?_, by rw [Cursor.advance, hc]; rfl⟩
  have hskip : c.skipIgnorable = c := Cursor.skipIgnorable_eq_self hc hx hp
  have htoken : delimiterToken?.run { cursor := c, scope } =
      (.ok (some [x]), { cursor := c.advance 1, scope }) := by
    have hpeek : c.peek = some x := by rw [Cursor.peek, hc]; rfl
    simp only [delimiterToken?, run_bind, next, ofCursor, Cursor.next, hpeek]
    rfl
  simp only [delimiter, run_bind, skipIgnorable, move, ofCursor, hskip, position, reader,
    run_pure, htoken, hd]
  rfl

theorem run_optional?_of_head
    (h : ∀ x ∈ (c.rest.dropWhile Text.isBlank).head?, x ≠ '%' ∧ x ≠ '[') (scope : Scope) :
    optional?.run { cursor := c, scope } = (.ok none, { cursor := c, scope }) := by
  simp only [optional?, ofCursor, Cursor.readOptional?_of_head h]

end Reading

/-- The characters with a meaning of their own in markup. -/
def specialChars : List Char := ['%', '{', '}', '^', '_', '\'', '&', '\\', '~', '$']

/-- The character stands for itself. -/
def isOrdinary (c : Char) : Bool := !Text.isBlank c && !specialChars.contains c

/-- The character stands for the delimiter. -/
structure IsDelimiter (x : Char) (d : Delimiter) : Prop where
  isBlank : Text.isBlank x = false
  isAlpha : x.isAlpha = false
  ne_percent : x ≠ '%'
  ne_backslash : x ≠ '\\'
  delimiter? : delimiter? [x] = some d

/-- A command of the language as it stands after its name. -/
def Command.ofBuiltin (name : String) (b : Builtin) : Command :=
  { name := "\\" ++ name, state := .fresh b }

namespace Language

variable {l : Language} {packages : List String} {rest : List Char}

/-- A character that is a token of its own. -/
theorem reads_char {scope : Scope} {x : Char} {move : Move} (hx : Text.isBlank x = false)
    (h : ∀ pos, l.readMove pos x = pure move) (rest : List Char) :
    l.Reads scope [x] rest move :=
  ⟨x, [], rfl, hx, fun pos position => ⟨_, by rw [h]; rfl, Cursor.isBefore_of_rest rfl⟩⟩

/-- A character that stands for itself. -/
theorem reads_ordinary {scope : Scope} {x : Char} (h : isOrdinary x = true) (rest : List Char) :
    l.Reads scope [x] rest (.atom (.ofChar x)) := by
  simp only [isOrdinary, Bool.and_eq_true, Bool.not_eq_true', specialChars,
    List.contains_eq_mem, decide_eq_false_iff_not] at h
  refine reads_char h.1 (fun pos => ?_) rest
  unfold readMove
  split <;> simp_all

/-- What a command reads in front of the rest of the text. -/
def Starts (l : Language) (scope : Scope) (b : Builtin) (text rest : List Char) (d : Directive) :
    Prop :=
  ∀ position, ∃ c : Cursor, (b.start l).run { cursor := { rest := text, position }, scope } =
    (.ok d, { cursor := c, scope }) ∧ c.IsBefore rest

/-- A command that reads nothing but its name. -/
theorem starts_of_eq_pure {scope : Scope} {b : Builtin} {d : Directive} (h : b.start l = pure d)
    (rest : List Char) : l.Starts scope b (rest.dropWhile Text.isBlank) rest d :=
  fun _ => ⟨_, by rw [h]; rfl, Cursor.isBefore_of_rest_eq rfl⟩

/-- The name is one of the language, and none of a package. -/
structure Knows (name : String) (b : Builtin) : Prop where
  mem : (name, b) ∈ Builtin.table
  notMem : name ∉ Registry.braket.map Definition.name

/-- The name is one of the language and has letters only. -/
structure KnowsWord (name : String) (b : Builtin) : Prop extends Knows name b where
  ne_nil : name.toList ≠ []
  isAlpha : name.toList.all Char.isAlpha = true

theorem resolve_of_knows (hl : l.registry = .builtin) {name : String} {b : Builtin}
    (h : Knows name b) (pos : Nat) : l.resolve { packages } name pos = .ok (.ofBuiltin name b) := by
  rw [resolve, hl]
  exact Registry.resolve_builtin h.mem h.notMem packages pos

/-- A command reads its name and then what it takes itself. -/
theorem run_readCommand (hl : l.registry = .builtin) {name : String} {b : Builtin}
    (h : Knows name b) {c e : Cursor} {r : Reader} {d : Directive}
    (hname : c.readName? = (some name.toList, e))
    (hstart : (b.start l).run { cursor := e, scope := { packages } } = (.ok d, r)) (pos : Nat) :
    (l.readCommand pos).run { cursor := c, scope := { packages } } =
      (.ok (.command (.ofBuiltin name b) d), r) := by
  have hcommand : ((Command.ofBuiltin name b).start l).run { cursor := e, scope := { packages } } =
      (.ok d, r) := by
    simp only [Command.start, Reading.inCommand, Command.ofBuiltin, CommandState.start, hstart]
    rfl
  simp only [readCommand, Reading.run_bind, Reading.commandName?, Reading.ofCursor, hname,
    Reading.reader, String.ofList_toList, resolve_of_knows hl h, hcommand]
  rfl

/-- A command that is refused for what it takes itself. -/
theorem run_readCommand_error (hl : l.registry = .builtin) {name : String} {b : Builtin}
    (h : Knows name b) {c e : Cursor} {r : Reader} {err : ParseError}
    (hname : c.readName? = (some name.toList, e))
    (hstart : (b.start l).run { cursor := e, scope := { packages } } = (.error err, r))
    (pos : Nat) : (l.readCommand pos).run { cursor := c, scope := { packages } } =
      (.error (err.inCommand ("\\" ++ name)), r) := by
  have hcommand : ((Command.ofBuiltin name b).start l).run { cursor := e, scope := { packages } } =
      (.error (err.inCommand ("\\" ++ name)), r) := by
    simp only [Command.start, Reading.inCommand, Command.ofBuiltin, CommandState.start, hstart]
    rfl
  simp only [readCommand, Reading.run_bind, Reading.commandName?, Reading.ofCursor, hname,
    Reading.reader, String.ofList_toList, resolve_of_knows hl h, hcommand]

/-- A command with a name of letters. -/
theorem reads_command (hl : l.registry = .builtin) {name : String} {b : Builtin}
    (h : KnowsWord name b) (text rest : List Char)
    (htext : ∀ c ∈ (text ++ rest).head?, c.isAlpha = false) {d : Directive}
    (hstart : l.Starts { packages } b ((text ++ rest).dropWhile Text.isBlank) rest d) :
    l.Reads { packages } ('\\' :: (name.toList ++ text)) rest (.command (.ofBuiltin name b) d) := by
  refine ⟨'\\', _, rfl, by decide, fun pos position => ?_⟩
  obtain ⟨q, hq⟩ :=
    Cursor.readName?_letters h.ne_nil (List.all_eq_true.mp h.isAlpha) htext position
  obtain ⟨c, hc, hb⟩ := hstart q
  refine ⟨c, ?_, hb⟩
  rw [List.append_assoc]
  exact run_readCommand hl h.toKnows hq hc pos

/-- A command with a name of letters and nothing else. -/
theorem reads_word (hl : l.registry = .builtin) {name : String} {b : Builtin}
    (h : KnowsWord name b) {d : Directive} (hb : b.start l = pure d)
    (hrest : ∀ c ∈ rest.head?, c.isAlpha = false) :
    l.Reads { packages } ('\\' :: name.toList) rest (.command (.ofBuiltin name b) d) := by
  have hstart : l.Starts { packages } b (([] ++ rest).dropWhile Text.isBlank) rest d :=
    starts_of_eq_pure hb rest
  have hreads := reads_command hl h [] rest hrest hstart
  rwa [List.append_nil] at hreads

/-! ## Fences, environments and rows -/

/-- A command with a delimiter after it, with blanks between them. -/
theorem reads_delimiter (hl : l.registry = .builtin) {name : String} {b : Builtin}
    (h : KnowsWord name b)
    {f : Delimiter → Directive} (hb : b.start l = do return f (← Reading.delimiter)) {x : Char}
    {d : Delimiter} (hx : IsDelimiter x d) (gap : Nat) (rest : List Char) :
    l.Reads { packages } ('\\' :: (name.toList ++ (List.replicate gap ' ' ++ [x]))) rest
      (.command (.ofBuiltin name b) (f d)) := by
  refine reads_command hl h _ rest ?_ fun position => ?_
  · intro c hc
    cases gap with
    | zero =>
      cases hc
      exact hx.isAlpha
    | succ n =>
      cases hc
      decide
  · have htext : (List.replicate gap ' ' ++ [x] ++ rest).dropWhile Text.isBlank = x :: rest := by
      rw [List.append_assoc, Cursor.dropWhile_replicate_blank]
      exact List.dropWhile_cons_of_neg (by simp [hx.isBlank])
    obtain ⟨e, he, hrest⟩ := Reading.run_delimiter (c := { rest := x :: rest, position }) rfl
      hx.isBlank hx.ne_percent hx.ne_backslash hx.delimiter? { packages }
    refine ⟨e, ?_, Cursor.isBefore_of_rest hrest⟩
    rw [htext, hb, Reading.run_bind, he]
    rfl

/-- A command with a group after it that is read as it stands. -/
theorem reads_group (hl : l.registry = .builtin) {name : String} {b : Builtin}
    (h : KnowsWord name b)
    {f : List Char → Reading Directive} (hb : b.start l = Reading.group >>= f) {body : List Char}
    (hbody : ∀ x ∈ body, x ≠ '\\' ∧ x ≠ '{' ∧ x ≠ '}') {d : Directive}
    (hf : ∀ r : Reader, r.scope = { packages } → (f body).run r = (.ok d, r))
    (rest : List Char) :
    l.Reads { packages } ('\\' :: (name.toList ++ ('{' :: (body ++ ['}'])))) rest
      (.command (.ofBuiltin name b) d) := by
  refine reads_command hl h _ rest (by rintro _ ⟨⟩; decide) fun position => ?_
  obtain ⟨e, he, hrest⟩ := Reading.run_group
    (c := { rest := '{' :: (body ++ '}' :: rest), position }) rfl hbody { packages }
  refine ⟨e, ?_, Cursor.isBefore_of_rest hrest⟩
  have htext : ('{' :: (body ++ ['}']) ++ rest).dropWhile Text.isBlank =
      '{' :: (body ++ '}' :: rest) := by
    simp [Text.isBlank]
  rw [htext, hb, Reading.run_bind, he]
  exact hf _ rfl

end Language

/-! ## Environments and rows -/

namespace TableKind

theorem exists_stars (cs : List Char) :
    ∃ n, cs = Text.trimEnd (· == '*') cs ++ List.replicate n '*' := by
  refine ⟨(cs.reverse.takeWhile (· == '*')).length, ?_⟩
  have hstars : cs.reverse.takeWhile (· == '*') =
      List.replicate (cs.reverse.takeWhile (· == '*')).length '*' :=
    List.eq_replicate_length.mpr fun c hc => by simpa using List.mem_takeWhile_imp hc
  have hsplit := List.takeWhile_append_dropWhile (p := (· == '*')) (l := cs.reverse)
  have := congrArg List.reverse hsplit
  rw [List.reverse_append, List.reverse_reverse] at this
  conv => lhs; rw [← this, hstars]
  simp [Text.trimEnd]

/-- The names of the environments have letters and stars. -/
theorem mem_name {name : String} {kind : TableKind} (h : named? name = some kind) :
    ∀ c ∈ name.toList, c.isAlpha = true ∨ c = '*' := by
  have hbase : (Text.trimEnd (· == '*') name.toList).all Char.isAlpha = true := by
    unfold named? at h
    split at h
    all_goals first
      | cases h; done
      | rename_i hname
        rw [← String.toList_ofList (l := Text.trimEnd (· == '*') name.toList), hname]
        decide
  obtain ⟨n, hn⟩ := exists_stars name.toList
  intro c hc
  rw [hn, List.mem_append] at hc
  exact hc.imp (List.all_eq_true.mp hbase c) List.eq_of_mem_replicate

end TableKind

/-- A letter or a star is neither blank nor a brace nor a backslash. -/
theorem plain_of_isAlpha {c : Char} (h : c.isAlpha = true ∨ c = '*') :
    Text.isBlank c = false ∧ c ≠ '\\' ∧ c ≠ '{' ∧ c ≠ '}' := by
  rcases h with h | rfl
  · have hnat : 65 ≤ c.toNat ∧ c.toNat ≤ 90 ∨ 97 ≤ c.toNat ∧ c.toNat ≤ 122 := by
      rcases (Bool.or_eq_true _ _).mp h with hupper | hlower
      · exact .inl (of_decide_eq_true hupper)
      · obtain ⟨ha, hz⟩ := (Bool.and_eq_true _ _).mp hlower
        exact .inr ⟨of_decide_eq_true ha, of_decide_eq_true hz⟩
    have hne (x : Char) (hx : 90 < x.toNat ∧ x.toNat < 97 ∨ 122 < x.toNat) : c ≠ x := by
      rintro rfl
      omega
    refine ⟨?_, hne _ (by decide), hne _ (by decide), hne _ (by decide)⟩
    simp only [Text.isBlank, Bool.or_eq_false_iff, Bool.and_eq_false_iff, decide_eq_false_iff_not,
      beq_eq_false_iff_ne]
    omega
  · decide

namespace Language

variable {l : Language} {packages : List String} {rest : List Char}

/-- An environment that takes no specification starts. -/
theorem reads_begin (hl : l.registry = .builtin) {name : String} {kind : TableKind}
    (h : TableKind.named? name = some kind) (hspec : kind.takesSpec = false) (rest : List Char) :
    l.Reads { packages } ('\\' :: ("begin".toList ++ ('{' :: (name.toList ++ ['}'])))) rest
      (.command (.ofBuiltin "begin" .openEnvironment)
        (.openEnvironment name kind (kind.format none))) := by
  have hplain c (hc : c ∈ name.toList) := plain_of_isAlpha (TableKind.mem_name h c hc)
  have hword : KnowsWord "begin" .openEnvironment :=
    ⟨⟨by simp [Builtin.table, Builtin.tables], by decide⟩, by decide, by decide⟩
  refine reads_group hl hword rfl (fun c hc => (hplain c hc).2) (fun r _ => ?_) rest
  have hkind : l.registry.environment? name = some kind := by
    rw [hl, Registry.environment?_builtin, h]
  simp only [Text.trim_of_forall fun c hc => (hplain c hc).1, String.ofList_toList, hkind, hspec]
  rfl

/-- An environment ends. -/
theorem reads_end (hl : l.registry = .builtin) {name : String} {kind : TableKind}
    (h : TableKind.named? name = some kind) (rest : List Char) :
    l.Reads { packages } ('\\' :: ("end".toList ++ ('{' :: (name.toList ++ ['}'])))) rest
      (.command (.ofBuiltin "end" .closeEnvironment) (.closeEnvironment name)) := by
  have hplain c (hc : c ∈ name.toList) := plain_of_isAlpha (TableKind.mem_name h c hc)
  have hword : KnowsWord "end" .closeEnvironment :=
    ⟨⟨by simp [Builtin.table, Builtin.tables], by decide⟩, by decide, by decide⟩
  refine reads_group hl hword rfl (fun c hc => (hplain c hc).2) (fun r _ => ?_) rest
  simp only [Text.trim_of_forall fun c hc => (hplain c hc).1, String.ofList_toList]
  rfl

/-- A fence starts. -/
theorem reads_left (hl : l.registry = .builtin) {x : Char} {d : Delimiter} (hx : IsDelimiter x d)
    (gap : Nat) (rest : List Char) :
    l.Reads { packages } ('\\' :: ("left".toList ++ (List.replicate gap ' ' ++ [x]))) rest
      (.command (.ofBuiltin "left" .left) (.consume (.fence d [] [] []))) := by
  have hword : KnowsWord "left" .left :=
    ⟨⟨by simp [Builtin.table, Builtin.boxes], by decide⟩, by decide, by decide⟩
  exact reads_delimiter hl hword rfl hx gap rest

/-- A delimiter stands inside a fence. -/
theorem reads_middle (hl : l.registry = .builtin) {x : Char} {d : Delimiter}
    (hx : IsDelimiter x d) (gap : Nat) (rest : List Char) :
    l.Reads { packages } ('\\' :: ("middle".toList ++ (List.replicate gap ' ' ++ [x]))) rest
      (.command (.ofBuiltin "middle" .middle) (.middle d)) := by
  have hword : KnowsWord "middle" .middle :=
    ⟨⟨by simp [Builtin.table, Builtin.boxes], by decide⟩, by decide, by decide⟩
  exact reads_delimiter hl hword rfl hx gap rest

/-- A fence ends. -/
theorem reads_right (hl : l.registry = .builtin) {x : Char} {d : Delimiter}
    (hx : IsDelimiter x d) (gap : Nat) (rest : List Char) :
    l.Reads { packages } ('\\' :: ("right".toList ++ (List.replicate gap ' ' ++ [x]))) rest
      (.command (.ofBuiltin "right" .right) (.right d)) := by
  have hword : KnowsWord "right" .right :=
    ⟨⟨by simp [Builtin.table, Builtin.boxes], by decide⟩, by decide, by decide⟩
  exact reads_delimiter hl hword rfl hx gap rest

/-- The rest of a group is set bold. -/
theorem reads_bold (hl : l.registry = .builtin) (h : ∀ c ∈ rest.head?, c.isAlpha = false) :
    l.Reads { packages } ('\\' :: "bf".toList) rest
      (.command (.ofBuiltin "bf" (.fontSwitch Builtin.boldChange))
        (.declare (.font Builtin.boldChange))) := by
  have hword : KnowsWord "bf" (.fontSwitch Builtin.boldChange) :=
    ⟨⟨by simp [Builtin.table, Builtin.fonts], by decide⟩, by decide, by decide⟩
  exact reads_word hl hword rfl h

/-- The row so far is set over the rest of the group. -/
theorem reads_over (hl : l.registry = .builtin) (h : ∀ c ∈ rest.head?, c.isAlpha = false) :
    l.Reads { packages } ('\\' :: "over".toList) rest
      (.command (.ofBuiltin "over" (.division true none))
        (.stealRow (.division true none [] []))) := by
  have hword : KnowsWord "over" (.division true none) :=
    ⟨⟨by simp [Builtin.table, Builtin.fractions], by decide⟩, by decide, by decide⟩
  exact reads_word hl hword rfl h

/-- A fraction waits for two arguments. -/
theorem reads_frac (hl : l.registry = .builtin) (h : ∀ c ∈ rest.head?, c.isAlpha = false) :
    l.Reads { packages } ('\\' :: "frac".toList) rest
      (.command (.ofBuiltin "frac" (.fraction true none false))
        (.takeArguments (.fraction true none false))) := by
  have hword : KnowsWord "frac" (.fraction true none false) :=
    ⟨⟨by simp [Builtin.table, Builtin.fractions], by decide⟩, by decide, by decide⟩
  exact reads_word hl hword rfl h

/-- A root waits for its argument, without a degree in front of it. -/
theorem reads_sqrt (hl : l.registry = .builtin) (h : ∀ c ∈ rest.head?, c.isAlpha = false)
    (hopt : ∀ x ∈ (rest.dropWhile Text.isBlank).head?, x ≠ '%' ∧ x ≠ '[') :
    l.Reads { packages } ('\\' :: "sqrt".toList) rest
      (.command (.ofBuiltin "sqrt" .sqrt) (.takeArguments (.sqrt none))) := by
  have hword : KnowsWord "sqrt" .sqrt :=
    ⟨⟨by simp [Builtin.table, Builtin.fractions], by decide⟩, by decide, by decide⟩
  have hstart : l.Starts { packages } .sqrt (([] ++ rest).dropWhile Text.isBlank) rest
      (.takeArguments (.sqrt none)) := by
    refine fun position => ⟨{ rest := rest.dropWhile Text.isBlank, position }, ?_,
      Cursor.isBefore_of_rest_eq rfl⟩
    have hhead : ∀ x ∈ ((rest.dropWhile Text.isBlank).dropWhile Text.isBlank).head?,
        x ≠ '%' ∧ x ≠ '[' := by
      rw [List.dropWhile_idempotent]
      exact hopt
    have hnone := Reading.run_optional?_of_head
      (c := { rest := rest.dropWhile Text.isBlank, position }) hhead { packages }
    rw [List.nil_append]
    simp only [Builtin.start, Reading.run_bind, hnone]
    rfl
  have hreads := reads_command hl hword [] rest h hstart
  rwa [List.append_nil] at hreads

/-- A row ends, without an option after the separator. -/
theorem reads_rowSeparator (hl : l.registry = .builtin)
    (h : ∀ x ∈ (rest.dropWhile Text.isBlank).head?, x ≠ '%' ∧ x ≠ '[') :
    l.Reads { packages } ['\\', '\\'] rest
      (.command (.ofBuiltin "\\" .rowSeparator) (.rowSeparator none)) := by
  refine ⟨'\\', _, rfl, by decide, fun pos position =>
    ⟨Cursor.advance { rest := ['\\'] ++ rest, position } 1, ?_, Cursor.isBefore_of_rest rfl⟩⟩
  refine run_readCommand hl ⟨by simp [Builtin.table, Builtin.tables], by decide⟩ rfl ?_ pos
  have hopt := Reading.run_optional?_of_head
    (c := Cursor.advance { rest := ['\\'] ++ rest, position } 1) h { packages }
  simp only [Builtin.start, Reading.optionalLength?, Reading.run_bind, hopt]
  rfl

end Language

/-! ## Outcomes -/

namespace ParseState

variable {l : Language} {s t : ParseState} {f : Failure}

/-- What a parse comes to from a state on. -/
def outcome (l : Language) (s : ParseState) : Except Failure Atom := do
  let t ← scan l s
  t.nest.finish t.reader.cursor.skipBlanks.position

theorem parse_eq_outcome (l : Language) (scope : Scope) (cs : List Char) :
    parse l scope cs = outcome l (start cs scope) := rfl

theorem outcome_of_step (h : s.step l = some (.ok t)) : outcome l s = outcome l t := by
  rw [outcome, outcome, scan_of_step h]

theorem outcome_of_step_error (h : s.step l = some (.error f)) : outcome l s = .error f := by
  rw [outcome, scan_of_step_eq_error h]
  rfl

theorem outcome_of_step_eq_bind {x : Except Failure Nest} {r : Reader}
    (h : s.step l = some (do return { reader := r, nest := ← x })) :
    outcome l s = x >>= fun m => outcome l ⟨r, m⟩ := by
  cases x with
  | error f => exact outcome_of_step_error h
  | ok m => exact outcome_of_step h

theorem outcome_of_isBefore_nil (h : s.reader.cursor.IsBefore []) :
    outcome l s = s.nest.finish s.reader.cursor.skipBlanks.position := by
  have hnone : s.step l = none := by
    rw [step, Cursor.peek, Cursor.skipBlanks_rest, h]
    rfl
  rw [outcome, scan_of_step_eq_none hnone]
  rfl

theorem Reached.outcome_eq (h : Reached l s t) : outcome l s = outcome l t := by
  rw [outcome, outcome, h.scan_eq]

end ParseState

end Typeset
