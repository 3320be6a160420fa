import Typeset.Proofs.Nest.Salvage
import Typeset.Proofs.Parse.Tokens

/-!
# Canonical markup

A piece of markup as a tree: what it denotes, how it is written, and that a parse of the text gives
what the tree denotes.

* `Canonical.Body`: items, and then perhaps a declaration and a further body.
* `Canonical.Body.atoms`, `Canonical.Body.text`: the atoms of a body, and its text.
* `Canonical.Runs`: reading a text brings one nest to another.
* `Canonical.Nucleus.adds`, `Canonical.Item.adds`, `Canonical.Items.adds`: their texts add their
  atoms to the row of a level.
* `Canonical.Segments.ends`: what follows a segment of a fence brings the fence to its end.
* `Canonical.Body.fills`: the text of a body brings a level without atoms to one with the atoms of
  the body, once its declarations are closed (`Canonical.ClosesTo`).
* `parse_text_body`: a parse of the text of a body gives the row of its atoms.
-/

namespace Typeset

namespace Canonical

/-- A delimiter of one character. A full stop is the empty delimiter. -/
structure DelimiterSign where
  char : Char
  mem : char ∈ ['(', ')', '[', ']', '|', '/', '.']

mutual

/-- A part that can have scripts. -/
inductive Nucleus where
  | char (c : Char) (ordinary : isOrdinary c = true)
  | group (body : Body)
  | frac (num den : Body)
  | sqrt (body : Body)
  | fence (left : DelimiterSign) (first : Body) (rest : Segments)

/-- The rest of a fence after its first segment. -/
inductive Segments where
  | right (d : DelimiterSign)
  | middle (d : DelimiterSign) (body : Body) (rest : Segments)

/-- A nucleus with up to two scripts, in the order in which they are written. -/
inductive Item where
  | plain (x : Nucleus)
  | sup (x : Nucleus) (sup : Body)
  | sub (x : Nucleus) (sub : Body)
  | supSub (x : Nucleus) (sup sub : Body)
  | subSup (x : Nucleus) (sub sup : Body)

inductive Items where
  | nil
  | cons (i : Item) (rest : Items)

/-- Items, and then perhaps a declaration for the rest. -/
inductive Body where
  | items (is : Items)
  | bold (is : Items) (rest : Body)
  | division (is : Items) (rest : Body)

end

/-! ## Denotation -/

def DelimiterSign.delimiter (d : DelimiterSign) : Delimiter :=
  if d.char = '.' then none else some d.char

/-- The delimiter at the right end of a fence. -/
def Segments.last : Segments → DelimiterSign
  | right d => d
  | middle _ _ rest => rest.last

/-- The delimiters inside a fence. -/
def Segments.middles : Segments → List Delimiter
  | right _ => []
  | middle d _ rest => d.delimiter :: rest.middles

mutual

def Nucleus.atom : Nucleus → Atom
  | .char c _ => .ofChar c
  | .group body => .row body.atoms
  | .frac num den => .fraction (.row num.atoms) (.row den.atoms) true
  | .sqrt body => .radical (.row body.atoms) none
  | .fence left first rest =>
    .fenced left.delimiter rest.last.delimiter (.row first.atoms :: rest.atoms) rest.middles

/-- The segments of a fence after the first one. -/
def Segments.atoms : Segments → List Atom
  | .right _ => []
  | .middle _ body rest => .row body.atoms :: rest.atoms

def Item.atom : Item → Atom
  | .plain x => x.atom
  | .sup x sup => .scripts x.atom (some (.row sup.atoms)) none
  | .sub x sub => .scripts x.atom none (some (.row sub.atoms))
  | .supSub x sup sub | .subSup x sub sup =>
    .scripts x.atom (some (.row sup.atoms)) (some (.row sub.atoms))

def Items.atoms : Items → List Atom
  | .nil => []
  | .cons i rest => i.atom :: rest.atoms

/-- The atoms of a body. A declaration holds the atoms after it; a fraction takes the whole body. -/
def Body.atoms : Body → List Atom
  | .items is => is.atoms
  | .bold is rest => is.atoms ++ [.switch (.font Builtin.boldChange) rest.atoms]
  | .division is rest => [.fraction (.row is.atoms) (.row rest.atoms) true]

end

/-! ## Text -/

/-- A text between braces. -/
def braced (cs : List Char) : List Char := '{' :: (cs ++ ['}'])

/-- A command with a delimiter, with a number of blanks between them. -/
def fenceToken (gap : Nat) (name : String) (d : DelimiterSign) : List Char :=
  '\\' :: (name.toList ++ (List.replicate gap ' ' ++ [d.char]))

mutual

/-- The text of a nucleus. In fences, a number of blanks stands around the delimiters. -/
def Nucleus.text (gap : Nat) : Nucleus → List Char
  | .char c _ => [c]
  | .group body => braced (body.text gap)
  | .frac num den => '\\' :: "frac".toList ++ (braced (num.text gap) ++ braced (den.text gap))
  | .sqrt body => '\\' :: "sqrt".toList ++ braced (body.text gap)
  | .fence left first rest =>
    fenceToken gap "left" left ++ (List.replicate gap ' ' ++ (first.text gap ++
      (List.replicate gap ' ' ++ rest.text gap)))

def Segments.text (gap : Nat) : Segments → List Char
  | .right d => fenceToken gap "right" d
  | .middle d body rest =>
    fenceToken gap "middle" d ++ (List.replicate gap ' ' ++ (body.text gap ++
      (List.replicate gap ' ' ++ rest.text gap)))

def Item.text (gap : Nat) : Item → List Char
  | .plain x => x.text gap
  | .sup x sup => x.text gap ++ '^' :: braced (sup.text gap)
  | .sub x sub => x.text gap ++ '_' :: braced (sub.text gap)
  | .supSub x sup sub =>
    x.text gap ++ ('^' :: braced (sup.text gap) ++ '_' :: braced (sub.text gap))
  | .subSup x sub sup =>
    x.text gap ++ ('_' :: braced (sub.text gap) ++ '^' :: braced (sup.text gap))

def Items.text (gap : Nat) : Items → List Char
  | .nil => []
  | .cons i rest => i.text gap ++ rest.text gap

def Body.text (gap : Nat) : Body → List Char
  | .items is => is.text gap
  | .bold is rest => is.text gap ++ ('\\' :: "bf".toList ++ ' ' :: rest.text gap)
  | .division is rest => is.text gap ++ ('\\' :: "over".toList ++ ' ' :: rest.text gap)

end

theorem DelimiterSign.isDelimiter (d : DelimiterSign) : IsDelimiter d.char d.delimiter := by
  obtain ⟨c, hc⟩ := d
  change IsDelimiter c (if c = '.' then none else some c)
  simp only [List.mem_cons, List.not_mem_nil, or_false] at hc
  rcases hc with rfl | rfl | rfl | rfl | rfl | rfl | rfl <;>
    exact ⟨by decide, by decide, by decide, by decide, rfl⟩

/-! ## Reading a text -/

/-- From the nest `n`, a parse reads the text in front of the rest and comes to a nest with `P`. -/
def Runs (l : Language) (scope : Scope) (text rest : List Char) (n : Nest) (P : Nest → Prop) :
    Prop :=
  ∀ s : ParseState, s.nest = n → s.reader.scope = scope → s.reader.cursor.IsBefore (text ++ rest) →
    ∃ t, ParseState.Reached l s t ∧ P t.nest ∧ t.reader.scope = scope ∧
      t.reader.cursor.IsBefore rest

variable {l : Language} {scope : Scope} {text text' rest : List Char} {n m : Nest}
  {P Q : Nest → Prop}

theorem Runs.nil (h : P n) : Runs l scope [] rest n P :=
  fun s hs hscope hc => ⟨s, .start, hs ▸ h, hscope, hc⟩

theorem Runs.mono (h : Runs l scope text rest n P) (himp : ∀ m, P m → Q m) :
    Runs l scope text rest n Q := by
  intro s hs hscope hc
  obtain ⟨t, ht, hp, htscope, htc⟩ := h s hs hscope hc
  exact ⟨t, ht, himp _ hp, htscope, htc⟩

/-- One text after another. -/
theorem Runs.append (h : Runs l scope text (text' ++ rest) n P)
    (h' : ∀ m, P m → Runs l scope text' rest m Q) : Runs l scope (text ++ text') rest n Q := by
  intro s hs hscope hc
  rw [List.append_assoc] at hc
  obtain ⟨t, ht, hp, htscope, htc⟩ := h s hs hscope hc
  obtain ⟨u, hu, hq, huscope, huc⟩ := h' t.nest hp t rfl htscope htc
  exact ⟨u, ht.trans hu, hq, huscope, huc⟩

/-- Blanks in front of a text. -/
theorem Runs.blanks (gap : Nat) (h : Runs l scope text rest n P) :
    Runs l scope (List.replicate gap ' ' ++ text) rest n P := by
  intro s hs hscope hc
  refine h s hs hscope ?_
  rw [Cursor.IsBefore, hc, List.append_assoc, Cursor.dropWhile_replicate_blank]

/-- A single token. -/
theorem Runs.token {move : Move} (h : l.Reads scope text rest move)
    (ha : ∀ pos here, ∃ m, n.apply pos here move = .ok m ∧ P m) :
    Runs l scope text rest n P := by
  intro s hs hscope hc
  obtain ⟨pos, here, c, hb, hstep⟩ := h.exists_step hc hscope
  obtain ⟨m, hm, hp⟩ := ha pos here
  rw [hs, hm] at hstep
  exact ⟨_, .token .start hstep, hp, rfl, hb⟩

/-! ## Levels of the nest -/

/-- A nest with declarations on a level comes to this level once they are closed. -/
def ClosesTo (level : Level) (n m : Nest) : Prop :=
  ∀ here, Nest.closeDeclarations here m = Nest.closeDeclarations here (level :: n)

/-- A declaration at the top of a nest is delivered when it is closed. -/
theorem closeDeclarations_of_close {c : Command} {start : Nat} {a : Atom} {level : Level}
    {row : List Atom} (hc : c.state.isClosable = true) (ha : c.state.close.1 = some a)
    (hm : a.isMarker = false) (hr : level.row? = some row) (here : Nat) :
    Nest.closeDeclarations here (.command c start :: level :: n) =
      Nest.closeDeclarations here (level.setRow (row ++ [a]) :: n) := by
  rw [Nest.closeDeclarations, if_pos hc]
  simp only [ha]
  split
  · rename_i hd
    rw [Nest.deliver_of_row? hr hm here] at hd
    cases hd
  · rename_i hd
    rw [Nest.deliver_of_row? hr hm here] at hd
    cases hd
    rfl

/-- What a text does to the row of a level: it adds atoms. -/
def Adds (l : Language) (scope : Scope) (text : List Char) (atoms : List Atom) : Prop :=
  ∀ rest level (n : Nest) row, level.row? = some row →
    Runs l scope text rest (level :: n) (· = level.setRow (row ++ atoms) :: n)

/-- What a text does to a level without atoms: it adds atoms, some of them in declarations. -/
def Fills (l : Language) (scope : Scope) (text : List Char) (atoms : List Atom) : Prop :=
  ∀ rest level n, level.row? = some [] →
    Runs l scope text rest (level :: n) (ClosesTo (level.setRow atoms) n)

/-! ## Groups and arguments -/

/-- A group becomes a row where it is delivered. -/
theorem runs_braced {atoms : List Atom} (h : Fills l scope text atoms)
    (hd : ∀ here, n.deliver here (.row atoms) = .ok m) :
    Runs l scope (braced text) rest n (· = m) := by
  have hopen : Runs l scope ['{'] (text ++ ['}'] ++ rest) n
      fun k => ∃ pos, k = .group [] [] pos false :: n :=
    .token (Language.reads_char (by decide) (fun _ => rfl) _) fun pos _ => ⟨_, rfl, pos, rfl⟩
  have hclose (pos : Nat) (k : Nest) (hk : ClosesTo (.group atoms [] pos false) n k) :
      Runs l scope ['}'] rest k (· = m) := by
    refine .token (Language.reads_char (by decide) (fun _ => rfl) _) fun pos here => ?_
    refine ⟨m, ?_, rfl⟩
    rw [Nest.apply, Nest.closeGroup, hk here, Nest.closeDeclarations_of_endsInDeclaration rfl]
    exact hd here
  refine hopen.append ?_
  rintro _ ⟨pos, rfl⟩
  exact (h _ _ n rfl).append (hclose pos)

theorem adds_char {c : Char} (h : isOrdinary c = true) :
    Adds l scope [c] [.ofChar c] := by
  intro rest level n row hr
  refine .token (Language.reads_ordinary h rest) fun _ here => ⟨_, ?_, rfl⟩
  exact Nest.deliver_of_row? hr rfl here

theorem adds_braced {atoms : List Atom} (h : Fills l scope text atoms) :
    Adds l scope (braced text) [.row atoms] := by
  intro rest level n row hr
  exact runs_braced h (Nest.deliver_of_row? hr rfl)

variable {packages : List String}

theorem adds_frac (hl : l.registry = .builtin) {num den : List Atom}
    (h : Fills l { packages } text num) (h' : Fills l { packages } text' den) :
    Adds l { packages } ('\\' :: "frac".toList ++ (braced text ++ braced text'))
      [.fraction (.row num) (.row den) true] := by
  intro rest level n row hr
  let waiting (as : List Atom) (pos : Nat) : Nest :=
    .command { Command.ofBuiltin "frac" (.fraction true none false) with
      state := .args (.fraction true none false) as } pos :: level :: n
  have hname : Runs l { packages } ('\\' :: "frac".toList) (braced text ++ braced text' ++ rest)
      (level :: n) fun k => ∃ pos, k = waiting [] pos :=
    .token (Language.reads_frac hl (by rintro _ ⟨⟩; decide)) fun pos _ => ⟨_, rfl, pos, rfl⟩
  refine hname.append ?_
  rintro _ ⟨pos, rfl⟩
  refine (runs_braced h fun _ => rfl).append ?_
  rintro _ rfl
  exact runs_braced h' fun here => Nest.deliver_of_row? hr rfl here

theorem adds_sqrt (hl : l.registry = .builtin) {atoms : List Atom}
    (h : Fills l { packages } text atoms) :
    Adds l { packages } ('\\' :: "sqrt".toList ++ braced text) [.radical (.row atoms) none] := by
  intro rest level n row hr
  have hname : Runs l { packages } ('\\' :: "sqrt".toList) (braced text ++ rest) (level :: n)
      fun k => ∃ pos, k = .command { Command.ofBuiltin "sqrt" .sqrt with
        state := .args (.sqrt none) [] } pos :: level :: n :=
    .token (Language.reads_sqrt hl (by rintro _ ⟨⟩; decide) (by rintro _ ⟨⟩; decide))
      fun pos _ => ⟨_, rfl, pos, rfl⟩
  refine hname.append ?_
  rintro _ ⟨pos, rfl⟩
  exact runs_braced h fun here => Nest.deliver_of_row? hr rfl here

/-! ## Scripts -/

/-- The character that announces a script. -/
def sign : ScriptSlot → Char
  | .sup => '^'
  | .sub => '_'

/-- An atom with one more script. -/
def fill (slot : ScriptSlot) (base : Atom) (sup sub : Option Atom) (a : Atom) : Atom :=
  match slot with
  | .sup => .scripts base (some a) sub
  | .sub => .scripts base sup (some a)

/-- The slot of a script is empty. -/
def IsFree : ScriptSlot → Option Atom → Option Atom → Prop
  | .sup, sup, _ => sup = none
  | .sub, _, sub => sub = none

/-- A script goes to the last atom. -/
theorem runs_script {slot : ScriptSlot} {a base : Atom} {sup sub : Option Atom}
    (ha : a.openScripts = (base, sup, sub)) (hfree : IsFree slot sup sub) {atoms : List Atom}
    (h : Fills l scope text atoms) {level : Level} {row : List Atom} (hr : level.row? = some row) :
    Runs l scope (sign slot :: braced text) rest (level.setRow (row ++ [a]) :: n)
      (· = level.setRow (row ++ [fill slot base sup sub (.row atoms)]) :: n) := by
  have hrow := Level.row?_setRow hr (row ++ [a])
  have htake : Nest.takeLast? (level.setRow (row ++ [a]) :: n) =
      some (a, level.setRow row :: n) := by
    simp [Nest.takeLast?, hrow, Level.setRow_setRow]
  have hsign : Runs l scope [sign slot] (braced text ++ rest) (level.setRow (row ++ [a]) :: n)
      fun k => ∃ pos, k = .command { name := slot.mark, state := .script base sup sub slot } pos ::
        level.setRow row :: n := by
    have hreads : l.Reads scope [sign slot] (braced text ++ rest) (.script slot) := by
      cases slot <;> exact Language.reads_char (by decide) (fun _ => rfl) _
    have htaken : Nest.isTaken sup sub slot = false := by
      cases slot <;> cases hfree <;> rfl
    refine .token hreads fun pos here => ⟨_, ?_, pos, rfl⟩
    simp only [Nest.apply, Nest.script, htake, ha, htaken]
    rfl
  refine hsign.append ?_
  rintro _ ⟨pos, rfl⟩
  have hbase := Level.row?_setRow hr row
  refine runs_braced h fun here => ?_
  rw [← Level.setRow_setRow level row (row ++ [_])]
  cases slot <;> cases hfree
  · exact Nest.deliver_of_row? hbase (a := .scripts base (some (.row atoms)) sub) rfl here
  · exact Nest.deliver_of_row? hbase (a := .scripts base sup (some (.row atoms))) rfl here

/-- A part with one more script. -/
theorem adds_script {slot : ScriptSlot} {a base : Atom} {sup sub : Option Atom} {atoms : List Atom}
    (h : Adds l scope text [a]) (h' : Fills l scope text' atoms)
    (ha : a.openScripts = (base, sup, sub)) (hfree : IsFree slot sup sub) :
    Adds l scope (text ++ sign slot :: braced text') [fill slot base sup sub (.row atoms)] := by
  intro rest level n row hr
  refine (h _ level n row hr).append ?_
  rintro _ rfl
  exact runs_script ha hfree h' hr

theorem adds_sup {a base : Atom} {sub : Option Atom} {atoms : List Atom}
    (h : Adds l scope text [a]) (h' : Fills l scope text' atoms)
    (ha : a.openScripts = (base, none, sub)) :
    Adds l scope (text ++ '^' :: braced text') [.scripts base (some (.row atoms)) sub] :=
  have hfree : IsFree .sup none sub := rfl
  adds_script h h' ha hfree

theorem adds_sub {a base : Atom} {sup : Option Atom} {atoms : List Atom}
    (h : Adds l scope text [a]) (h' : Fills l scope text' atoms)
    (ha : a.openScripts = (base, sup, none)) :
    Adds l scope (text ++ '_' :: braced text') [.scripts base sup (some (.row atoms))] :=
  have hfree : IsFree .sub sup none := rfl
  adds_script h h' ha hfree

/-! ## Declarations -/

theorem adds_nil : Adds l scope [] [] := by
  intro rest level n row hr
  refine .nil ?_
  rw [List.append_nil, Level.setRow_of_row? hr]

/-- Items one after another. -/
theorem Adds.append {as bs : List Atom} (h : Adds l scope text as) (h' : Adds l scope text' bs) :
    Adds l scope (text ++ text') (as ++ bs) := by
  intro rest level n row hr
  refine (h _ level n row hr).append ?_
  rintro _ rfl
  have hrest := h' rest _ n _ (Level.row?_setRow hr (row ++ as))
  rwa [Level.setRow_setRow, List.append_assoc] at hrest

theorem Adds.fills {atoms : List Atom} (h : Adds l scope text atoms) :
    Fills l scope text atoms := by
  intro rest level n hr
  refine (h rest level n [] hr).mono ?_
  rintro _ rfl here
  rfl

/-- Items, and then a declaration that takes the atoms after it. Of the atoms before it, it keeps
some in their row. -/
theorem fills_declaration {as bs kept : List Atom} {word : List Char} {c : Command}
    {state : CommandState} {d : Directive} {a : Atom} (h : Adds l scope text as)
    (hword : ∀ rest, l.Reads scope word (' ' :: rest) (.command c d))
    (happly : ∀ level (n : Nest) pos here, level.row? = some as →
      Nest.perform c pos here (level :: n) d =
        .ok (.command { c with state } pos :: level.setRow kept :: n))
    (hrow : state.currentRow? = some []) (h' : Fills l scope text' bs)
    (hclosable : (state.setCurrentRow bs).isClosable = true)
    (hclose : (state.setCurrentRow bs).close.1 = some a) (hm : a.isMarker = false) :
    Fills l scope (text ++ (word ++ ' ' :: text')) (kept ++ [a]) := by
  intro rest level n hr
  refine (h _ level n [] hr).append ?_
  rintro _ rfl
  have hitems := Level.row?_setRow hr as
  have hbegin : Runs l scope word (' ' :: text' ++ rest) (level.setRow as :: n) fun k =>
      ∃ pos, k = .command { c with state } pos :: level.setRow kept :: n :=
    .token (hword _) fun pos here => by
      refine ⟨_, happly _ n pos here hitems, pos, ?_⟩
      rw [Level.setRow_setRow]
  refine hbegin.append ?_
  rintro _ ⟨pos, rfl⟩
  have hrest := h' rest (.command { c with state } pos) (level.setRow kept :: n) hrow
  refine (hrest.blanks 1).mono fun k hk here => ?_
  rw [hk here]
  refine (closeDeclarations_of_close hclosable hclose hm (Level.row?_setRow hr kept) here).trans ?_
  rw [Level.setRow_setRow]

theorem fills_bold (hl : l.registry = .builtin) {as bs : List Atom}
    (h : Adds l { packages } text as) (h' : Fills l { packages } text' bs) :
    Fills l { packages } (text ++ ('\\' :: "bf".toList ++ ' ' :: text'))
      (as ++ [.switch (.font Builtin.boldChange) bs]) := by
  let c := Command.ofBuiltin "bf" (.fontSwitch Builtin.boldChange)
  have hbegin level (n : Nest) pos here (hr : level.row? = some as) :
      Nest.perform c pos here (level :: n) (.declare (.font Builtin.boldChange)) =
        .ok (.command { c with state := .switch (.font Builtin.boldChange) [] } pos ::
          level.setRow as :: n) := by
    rw [Level.setRow_of_row? hr]
    rfl
  exact fills_declaration h
    (fun _ => Language.reads_bold hl (by rintro _ ⟨⟩; decide)) hbegin rfl h' rfl rfl rfl

theorem fills_over (hl : l.registry = .builtin) {as bs : List Atom}
    (h : Adds l { packages } text as) (h' : Fills l { packages } text' bs) :
    Fills l { packages } (text ++ ('\\' :: "over".toList ++ ' ' :: text'))
      [.fraction (.row as) (.row bs) true] := by
  let c := Command.ofBuiltin "over" (.division true none)
  have hsteal level (n : Nest) pos here (hr : level.row? = some as) :
      Nest.perform c pos here (level :: n) (.stealRow (.division true none [] [])) =
        .ok (.command { c with state := .division true none as [] } pos ::
          level.setRow [] :: n) := by
    simp only [Nest.perform, Nest.takeRow?, hr]
    rfl
  have hfills := fills_declaration h
    (fun _ => Language.reads_over hl (by rintro _ ⟨⟩; decide)) hsteal rfl h' rfl rfl rfl
  exact hfills

/-! ## Fences -/

/-- What a text does after a segment of a fence: it adds segments, and brings the fence to its
end. -/
def Ends (l : Language) (scope : Scope) (text : List Char) (right : Delimiter)
    (segments : List Atom) (middles : List Delimiter) : Prop :=
  ∀ rest level (n k : Nest) row (c : Command) start left before marks current,
    level.row? = some row →
    ClosesTo (.command { c with state := .fence left before marks current } start) (level :: n) k →
    Runs l scope text rest k (· = level.setRow (row ++ [.fenced left right
      (before ++ .row current :: segments) (marks ++ middles)]) :: n)

theorem ends_right (hl : l.registry = .builtin) (gap : Nat) (d : DelimiterSign) :
    Ends l { packages } (fenceToken gap "right" d) d.delimiter [] [] := by
  intro rest level n k row c start left before marks current hr hk
  refine .token (Language.reads_right hl d.isDelimiter gap rest) fun pos here => ⟨_, ?_, rfl⟩
  rw [Nest.apply, Nest.perform, Nest.fenceDelimiter, hk here,
    Nest.closeDeclarations_of_endsInDeclaration rfl, List.append_nil]
  exact Nest.deliver_of_row? hr rfl here

theorem ends_middle (hl : l.registry = .builtin) (gap : Nat) (d : DelimiterSign)
    {atoms segments : List Atom} {right : Delimiter} {middles : List Delimiter}
    (h : Fills l { packages } text atoms)
    (h' : Ends l { packages } text' right segments middles) :
    Ends l { packages } (fenceToken gap "middle" d ++ (List.replicate gap ' ' ++ (text ++
        (List.replicate gap ' ' ++ text')))) right (.row atoms :: segments)
      (d.delimiter :: middles) := by
  intro rest level n k row c start left before marks current hr hk
  have hmiddle (rest : List Char) : Runs l { packages } (fenceToken gap "middle" d) rest k
      (· = .command { c with
        state := .fence left (before ++ [.row current]) (marks ++ [d.delimiter]) [] } start ::
          level :: n) := by
    refine .token (Language.reads_middle hl d.isDelimiter gap rest) fun pos here => ⟨_, ?_, rfl⟩
    rw [Nest.apply, Nest.perform, Nest.fenceDelimiter, hk here,
      Nest.closeDeclarations_of_endsInDeclaration rfl]
    rfl
  refine (hmiddle _).append ?_
  rintro _ rfl
  refine .blanks gap ((h _ _ (level :: n) rfl).append fun m hm => .blanks gap ?_)
  have hend := h' rest level n m row c start left _ _ atoms hr hm
  simpa only [List.append_assoc, List.cons_append, List.nil_append] using hend

theorem adds_fence (hl : l.registry = .builtin) (gap : Nat) (d : DelimiterSign)
    {atoms segments : List Atom} {right : Delimiter} {middles : List Delimiter}
    (h : Fills l { packages } text atoms)
    (h' : Ends l { packages } text' right segments middles) :
    Adds l { packages } (fenceToken gap "left" d ++ (List.replicate gap ' ' ++ (text ++
        (List.replicate gap ' ' ++ text'))))
      [.fenced d.delimiter right (.row atoms :: segments) middles] := by
  intro rest level n row hr
  have hleft (rest : List Char) : Runs l { packages } (fenceToken gap "left" d) rest (level :: n)
      fun k => ∃ pos, k = .command { Command.ofBuiltin "left" .left with
        state := .fence d.delimiter [] [] [] } pos :: level :: n :=
    .token (Language.reads_left hl d.isDelimiter gap rest) fun pos _ => ⟨_, rfl, pos, rfl⟩
  refine (hleft _).append ?_
  rintro _ ⟨pos, rfl⟩
  refine .blanks gap ((h _ _ (level :: n) rfl).append fun m hm => .blanks gap ?_)
  exact h' rest level n m row _ pos d.delimiter [] [] atoms hr hm

/-! ## Bodies -/

theorem Nucleus.openScripts_atom (x : Nucleus) : x.atom.openScripts = (x.atom, none, none) := by
  cases x <;> rfl

mutual

theorem Nucleus.adds (hl : l.registry = .builtin) (gap : Nat) (x : Nucleus) :
    Adds l { packages } (x.text gap) [x.atom] := by
  cases x with
  | char c h => exact adds_char h
  | group body => exact adds_braced (body.fills hl gap)
  | frac num den => exact adds_frac hl (num.fills hl gap) (den.fills hl gap)
  | sqrt body => exact adds_sqrt hl (body.fills hl gap)
  | fence left first rest => exact adds_fence hl gap left (first.fills hl gap) (rest.ends hl gap)
termination_by structural x

theorem Segments.ends (hl : l.registry = .builtin) (gap : Nat) (ss : Segments) :
    Ends l { packages } (ss.text gap) ss.last.delimiter ss.atoms ss.middles := by
  cases ss with
  | right d => exact ends_right hl gap d
  | middle d body rest => exact ends_middle hl gap d (body.fills hl gap) (rest.ends hl gap)
termination_by structural ss

theorem Item.adds (hl : l.registry = .builtin) (gap : Nat) (i : Item) :
    Adds l { packages } (i.text gap) [i.atom] := by
  cases i with
  | plain x => exact x.adds hl gap
  | sup x sup => exact adds_sup (x.adds hl gap) (sup.fills hl gap) x.openScripts_atom
  | sub x sub => exact adds_sub (x.adds hl gap) (sub.fills hl gap) x.openScripts_atom
  | supSub x sup sub =>
    have hsup := adds_sup (x.adds hl gap) (sup.fills hl gap) x.openScripts_atom
    have hboth := adds_sub hsup (sub.fills hl gap) rfl
    rwa [List.append_assoc] at hboth
  | subSup x sub sup =>
    have hsub := adds_sub (x.adds hl gap) (sub.fills hl gap) x.openScripts_atom
    have hboth := adds_sup hsub (sup.fills hl gap) rfl
    rwa [List.append_assoc] at hboth
termination_by structural i

theorem Items.adds (hl : l.registry = .builtin) (gap : Nat) (is : Items) :
    Adds l { packages } (is.text gap) is.atoms := by
  cases is with
  | nil => exact adds_nil
  | cons i rest => exact (i.adds hl gap).append (rest.adds hl gap)
termination_by structural is

theorem Body.fills (hl : l.registry = .builtin) (gap : Nat) (b : Body) :
    Fills l { packages } (b.text gap) b.atoms := by
  cases b with
  | items is => exact (is.adds hl gap).fills
  | bold is rest => exact fills_bold hl (is.adds hl gap) (rest.fills hl gap)
  | division is rest => exact fills_over hl (is.adds hl gap) (rest.fills hl gap)
termination_by structural b

end

/-- The nest at the start holds the atoms of a body at the end of its text. -/
theorem finish_of_closesTo {atoms : List Atom}
    (h : ClosesTo (.group atoms [] 0 true) [] n) (here : Nat) :
    n.finish here = .ok (.row atoms) := by
  rw [Nest.finish, h here, Nest.closeDeclarations_of_endsInDeclaration rfl]
  rfl

/-- Markup without anything before it comes to the row of its atoms. -/
theorem Fills.outcome_eq {atoms : List Atom} (h : Fills l scope text atoms) {s : ParseState}
    (hn : s.nest = .start) (hscope : s.reader.scope = scope)
    (hs : s.reader.cursor.IsBefore text) : ParseState.outcome l s = .ok (.row atoms) := by
  obtain ⟨t, ht, hclose, -, hend⟩ :=
    h [] (.group [] [] 0 true) [] rfl s hn hscope (by rwa [List.append_nil])
  rw [ht.outcome_eq, ParseState.outcome_of_isBefore_nil hend]
  exact finish_of_closesTo hclose _

end Canonical

/-- A parse of canonical markup gives what the markup denotes, whatever packages are active. -/
theorem parse_text_body (packages : List String) (gap : Nat) (b : Canonical.Body) :
    Registry.builtin.parse { packages } (String.ofList (b.text gap)) = .ok (.row b.atoms) := by
  have hfills : Canonical.Fills Registry.builtin.language { packages } (b.text gap) b.atoms :=
    b.fills rfl gap
  have hparse : ParseState.parse Registry.builtin.language { packages } (b.text gap) =
      .ok (.row b.atoms) :=
    hfills.outcome_eq (s := .start (b.text gap) { packages }) rfl rfl (Cursor.isBefore_of_rest rfl)
  rw [Registry.parse, String.toList_ofList, hparse]

end Typeset
