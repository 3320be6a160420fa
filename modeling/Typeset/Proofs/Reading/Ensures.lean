import Typeset.Proofs.Atom.Fits
import Typeset.Proofs.Nest.Held

/-!
# What readings give

A reading ensures a property of its value (`Reading.Ensures`) if every value it gives has it, from
whatever reader it starts; its errors never tell of a broken nest. The services of the commands
ensure nothing about their values.

* `Builtin.ensures_plain`: what the commands ask for that bring no signs (`Directive.IsPlain`).
* `Language.ensures_readMove_of`: what every command asks for, and a character as it stands, is all
  that a token can ask for.
* `Language.ensures_readMove`: every move that a token asks for may stand on a nest
  (`Move.Fits`), as long as the language's pieces of markup come out well
  (`Language.HasSoundFragments`).
-/

namespace Typeset

/-- The atom has no parts and is no sign. -/
def Atom.IsBare (a : Atom) : Prop := a.isSimple = true ∧ a.children = []

/-- The directive brings no more than an atom without parts. A command that goes on holds nothing,
and one that takes the row before it makes a fraction of that. -/
def Directive.IsPlain : Directive → Prop
  | done a => ∀ b ∈ a, b.IsBare
  | consume s => s.IsWaiting ∧ s.HasPlainRow ∧ s.held = []
  | stealRow s => ∃ rule delims, s = .division rule delims [] []
  | setLimits _ | openEnvironment .. | closeEnvironment _ | rowSeparator _ | middle _ | right _ =>
    True

theorem Directive.IsPlain.fits {d : Directive} (h : d.IsPlain) : d.Fits := by
  cases d with
  | done a =>
    intro b hb
    refine .of_isScripts ?_
    have hs := (h b hb).1
    cases b <;> first | rfl | cases hs
  | consume s => exact ⟨h.1, h.2.1⟩
  | stealRow s =>
    obtain ⟨rule, delims, rfl⟩ := h
    exact fun row => ⟨trivial, by
      simp [CommandState.steal, CommandState.HasPlainRow, CommandState.currentRow?]⟩
  | _ => trivial

namespace Reading

variable {α β : Type} {P : α → Prop} {Q : β → Prop} {x : Reading α} {f : α → Reading β}

/-- Every value that the reading gives has `P`, and no error tells of a broken nest. -/
def Ensures (P : α → Prop) (x : Reading α) : Prop :=
  ∀ r, match (x.run r).1 with
    | .ok a => P a
    | .error e => e.isInternal = false

theorem Ensures.bind (hx : x.Ensures P) (hf : ∀ a, P a → (f a).Ensures Q) :
    (x >>= f).Ensures Q := by
  intro r
  have h := hx r
  rw [run_bind]
  rcases he : x.run r with ⟨e | a, s⟩ <;> rw [he] at h
  · exact h
  · exact hf a h s

/-- One reading after another of whose value nothing is asked. -/
theorem Ensures.andThen (hx : x.Ensures fun _ => True) (hf : ∀ a, (f a).Ensures Q) :
    (x >>= f).Ensures Q :=
  hx.bind fun a _ => hf a

theorem Ensures.pure {a : α} (h : P a) : (Pure.pure a : Reading α).Ensures P := fun _ => h

theorem Ensures.mono (hx : x.Ensures P) {P' : α → Prop} (h : ∀ a, P a → P' a) : x.Ensures P' := by
  intro r
  have hr := hx r
  split at hr <;> simp_all

theorem Ensures.map (hx : x.Ensures P) (g : α → β) : (g <$> x).Ensures fun _ => True :=
  hx.bind fun _ _ => .pure trivial

theorem Ensures.fail {e : ParseError} (h : e.isInternal = false) :
    (Reading.fail e : Reading α).Ensures P := fun _ => h

theorem ensures_reader : reader.Ensures fun _ => True := fun _ => trivial

theorem ensures_position : position.Ensures fun _ => True := fun _ => trivial

theorem ensures_peek : peek.Ensures fun _ => True := fun _ => trivial

theorem ensures_ofCursor (g : Cursor → α × Cursor) (hg : ∀ c, (g c).2.Follows c) :
    (ofCursor g hg).Ensures fun _ => True := fun _ => trivial

theorem ensures_changeScope (g : Scope → Scope) : (changeScope g).Ensures fun _ => True :=
  fun _ => trivial

theorem ensures_failHere {c : Fault} (h : (ParseError.fault 0 c).isInternal = false) :
    (failHere c : Reading α).Ensures P :=
  ensures_position.andThen fun _ => .fail h

theorem ensures_orFail {c : Fault} (h : (ParseError.fault 0 c).isInternal = false)
    (o : Option α) : (orFail c o).Ensures fun _ => True := by
  cases o with
  | none => exact ensures_failHere h
  | some a => exact .pure trivial

theorem ensures_orFailAt {c : Fault} (h : (ParseError.fault 0 c).isInternal = false) (here : Nat)
    (o : Option α) : (orFailAt here c o).Ensures fun _ => True := by
  cases o with
  | none => exact .fail h
  | some a => exact .pure trivial

theorem Ensures.inCommand (hx : x.Ensures P) (name : String) : (x.inCommand name).Ensures P := by
  intro r
  have h := hx r
  simp only [Reading.inCommand]
  cases he : (x.run r).1 with
  | ok a => rw [he] at h; exact h
  | error e => rw [he] at h; exact (e.isInternal_inCommand name).trans h

/-! ## Services -/

theorem ensures_skipIgnorable : skipIgnorable.Ensures fun _ => True := fun _ => trivial

theorem ensures_next : next.Ensures fun _ => True := fun _ => trivial

theorem ensures_optional? : optional?.Ensures fun _ => True := fun _ => trivial

theorem ensures_commandName? : commandName?.Ensures fun _ => True := fun _ => trivial

theorem ensures_eat (c : Char) : (eat c).Ensures fun _ => True :=
  (ensures_ofCursor _ _).andThen fun _ => ensures_ofCursor _ _

theorem ensures_group : group.Ensures fun _ => True := by
  refine ensures_skipIgnorable.andThen fun _ => ensures_position.andThen fun here =>
    ensures_peek.andThen fun c => ?_
  split
  · exact (ensures_ofCursor _ _).andThen (ensures_orFailAt rfl here)
  · exact .fail rfl

theorem ensures_argument : argument.Ensures fun _ => True := by
  refine ensures_skipIgnorable.andThen fun _ => ensures_position.andThen fun here =>
    ensures_peek.andThen fun c => ?_
  split
  · exact .fail rfl
  · exact (ensures_ofCursor _ _).andThen (ensures_orFailAt rfl here)

theorem ensures_delimiter : delimiter.Ensures fun _ => True := by
  refine ensures_skipIgnorable.andThen fun _ => ensures_position.andThen fun here => ?_
  have ht : delimiterToken?.Ensures fun _ => True := by
    refine ensures_next.andThen fun c => ?_
    split
    · exact .pure trivial
    · exact ensures_commandName?.andThen fun _ => .pure trivial
    · exact .pure trivial
  refine ht.andThen fun token => ?_
  split
  · exact .fail rfl
  · exact ensures_orFailAt rfl here _

theorem ensures_length : length.Ensures fun _ => True :=
  ensures_position.andThen fun here => ensures_group.andThen fun _ => ensures_orFailAt rfl here _

theorem ensures_optionalLength? : optionalLength?.Ensures fun _ => True := by
  refine ensures_optional?.andThen fun text => ?_
  split
  · exact .pure trivial
  · exact (ensures_orFail rfl _).andThen fun _ => .pure trivial

theorem ensures_resolveColor (model : Option (List Char)) (spec : List Char) :
    (resolveColor model spec).Ensures fun _ => True :=
  ensures_reader.andThen fun _ => ensures_orFail rfl _

theorem ensures_color : color.Ensures fun _ => True :=
  ensures_optional?.andThen fun model => ensures_group.andThen fun spec =>
    ensures_resolveColor model spec

theorem ensures_definedName : definedName.Ensures fun _ => True :=
  ensures_argument.andThen fun _ => ensures_orFail rfl _

theorem ensures_newColor : newColor.Ensures fun _ => True :=
  ensures_group.andThen fun _ => ensures_group.andThen fun _ => ensures_group.andThen fun _ =>
    (ensures_resolveColor _ _).andThen fun _ => ensures_changeScope _

theorem ensures_columnRule : columnRule.Ensures Atom.IsBare :=
  ensures_group.andThen fun _ => (ensures_orFail rfl _).andThen fun _ => .pure ⟨rfl, rfl⟩

theorem ensures_rule : rule.Ensures Atom.IsBare :=
  ensures_optionalLength?.andThen fun _ => ensures_length.andThen fun _ =>
    ensures_length.andThen fun _ => .pure ⟨rfl, rfl⟩

theorem ensures_arguments (ps : List Parameter) : (arguments ps).Ensures fun _ => True := by
  induction ps with
  | nil => exact .pure trivial
  | cons p ps ih =>
    cases p with
    | required => exact ensures_argument.andThen fun _ => ih.andThen fun _ => .pure trivial
    | optional => exact ensures_optional?.andThen fun _ => ih.andThen fun _ => .pure trivial

end Reading

open Reading

namespace Language

/-- The atoms of pieces of markup have a property, and their errors tell of no broken nest. -/
def EnsuresFragments (l : Language) (P : Atom → Prop) : Prop :=
  ∀ parse ∈ l.fragment?, ∀ scope cs, match parse scope cs with
    | .ok a => P a
    | .error e => e.isInternal = false

/-- The atoms of pieces of markup have plain bases, and their errors tell of no broken nest. -/
def HasSoundFragments (l : Language) : Prop := l.EnsuresFragments Atom.HasPlainBase

variable {l : Language} {P : Atom → Prop}

theorem EnsuresFragments.mono (hl : l.EnsuresFragments P) {Q : Atom → Prop}
    (h : ∀ a, P a → Q a) : l.EnsuresFragments Q := by
  intro parse hp scope cs
  have hr := hl parse hp scope cs
  split at hr <;> simp_all

theorem EnsuresFragments.fragment (hl : l.EnsuresFragments P) (cs : List Char) :
    (l.fragment cs).Ensures P := by
  unfold Language.fragment
  split
  · exact ensures_failHere rfl
  · rename_i parse hp
    refine ensures_reader.andThen fun r => ?_
    have h := hl parse hp r.scope cs
    split
    · rename_i a ha
      rw [ha] at h
      exact .pure h
    · rename_i e he
      rw [he] at h
      exact .fail h

theorem ensures_fragment (hl : l.HasSoundFragments) (cs : List Char) :
    (l.fragment cs).Ensures Atom.HasPlainBase :=
  EnsuresFragments.fragment hl cs

theorem ensures_define (l : Language) (mode : DefineMode) (d : Definition) :
    (l.define mode d).Ensures fun _ => True := by
  refine ensures_reader.andThen fun r => ?_
  cases mode with
  | always => exact ensures_changeScope _
  | new =>
    simp only
    split
    · exact ensures_failHere rfl
    · exact ensures_changeScope _
  | renew =>
    simp only
    split
    · exact ensures_changeScope _
    · exact ensures_failHere rfl
  | provide =>
    simp only
    split
    · exact .pure trivial
    · exact ensures_changeScope _

theorem ensures_newCommand (l : Language) (mode : DefineMode) :
    (l.newCommand mode).Ensures fun _ => True := by
  refine (ensures_eat _).andThen fun _ => ensures_definedName.andThen fun name =>
    ensures_optional?.andThen fun text => ?_
  have hrest (f : Option (List Char) → List Char → Definition) : (do
      let value ← optional?
      let body ← group
      l.define mode (f value body)).Ensures fun _ => True :=
    ensures_optional?.andThen fun value => ensures_group.andThen fun body =>
      ensures_define l mode _
  split
  · exact (Ensures.pure (P := fun _ => True) trivial).andThen fun _ => hrest _
  · exact (ensures_orFail rfl _).andThen fun count => hrest _

theorem ensures_newDefinition (l : Language) : l.newDefinition.Ensures fun _ => True :=
  ensures_definedName.andThen fun _ => (ensures_ofCursor _ _).andThen fun _ =>
    (ensures_orFail rfl _).andThen fun _ => ensures_group.andThen fun _ => ensures_define l _ _

theorem ensures_newOperator (l : Language) : l.newOperator.Ensures fun _ => True :=
  (ensures_eat _).andThen fun _ => ensures_definedName.andThen fun _ =>
    ensures_group.andThen fun _ => ensures_define l _ _

theorem ensures_openEnvironment (l : Language) : l.openEnvironment.Ensures Directive.IsPlain := by
  refine ensures_group.andThen fun text => ?_
  simp only
  split
  · exact ensures_position.andThen fun _ => .fail rfl
  · split
    · exact (ensures_group.map some).andThen fun _ => .pure trivial
    · exact .pure trivial

theorem ensures_expand (hl : l.HasSoundFragments) (d : Definition) :
    (l.expand d).Ensures Directive.Fits := by
  refine (ensures_arguments _).andThen fun args => (ensures_fragment hl _).bind fun a ha => ?_
  split
  · exact .pure (by rintro _ ⟨⟩)
  · exact .pure (by rintro _ ⟨⟩; exact ha)

end Language

variable {l : Language}

/-- A command that waits for its arguments holds no more than a degree. -/
theorem Directive.fits_takeArguments (kind : ArgKind) : (takeArguments kind).Fits :=
  ⟨kind.arity_pos, by simp [CommandState.HasPlainRow, CommandState.currentRow?]⟩

theorem Directive.isPlain_takeArguments {kind : ArgKind} (h : kind.degree? = none) :
    (takeArguments kind).IsPlain :=
  ⟨kind.arity_pos, (fits_takeArguments kind).2, by simp [CommandState.held, h]⟩

theorem Directive.isPlain_declare (kind : SwitchKind) : (declare kind).IsPlain :=
  ⟨trivial, by simp [CommandState.HasPlainRow, CommandState.currentRow?], rfl⟩

/-- An atom without parts is all that the directive brings. -/
theorem Directive.isPlain_done {a : Atom} (h : a.IsBare) : (done (some a)).IsPlain := by
  rintro _ ⟨⟩
  exact h

theorem Directive.isPlain_done_none : (done none).IsPlain := by rintro _ ⟨⟩

/-- The command brings signs: a sign, or those of a degree. -/
def Builtin.bringsSigns : Builtin → Bool
  | symbol _ | sqrt => true
  | _ => false

/-- A command that brings no signs brings no more than an atom without parts. -/
theorem Builtin.ensures_plain (l : Language) {b : Builtin} (hb : b.bringsSigns = false) :
    (b.start l).Ensures Directive.IsPlain := by
  cases b with
  | symbol | sqrt => cases hb
  | operator | space | hrule => exact .pure (Directive.isPlain_done ⟨rfl, rfl⟩)
  | fraction | decorate | font | classed | frameBox | vcenter =>
    exact .pure (Directive.isPlain_takeArguments rfl)
  | division bar delims => exact .pure ⟨_, _, rfl⟩
  | fontSwitch | style => exact .pure (Directive.isPlain_declare _)
  | text c => exact ensures_group.andThen fun _ => .pure (Directive.isPlain_done ⟨rfl, rfl⟩)
  | color => exact ensures_color.andThen fun _ => .pure (Directive.isPlain_declare _)
  | textColor | colorBox =>
    exact ensures_color.andThen fun _ => .pure (Directive.isPlain_takeArguments rfl)
  | frameColorBox =>
    exact ensures_color.andThen fun _ => ensures_color.andThen fun _ =>
      .pure (Directive.isPlain_takeArguments rfl)
  | defineColor => exact ensures_newColor.andThen fun _ => .pure Directive.isPlain_done_none
  | hspace =>
    exact (ensures_eat _).andThen fun _ => ensures_length.andThen fun _ =>
      .pure (Directive.isPlain_done ⟨rfl, rfl⟩)
  | left =>
    exact ensures_delimiter.andThen fun _ =>
      .pure ⟨rfl, by simp [CommandState.HasPlainRow, CommandState.currentRow?], rfl⟩
  | middle | right => exact ensures_delimiter.andThen fun _ => .pure trivial
  | bigDelimiter =>
    exact ensures_delimiter.andThen fun _ => .pure (Directive.isPlain_done ⟨rfl, rfl⟩)
  | limits above => exact .pure trivial
  | operatorName =>
    exact (ensures_eat _).andThen fun _ => ensures_group.andThen fun _ =>
      .pure (Directive.isPlain_done ⟨rfl, rfl⟩)
  | declareOperator =>
    exact (Language.ensures_newOperator l).andThen fun _ => .pure Directive.isPlain_done_none
  | newCommand mode =>
    exact (Language.ensures_newCommand l mode).andThen fun _ => .pure Directive.isPlain_done_none
  | define =>
    exact (Language.ensures_newDefinition l).andThen fun _ => .pure Directive.isPlain_done_none
  | openEnvironment => exact Language.ensures_openEnvironment l
  | closeEnvironment => exact ensures_group.andThen fun _ => .pure trivial
  | rowSeparator => exact ensures_optionalLength?.andThen fun _ => .pure trivial
  | columnRule => exact ensures_columnRule.bind fun _ ha => .pure (Directive.isPlain_done ha)
  | cellColor | rowColor =>
    exact ensures_color.andThen fun _ => .pure (Directive.isPlain_done ⟨rfl, rfl⟩)
  | rule => exact ensures_rule.bind fun _ ha => .pure (Directive.isPlain_done ha)
  | usePackage =>
    exact ensures_optional?.andThen fun _ => ensures_group.andThen fun _ =>
      (ensures_changeScope _).andThen fun _ => .pure Directive.isPlain_done_none

theorem Builtin.ensures_start (hl : l.HasSoundFragments) (b : Builtin) :
    (b.start l).Ensures Directive.Fits := by
  cases hb : b.bringsSigns with
  | false => exact (b.ensures_plain l hb).mono fun _ => Directive.IsPlain.fits
  | true =>
    cases b with
    | symbol s => exact .pure (by rintro _ ⟨⟩; trivial)
    | sqrt =>
      refine ensures_optional?.andThen fun degree => ?_
      split
      · exact .pure (Directive.fits_takeArguments _)
      · exact (Language.ensures_fragment hl _).bind fun _ _ =>
          .pure (Directive.fits_takeArguments _)
    | _ => cases hb

/-- A command that a name leads to has not started. -/
theorem Language.state_of_resolve {s : Scope} {name : String} {position : Nat} {c : Command}
    (h : l.resolve s name position = .ok c) :
    (∃ b, c.state = .fresh b) ∨ ∃ d, c.state = .defined d := by
  unfold resolve at h
  split at h
  · cases h
    exact .inr ⟨_, rfl⟩
  · unfold Registry.resolve at h
    split at h
    · cases h
    · rename_i package p _
      cases h
      cases p with
      | symbol s => exact .inl ⟨_, rfl⟩
      | builtin b => exact .inl ⟨_, rfl⟩
      | defined d => exact .inr ⟨_, rfl⟩

/-- A token asks for what a command asks for, for a character as it stands, or for a change of the
nest that brings nothing. -/
theorem Language.ensures_readMove_of {P : Directive → Prop}
    (hb : ∀ b : Builtin, (b.start l).Ensures P)
    (hd : ∀ d : Definition, (l.expand d).Ensures P) (pos : Nat) (x : Char) :
    (l.readMove pos x).Ensures fun move =>
      (∀ a, move = .atom a → a = .space (.mu 6) ∨ a = .ofChar x) ∧
        ∀ c d, move = .command c d → P d := by
  have hcommand : (l.readCommand pos).Ensures fun move => ∃ c d, move = .command c d ∧ P d := by
    refine ensures_commandName?.andThen fun name => ?_
    split
    · exact .fail rfl
    · refine ensures_reader.andThen fun r => ?_
      split
      · rename_i e he
        refine .fail ?_
        unfold Language.resolve Registry.resolve at he
        split at he
        · cases he
        · split at he <;> cases he
          rfl
      · rename_i c hc
        have hs : (c.start l).Ensures P := by
          refine Ensures.inCommand ?_ c.name
          obtain ⟨b, hb'⟩ | ⟨d, hd'⟩ := state_of_resolve hc
          · rw [hb']
            exact hb b
          · rw [hd']
            exact hd d
        exact hs.bind fun d hd => .pure ⟨c, d, rfl, hd⟩
  unfold readMove
  split
  · exact (ensures_ofCursor _ _).andThen fun _ => .pure (by simp)
  all_goals first
    | exact .pure (by simp)
    | exact hcommand.mono (by rintro _ ⟨c, d, rfl, hd⟩; simp [hd])

/-- What a token asks for may stand on a nest. -/
theorem Language.ensures_readMove (hl : l.HasSoundFragments) (pos : Nat) (c : Char) :
    (l.readMove pos c).Ensures Move.Fits := by
  refine (l.ensures_readMove_of (·.ensures_start hl) (ensures_expand hl) pos c).mono ?_
  rintro move ⟨hatom, hcommand⟩
  cases move with
  | atom a => obtain rfl | rfl := hatom a rfl <;> trivial
  | command c d => exact hcommand c d rfl
  | _ => trivial

end Typeset
