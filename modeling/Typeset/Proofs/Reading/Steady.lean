import Typeset.Markup.Parse

/-!
# Readings at other places

Where in the markup a text stands only matters to errors. Two readings match (`Reading.Matches`) if
in front of the same text, with the same names set up, the second one gives the value that the
first one gives, and leaves the same text to be read.

* `Reading.Matches.bind`: sequences of readings that match. An offset that is asked for may differ
  (`Reading.position_bind_matches`).
* `Language.matches_readMove`: every token asks for the same wherever it stands.
-/

namespace Typeset

/-! ## Cursors -/

namespace Cursor

variable {α : Type}

/-- What was read, and the text that is left. -/
def outcome (o : α × Cursor) : α × List Char := (o.1, o.2.rest)

/-- What the cursor reads and leaves depends only on the text before it. -/
def IsSteady (g : Cursor → α × Cursor) : Prop :=
  ∀ c d, c.rest = d.rest → outcome (g c) = outcome (g d)

theorem rest_advance_eq {c d : Cursor} (h : c.rest = d.rest) (n : Nat) :
    (c.advance n).rest = (d.advance n).rest := congrArg (List.drop n) h

theorem isSteady_skip (f : List Char → Nat) : IsSteady fun c => ((), c.advance (f c.rest)) := by
  intro c d h
  simp only [outcome, advance, h]

theorem isSteady_next : IsSteady next := by
  intro c d h
  simp only [outcome, next, peek, advance, h]

theorem isSteady_eat (x : Char) : IsSteady (eat x) := by
  intro c d h
  unfold eat
  rw [peek, peek, h]
  split
  · exact congrArg (Prod.mk true) (rest_advance_eq h 1)
  · exact congrArg (Prod.mk false) h

theorem isSteady_readUntil (stop : Char) : IsSteady (readUntil stop) := by
  intro c d h
  simp only [outcome, readUntil, advance, h]

theorem isSteady_readName? : IsSteady readName? := by
  intro c d h
  unfold readName?
  rw [h]
  split
  · exact congrArg (Prod.mk none) h
  · split
    · simp only [outcome, skipBlanks, advance, h]
    · exact congrArg (Prod.mk _) (rest_advance_eq h 1)

theorem isSteady_readBalanced? (opening closing : Char) :
    IsSteady (readBalanced? opening closing) := by
  intro c d h
  unfold readBalanced?
  rw [h]
  split
  · exact congrArg (Prod.mk none) h
  · split
    · split
      · exact congrArg (Prod.mk none) h
      · exact congrArg (Prod.mk _) (rest_advance_eq h _)
    · exact congrArg (Prod.mk none) h

theorem rest_skipIgnorable_eq {c d : Cursor} (h : c.rest = d.rest) :
    c.skipIgnorable.rest = d.skipIgnorable.rest := by
  simp only [skipIgnorable, advance, h]

theorem isSteady_readOptional? : IsSteady readOptional? := by
  intro c d h
  have hb := isSteady_readBalanced? '[' ']' _ _ (rest_skipIgnorable_eq h)
  unfold readOptional?
  rcases hc : c.skipIgnorable.readBalanced? '[' ']' with ⟨_ | a, c'⟩ <;>
    rcases hd : d.skipIgnorable.readBalanced? '[' ']' with ⟨_ | b, d'⟩ <;>
    rw [hc, hd] at hb
  · exact congrArg (Prod.mk none) h
  · cases hb
  · cases hb
  · exact hb

theorem isSteady_readArgument? : IsSteady readArgument? := by
  intro c d h
  have hs := rest_skipIgnorable_eq h
  have hn := isSteady_readName? _ _ (rest_advance_eq hs 1)
  unfold readArgument?
  simp only
  rw [peek, peek, hs]
  split
  · exact congrArg (Prod.mk none) hs
  · exact isSteady_readBalanced? '{' '}' _ _ hs
  · exact congrArg (Prod.map (Option.map ('\\' :: ·)) id) hn
  · exact congrArg (Prod.mk _) (rest_advance_eq hs 1)

end Cursor

/-- The readers stand before the same text, with the same names set up. -/
structure Reader.Alike (r t : Reader) : Prop where
  rest : r.cursor.rest = t.cursor.rest
  scope : r.scope = t.scope

/-! ## Readings -/

namespace Reading

variable {α β : Type} {x y : Reading α} {f g : α → Reading β}

/-- Before the same text, the second reading gives every value that the first one gives. -/
def Matches (x y : Reading α) : Prop :=
  ∀ r t, r.Alike t → ∀ a r', x.run r = (.ok a, r') →
    ∃ t', y.run t = (.ok a, t') ∧ r'.Alike t'

/-- The reading gives the same value wherever it takes place. -/
abbrev IsSteady (x : Reading α) : Prop := x.Matches x

theorem Matches.bind (hx : x.Matches y) (hf : ∀ a, (f a).Matches (g a)) :
    (x >>= f).Matches (y >>= g) := by
  intro r t h b r' he
  rw [run_bind] at he
  rcases hr : x.run r with ⟨e | a, s⟩ <;> rw [hr] at he
  · cases he
  · obtain ⟨s', hs, hss⟩ := hx r t h a s hr
    obtain ⟨t', ht, htt⟩ := hf a s s' hss b r' he
    exact ⟨t', by rw [run_bind, hs]; exact ht, htt⟩

theorem isSteady_pure (a : α) : (pure a : Reading α).IsSteady := by
  intro r t h b r' he
  cases he
  exact ⟨t, rfl, h⟩

theorem Matches.map (hx : x.Matches y) (k : α → β) : (k <$> x).Matches (k <$> y) :=
  hx.bind fun a => isSteady_pure (k a)

/-- A reading that gives no value matches everything. -/
theorem matches_fail (e : ParseError) (y : Reading α) : (fail e).Matches y := by
  rintro r t - a r' ⟨⟩

/-- The reader is asked for its text and its names. -/
theorem reader_bind_matches {f g : Reader → Reading β}
    (hf : ∀ r t, r.Alike t → (f r).Matches (g t)) : (reader >>= f).Matches (reader >>= g) :=
  fun r t h => hf r t h r t h

/-- An offset may differ. -/
theorem position_bind_matches {f g : Nat → Reading β} (hf : ∀ p q, (f p).Matches (g q)) :
    (position >>= f).Matches (position >>= g) :=
  fun r t h => hf r.position t.position r t h

theorem isSteady_peek : peek.IsSteady := by
  refine reader_bind_matches fun r t h => ?_
  rw [Cursor.peek, Cursor.peek, h.rest]
  exact isSteady_pure _

theorem isSteady_ofCursor {k : Cursor → α × Cursor} (hk : Cursor.IsSteady k)
    (hfol : ∀ c, (k c).2.Follows c) : (ofCursor k hfol).IsSteady := by
  intro r t h a r' he
  have hc := hk _ _ h.rest
  simp only [Cursor.outcome, Prod.mk.injEq] at hc
  simp only [ofCursor, Prod.mk.injEq, Except.ok.injEq] at he
  obtain ⟨rfl, rfl⟩ := he
  exact ⟨{ t with cursor := (k t.cursor).2 }, by simp only [ofCursor, hc.1], hc.2, h.scope⟩

theorem isSteady_changeScope (k : Scope → Scope) : (changeScope k).IsSteady := by
  intro r t h a r' he
  cases he
  exact ⟨_, rfl, h.rest, congrArg k h.scope⟩

theorem isSteady_failHere (c : Fault) : (failHere c : Reading α).IsSteady :=
  position_bind_matches fun _ _ => matches_fail _ _

theorem isSteady_orFail (c : Fault) (o : Option α) : (orFail c o).IsSteady := by
  cases o with
  | none => exact isSteady_failHere c
  | some a => exact isSteady_pure a

theorem orFailAt_matches (p q : Nat) (c : Fault) (o : Option α) :
    (orFailAt p c o).Matches (orFailAt q c o) := by
  cases o with
  | none => exact matches_fail _ _
  | some a => exact isSteady_pure a

theorem Matches.inCommand (hx : x.Matches y) (name : String) :
    (x.inCommand name).Matches (y.inCommand name) := by
  intro r t h a r' he
  simp only [Reading.inCommand, Prod.mk.injEq] at he
  obtain ⟨ha, rfl⟩ := he
  cases hr : (x.run r).1 with
  | error e =>
    rw [hr] at ha
    cases ha
  | ok b =>
    rw [hr] at ha
    cases ha
    obtain ⟨t', ht, htt⟩ := hx r t h a _ (Prod.ext hr rfl)
    exact ⟨t', by simp only [Reading.inCommand, ht]; rfl, htt⟩

/-! ## Services -/

theorem isSteady_skipIgnorable : skipIgnorable.IsSteady :=
  isSteady_ofCursor (Cursor.isSteady_skip Cursor.ignorableLength) Cursor.skipIgnorable_follows

theorem isSteady_eat (c : Char) : (eat c).IsSteady :=
  (isSteady_ofCursor (Cursor.isSteady_skip fun cs => (cs.takeWhile Text.isBlank).length)
    Cursor.skipBlanks_follows).bind fun _ => isSteady_ofCursor (Cursor.isSteady_eat c) _

theorem isSteady_commandName? : commandName?.IsSteady :=
  isSteady_ofCursor Cursor.isSteady_readName? _

theorem isSteady_optional? : optional?.IsSteady := isSteady_ofCursor Cursor.isSteady_readOptional? _

theorem isSteady_group : group.IsSteady := by
  refine isSteady_skipIgnorable.bind fun _ => position_bind_matches fun p q =>
    isSteady_peek.bind fun c => ?_
  split
  · exact (isSteady_ofCursor (Cursor.isSteady_readBalanced? _ _) _).bind fun _ =>
      orFailAt_matches p q _ _
  · exact matches_fail _ _

theorem isSteady_argument : argument.IsSteady := by
  refine isSteady_skipIgnorable.bind fun _ => position_bind_matches fun p q =>
    isSteady_peek.bind fun c => ?_
  split
  · exact matches_fail _ _
  · exact (isSteady_ofCursor Cursor.isSteady_readArgument? _).bind fun _ =>
      orFailAt_matches p q _ _

theorem isSteady_delimiter : delimiter.IsSteady := by
  refine isSteady_skipIgnorable.bind fun _ => position_bind_matches fun p q => ?_
  have ht : delimiterToken?.IsSteady := by
    refine (isSteady_ofCursor Cursor.isSteady_next _).bind fun c => ?_
    split
    · exact isSteady_pure _
    · exact isSteady_commandName?.bind fun _ => isSteady_pure _
    · exact isSteady_pure _
  refine ht.bind fun token => ?_
  split
  · exact matches_fail _ _
  · exact orFailAt_matches p q _ _

theorem isSteady_length : length.IsSteady :=
  position_bind_matches fun p q => isSteady_group.bind fun _ => orFailAt_matches p q _ _

theorem isSteady_optionalLength? : optionalLength?.IsSteady := by
  refine isSteady_optional?.bind fun text => ?_
  split
  · exact isSteady_pure _
  · exact (isSteady_orFail _ _).bind fun _ => isSteady_pure _

theorem isSteady_resolveColor (model : Option (List Char)) (spec : List Char) :
    (resolveColor model spec).IsSteady := by
  refine reader_bind_matches fun r t h => ?_
  rw [h.scope]
  exact isSteady_orFail _ _

theorem isSteady_color : color.IsSteady :=
  isSteady_optional?.bind fun model => isSteady_group.bind fun spec =>
    isSteady_resolveColor model spec

theorem isSteady_definedName : definedName.IsSteady :=
  isSteady_argument.bind fun _ => isSteady_orFail _ _

theorem isSteady_newColor : newColor.IsSteady :=
  isSteady_group.bind fun _ => isSteady_group.bind fun _ => isSteady_group.bind fun _ =>
    (isSteady_resolveColor _ _).bind fun _ => isSteady_changeScope _

theorem isSteady_columnRule : columnRule.IsSteady :=
  isSteady_group.bind fun _ => (isSteady_orFail _ _).bind fun _ => isSteady_pure _

theorem isSteady_rule : rule.IsSteady :=
  isSteady_optionalLength?.bind fun _ => isSteady_length.bind fun _ =>
    isSteady_length.bind fun _ => isSteady_pure _

theorem isSteady_arguments (ps : List Parameter) : (arguments ps).IsSteady := by
  induction ps with
  | nil => exact isSteady_pure _
  | cons p ps ih =>
    cases p with
    | required => exact isSteady_argument.bind fun _ => ih.bind fun _ => isSteady_pure _
    | optional => exact isSteady_optional?.bind fun _ => ih.bind fun _ => isSteady_pure _

end Reading

open Reading

namespace Language

variable (l : Language)

theorem isSteady_fragment (cs : List Char) : (l.fragment cs).IsSteady := by
  unfold fragment
  split
  · exact isSteady_failHere _
  · refine reader_bind_matches fun r t h => ?_
    rw [h.scope]
    split
    · exact isSteady_pure _
    · exact matches_fail _ _

theorem isSteady_define (mode : DefineMode) (d : Definition) : (l.define mode d).IsSteady := by
  refine reader_bind_matches fun r t h => ?_
  rw [h.scope]
  cases mode with
  | always => exact isSteady_changeScope _
  | new =>
    simp only
    split
    · exact isSteady_failHere _
    · exact isSteady_changeScope _
  | renew =>
    simp only
    split
    · exact isSteady_changeScope _
    · exact isSteady_failHere _
  | provide =>
    simp only
    split
    · exact isSteady_pure _
    · exact isSteady_changeScope _

theorem isSteady_newCommand (mode : DefineMode) : (l.newCommand mode).IsSteady := by
  refine (isSteady_eat _).bind fun _ => isSteady_definedName.bind fun name =>
    isSteady_optional?.bind fun text => ?_
  have hrest (f : Option (List Char) → List Char → Definition) : (do
      let value ← optional?
      let body ← group
      l.define mode (f value body)).IsSteady :=
    isSteady_optional?.bind fun _ => isSteady_group.bind fun _ => l.isSteady_define mode _
  split
  · exact (isSteady_pure 0).bind fun _ => hrest _
  · exact (isSteady_orFail _ _).bind fun _ => hrest _

theorem isSteady_newDefinition : l.newDefinition.IsSteady :=
  isSteady_definedName.bind fun _ =>
    (isSteady_ofCursor (Cursor.isSteady_readUntil _) _).bind fun _ =>
      (isSteady_orFail _ _).bind fun _ => isSteady_group.bind fun _ => l.isSteady_define _ _

theorem isSteady_newOperator : l.newOperator.IsSteady :=
  (isSteady_eat _).bind fun _ => isSteady_definedName.bind fun _ =>
    isSteady_group.bind fun _ => l.isSteady_define _ _

theorem isSteady_openEnvironment : l.openEnvironment.IsSteady := by
  refine isSteady_group.bind fun text => ?_
  simp only
  split
  · exact position_bind_matches fun _ _ => matches_fail _ _
  · split
    · exact (isSteady_group.map some).bind fun _ => isSteady_pure _
    · exact isSteady_pure _

theorem isSteady_expand (d : Definition) : (l.expand d).IsSteady := by
  refine (isSteady_arguments _).bind fun args => (l.isSteady_fragment _).bind fun a => ?_
  split <;> exact isSteady_pure _

end Language

variable (l : Language)

theorem Builtin.isSteady_start (b : Builtin) : (b.start l).IsSteady := by
  cases b with
  | symbol | operator | space | hrule | fraction | decorate | font | classed | frameBox | vcenter
  | division | fontSwitch | style | limits => exact isSteady_pure _
  | sqrt =>
    refine isSteady_optional?.bind fun degree => ?_
    split
    · exact isSteady_pure _
    · exact (l.isSteady_fragment _).bind fun _ => isSteady_pure _
  | text | closeEnvironment => exact isSteady_group.bind fun _ => isSteady_pure _
  | color | textColor | colorBox | cellColor | rowColor =>
    exact isSteady_color.bind fun _ => isSteady_pure _
  | frameColorBox =>
    exact isSteady_color.bind fun _ => isSteady_color.bind fun _ => isSteady_pure _
  | defineColor => exact isSteady_newColor.bind fun _ => isSteady_pure _
  | hspace => exact (isSteady_eat _).bind fun _ => isSteady_length.bind fun _ => isSteady_pure _
  | left | middle | right | bigDelimiter =>
    exact isSteady_delimiter.bind fun _ => isSteady_pure _
  | operatorName =>
    exact (isSteady_eat _).bind fun _ => isSteady_group.bind fun _ => isSteady_pure _
  | declareOperator => exact l.isSteady_newOperator.bind fun _ => isSteady_pure _
  | newCommand mode => exact (l.isSteady_newCommand mode).bind fun _ => isSteady_pure _
  | define => exact l.isSteady_newDefinition.bind fun _ => isSteady_pure _
  | openEnvironment => exact l.isSteady_openEnvironment
  | rowSeparator => exact isSteady_optionalLength?.bind fun _ => isSteady_pure _
  | columnRule => exact isSteady_columnRule.bind fun _ => isSteady_pure _
  | rule => exact isSteady_rule.bind fun _ => isSteady_pure _
  | usePackage =>
    exact isSteady_optional?.bind fun _ => isSteady_group.bind fun _ =>
      (isSteady_changeScope _).bind fun _ => isSteady_pure _

theorem Command.isSteady_start (c : Command) : (c.start l).IsSteady := by
  refine Matches.inCommand ?_ c.name
  cases c.state with
  | fresh b => exact b.isSteady_start l
  | defined d => exact l.isSteady_expand d
  | args | switch | division | fence | script => exact isSteady_pure _

/-- A name stands for the same command wherever it is read. -/
theorem Language.resolve_eq_ok {scope : Scope} {name : String} {p : Nat} {c : Command}
    (h : l.resolve scope name p = .ok c) (q : Nat) : l.resolve scope name q = .ok c := by
  unfold Language.resolve Registry.resolve at h ⊢
  split at h
  · exact h
  · split at h
    · cases h
    · exact h

/-- Every token asks for the same wherever it stands. -/
theorem Language.matches_readMove (p q : Nat) (c : Char) :
    (l.readMove p c).Matches (l.readMove q c) := by
  unfold readMove
  split
  · exact (isSteady_ofCursor (Cursor.isSteady_skip Cursor.lineLength)
      Cursor.skipLine_follows).bind fun _ => isSteady_pure _
  all_goals try exact isSteady_pure _
  refine isSteady_commandName?.bind fun name => ?_
  split
  · exact matches_fail _ _
  · rename_i name
    refine reader_bind_matches fun r t h => ?_
    rw [← h.scope]
    cases hc : l.resolve r.scope (String.ofList name) p with
    | error e => exact matches_fail _ _
    | ok c =>
      rw [l.resolve_eq_ok hc q]
      exact (Command.isSteady_start l c).bind fun _ => isSteady_pure _

end Typeset
