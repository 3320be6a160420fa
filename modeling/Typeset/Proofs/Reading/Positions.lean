import Typeset.Markup.Parse

/-!
# Positions of the errors of readings

A reading that has no pieces to parse stops with an error inside the text that it reads
(`Reading.PointsInto`).

* `IsBoundary`: the offsets of a text that lie between two characters, or at its start or end.
* `Language.pointsInto_readMove`: every token of a language without pieces.
-/

namespace Typeset

/-- The offset lies between two characters of the text, or at its start or end. -/
def IsBoundary (cs : List Char) (p : Nat) : Prop :=
  ∃ before after, cs = before ++ after ∧ p = byteLength before

theorem IsBoundary.le {cs : List Char} {p : Nat} (h : IsBoundary cs p) : p ≤ byteLength cs := by
  obtain ⟨before, after, rfl, rfl⟩ := h
  rw [byteLength_append]
  exact Nat.le_add_right _ _

theorem isBoundary_zero (cs : List Char) : IsBoundary cs 0 := ⟨[], cs, rfl, rfl⟩

theorem Cursor.Follows.isBoundary {c : Cursor} {cs : List Char} (h : c.Follows (.start cs)) :
    IsBoundary cs c.position := by
  obtain ⟨before, hcs, hp⟩ := h
  exact ⟨before, c.rest, hcs, hp.trans (Nat.zero_add _)⟩

@[simp] theorem ParseError.position_fault (p : Nat) (f : Fault) :
    (fault p f).position = some p := rfl

@[simp] theorem ParseError.position_faultIn (p : Nat) (command : String) (f : Fault) :
    (faultIn p command f).position = some p := rfl

@[simp] theorem ParseError.position_inCommand (e : ParseError) (name : String) :
    (e.inCommand name).position = e.position := by
  unfold ParseError.inCommand
  split <;> rfl

namespace Reading

variable {α β : Type} {cs : List Char} {x : Reading α} {f : α → Reading β}

/-- Within the text, the reading stops with no error but at a place of the text. -/
def PointsInto (cs : List Char) (x : Reading α) : Prop :=
  ∀ r, r.cursor.Follows (.start cs) → ∀ e, (x.run r).1 = .error e →
    ∀ p ∈ e.position, IsBoundary cs p

theorem PointsInto.bind (hx : x.PointsInto cs) (hf : ∀ a, (f a).PointsInto cs) :
    (x >>= f).PointsInto cs := by
  intro r hr e he
  rw [run_bind] at he
  rcases hrun : x.run r with ⟨e' | a, s⟩ <;> rw [hrun] at he
  · cases he
    exact hx r hr e (congrArg Prod.fst hrun)
  · have hs := x.follows r
    rw [hrun] at hs
    exact hf a s (hs.trans hr) e he

theorem pointsInto_pure (a : α) : (pure a : Reading α).PointsInto cs := by rintro r - e ⟨⟩

theorem PointsInto.map (hx : x.PointsInto cs) (g : α → β) : (g <$> x).PointsInto cs :=
  hx.bind fun a => pointsInto_pure (g a)

theorem PointsInto.fail {e : ParseError} (h : ∀ p ∈ e.position, IsBoundary cs p) :
    (Reading.fail e : Reading α).PointsInto cs := by
  rintro r - _ ⟨⟩
  exact h

/-- An error at a known place of the text. -/
theorem pointsInto_fault {p : Nat} (h : IsBoundary cs p) (c : Fault) :
    (Reading.fail (.fault p c) : Reading α).PointsInto cs :=
  .fail (by simpa using h)

theorem pointsInto_reader : reader.PointsInto cs := by rintro r - e ⟨⟩

theorem pointsInto_peek : peek.PointsInto cs := by rintro r - e ⟨⟩

/-- The offset that is asked for is one of the text. -/
theorem PointsInto.position_bind {g : Nat → Reading β}
    (hg : ∀ p, IsBoundary cs p → (g p).PointsInto cs) : (position >>= g).PointsInto cs :=
  fun r hr => hg r.position hr.isBoundary r hr

theorem pointsInto_ofCursor (g : Cursor → α × Cursor) (hg : ∀ c, (g c).2.Follows c) :
    (ofCursor g hg).PointsInto cs := by
  rintro r - e ⟨⟩

theorem pointsInto_changeScope (g : Scope → Scope) : (changeScope g).PointsInto cs := by
  rintro r - e ⟨⟩

theorem pointsInto_failHere (c : Fault) : (failHere c : Reading α).PointsInto cs :=
  .position_bind fun _ hp => pointsInto_fault hp c

theorem pointsInto_orFail (c : Fault) (o : Option α) : (orFail c o).PointsInto cs := by
  cases o with
  | none => exact pointsInto_failHere c
  | some a => exact pointsInto_pure a

theorem pointsInto_orFailAt {p : Nat} (h : IsBoundary cs p) (c : Fault) (o : Option α) :
    (orFailAt p c o).PointsInto cs := by
  cases o with
  | none => exact pointsInto_fault h c
  | some a => exact pointsInto_pure a

theorem PointsInto.inCommand (hx : x.PointsInto cs) (name : String) :
    (x.inCommand name).PointsInto cs := by
  intro r hr e he
  have h := hx r hr
  simp only [Reading.inCommand] at he
  cases hrun : (x.run r).1 with
  | ok a =>
    rw [hrun] at he
    cases he
  | error e' =>
    rw [hrun] at he
    cases he
    simpa using h e' hrun

/-! ## Services -/

theorem pointsInto_move (g : Cursor → Cursor) (hg : ∀ c, (g c).Follows c) :
    (move g hg).PointsInto cs := pointsInto_ofCursor _ hg

theorem pointsInto_skipIgnorable : skipIgnorable.PointsInto cs := pointsInto_move _ _

theorem pointsInto_optional? : optional?.PointsInto cs := pointsInto_ofCursor _ _

theorem pointsInto_commandName? : commandName?.PointsInto cs := pointsInto_ofCursor _ _

theorem pointsInto_eat (c : Char) : (eat c).PointsInto cs :=
  (pointsInto_move _ _).bind fun _ => pointsInto_ofCursor _ _

theorem pointsInto_group : group.PointsInto cs := by
  refine pointsInto_skipIgnorable.bind fun _ => .position_bind fun here hh =>
    pointsInto_peek.bind fun c => ?_
  split
  · exact (pointsInto_ofCursor _ _).bind (pointsInto_orFailAt hh _)
  · exact pointsInto_fault hh _

theorem pointsInto_argument : argument.PointsInto cs := by
  refine pointsInto_skipIgnorable.bind fun _ => .position_bind fun here hh =>
    pointsInto_peek.bind fun c => ?_
  split
  · exact pointsInto_fault hh _
  · exact (pointsInto_ofCursor _ _).bind (pointsInto_orFailAt hh _)

theorem pointsInto_delimiter : delimiter.PointsInto cs := by
  refine pointsInto_skipIgnorable.bind fun _ => .position_bind fun here hh => ?_
  have ht : delimiterToken?.PointsInto cs := by
    refine (pointsInto_ofCursor _ _).bind fun c => ?_
    split
    · exact pointsInto_pure _
    · exact pointsInto_commandName?.bind fun _ => pointsInto_pure _
    · exact pointsInto_pure _
  refine ht.bind fun token => ?_
  split
  · exact pointsInto_fault hh _
  · exact pointsInto_orFailAt hh _ _

theorem pointsInto_length : length.PointsInto cs :=
  .position_bind fun _ hh => pointsInto_group.bind fun _ => pointsInto_orFailAt hh _ _

theorem pointsInto_optionalLength? : optionalLength?.PointsInto cs := by
  refine pointsInto_optional?.bind fun text => ?_
  split
  · exact pointsInto_pure _
  · exact (pointsInto_orFail _ _).bind fun _ => pointsInto_pure _

theorem pointsInto_resolveColor (model : Option (List Char)) (spec : List Char) :
    (resolveColor model spec).PointsInto cs :=
  pointsInto_reader.bind fun _ => pointsInto_orFail _ _

theorem pointsInto_color : color.PointsInto cs :=
  pointsInto_optional?.bind fun model => pointsInto_group.bind fun spec =>
    pointsInto_resolveColor model spec

theorem pointsInto_definedName : definedName.PointsInto cs :=
  pointsInto_argument.bind fun _ => pointsInto_orFail _ _

theorem pointsInto_newColor : newColor.PointsInto cs :=
  pointsInto_group.bind fun _ => pointsInto_group.bind fun _ => pointsInto_group.bind fun _ =>
    (pointsInto_resolveColor _ _).bind fun _ => pointsInto_changeScope _

theorem pointsInto_columnRule : columnRule.PointsInto cs :=
  pointsInto_group.bind fun _ => (pointsInto_orFail _ _).bind fun _ => pointsInto_pure _

theorem pointsInto_rule : rule.PointsInto cs :=
  pointsInto_optionalLength?.bind fun _ => pointsInto_length.bind fun _ =>
    pointsInto_length.bind fun _ => pointsInto_pure _

theorem pointsInto_arguments (ps : List Parameter) : (arguments ps).PointsInto cs := by
  induction ps with
  | nil => exact pointsInto_pure _
  | cons p ps ih =>
    cases p with
    | required => exact pointsInto_argument.bind fun _ => ih.bind fun _ => pointsInto_pure _
    | optional => exact pointsInto_optional?.bind fun _ => ih.bind fun _ => pointsInto_pure _

end Reading

open Reading

variable {l : Language} {cs : List Char}

namespace Language

/-- Without a way to parse pieces, a piece is refused where it is met. -/
theorem pointsInto_fragment (hl : l.fragment? = none) (ds : List Char) :
    (l.fragment ds).PointsInto cs := by
  unfold fragment
  rw [hl]
  exact pointsInto_failHere _

theorem pointsInto_define (mode : DefineMode) (d : Definition) :
    (l.define mode d).PointsInto cs := by
  refine pointsInto_reader.bind fun r => ?_
  cases mode with
  | always => exact pointsInto_changeScope _
  | new =>
    simp only
    split
    · exact pointsInto_failHere _
    · exact pointsInto_changeScope _
  | renew =>
    simp only
    split
    · exact pointsInto_changeScope _
    · exact pointsInto_failHere _
  | provide =>
    simp only
    split
    · exact pointsInto_pure _
    · exact pointsInto_changeScope _

theorem pointsInto_newCommand (mode : DefineMode) : (l.newCommand mode).PointsInto cs := by
  refine (pointsInto_eat _).bind fun _ => pointsInto_definedName.bind fun name =>
    pointsInto_optional?.bind fun text => ?_
  have hrest (f : Option (List Char) → List Char → Definition) : (do
      let value ← optional?
      let body ← group
      l.define mode (f value body)).PointsInto cs :=
    pointsInto_optional?.bind fun _ => pointsInto_group.bind fun _ => pointsInto_define mode _
  split
  · exact (pointsInto_pure 0).bind fun _ => hrest _
  · exact (pointsInto_orFail _ _).bind fun _ => hrest _

theorem pointsInto_newDefinition : l.newDefinition.PointsInto cs :=
  pointsInto_definedName.bind fun _ => (pointsInto_ofCursor _ _).bind fun _ =>
    (pointsInto_orFail _ _).bind fun _ => pointsInto_group.bind fun _ => pointsInto_define _ _

theorem pointsInto_newOperator : l.newOperator.PointsInto cs :=
  (pointsInto_eat _).bind fun _ => pointsInto_definedName.bind fun _ =>
    pointsInto_group.bind fun _ => pointsInto_define _ _

theorem pointsInto_openEnvironment : l.openEnvironment.PointsInto cs := by
  refine pointsInto_group.bind fun text => ?_
  simp only
  split
  · exact .position_bind fun p hp => .fail (by simpa using hp)
  · split
    · exact (pointsInto_group.map some).bind fun _ => pointsInto_pure _
    · exact pointsInto_pure _

theorem pointsInto_expand (hl : l.fragment? = none) (d : Definition) :
    (l.expand d).PointsInto cs := by
  refine (pointsInto_arguments _).bind fun args => (pointsInto_fragment hl _).bind fun a => ?_
  split <;> exact pointsInto_pure _

end Language

theorem Builtin.pointsInto_start (hl : l.fragment? = none) (b : Builtin) :
    (b.start l).PointsInto cs := by
  cases b with
  | symbol | operator | space | hrule | fraction | decorate | font | classed | frameBox | vcenter
  | division | fontSwitch | style | limits => exact pointsInto_pure _
  | sqrt =>
    refine pointsInto_optional?.bind fun degree => ?_
    split
    · exact pointsInto_pure _
    · exact (Language.pointsInto_fragment hl _).bind fun _ => pointsInto_pure _
  | text | closeEnvironment => exact pointsInto_group.bind fun _ => pointsInto_pure _
  | color | textColor | colorBox | cellColor | rowColor =>
    exact pointsInto_color.bind fun _ => pointsInto_pure _
  | frameColorBox =>
    exact pointsInto_color.bind fun _ => pointsInto_color.bind fun _ => pointsInto_pure _
  | defineColor => exact pointsInto_newColor.bind fun _ => pointsInto_pure _
  | hspace =>
    exact (pointsInto_eat _).bind fun _ => pointsInto_length.bind fun _ => pointsInto_pure _
  | left | middle | right | bigDelimiter =>
    exact pointsInto_delimiter.bind fun _ => pointsInto_pure _
  | operatorName =>
    exact (pointsInto_eat _).bind fun _ => pointsInto_group.bind fun _ => pointsInto_pure _
  | declareOperator => exact Language.pointsInto_newOperator.bind fun _ => pointsInto_pure _
  | newCommand mode =>
    exact (Language.pointsInto_newCommand mode).bind fun _ => pointsInto_pure _
  | define => exact Language.pointsInto_newDefinition.bind fun _ => pointsInto_pure _
  | openEnvironment => exact Language.pointsInto_openEnvironment
  | rowSeparator => exact pointsInto_optionalLength?.bind fun _ => pointsInto_pure _
  | columnRule => exact pointsInto_columnRule.bind fun _ => pointsInto_pure _
  | rule => exact pointsInto_rule.bind fun _ => pointsInto_pure _
  | usePackage =>
    exact pointsInto_optional?.bind fun _ => pointsInto_group.bind fun _ =>
      (pointsInto_changeScope _).bind fun _ => pointsInto_pure _

theorem Command.pointsInto_start (hl : l.fragment? = none) (c : Command) :
    (c.start l).PointsInto cs := by
  refine PointsInto.inCommand ?_ c.name
  cases c.state with
  | fresh b => exact b.pointsInto_start hl
  | defined d => exact Language.pointsInto_expand hl d
  | args | switch | division | fence | script => exact pointsInto_pure _

/-- A name that stands for nothing is told where its backslash stands. -/
theorem Language.position_of_resolve_error {scope : Scope} {name : String} {pos : Nat}
    {e : ParseError} (h : l.resolve scope name pos = .error e) : e.position = some pos := by
  unfold Language.resolve Registry.resolve at h
  split at h
  · cases h
  · split at h
    · cases h
      rfl
    · cases h

/-- Every token of a language without pieces stops inside the text. -/
theorem Language.pointsInto_readMove (hl : l.fragment? = none) {pos : Nat}
    (hp : IsBoundary cs pos) (c : Char) : (l.readMove pos c).PointsInto cs := by
  unfold readMove
  split
  · exact (pointsInto_move _ _).bind fun _ => pointsInto_pure _
  all_goals try exact pointsInto_pure _
  refine pointsInto_commandName?.bind fun name => ?_
  split
  · exact pointsInto_fault hp _
  · refine pointsInto_reader.bind fun r => ?_
    split
    · rename_i e he
      exact .fail (by simpa [position_of_resolve_error he] using hp)
    · exact (Command.pointsInto_start hl _).bind fun _ => pointsInto_pure _

end Typeset
