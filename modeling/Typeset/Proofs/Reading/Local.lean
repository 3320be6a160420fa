import Typeset.Markup.Parse
import Typeset.Proofs.Cursor.Local

/-!
# Readings and the text behind them

A reading is local (`Reading.IsLocal`) if it stops before a text only where it gives the same value
without that text. All that commands read is local.

* `Reading.IsLocal.bind`: local readings in sequence are local. To look at the next character is
  local only if something is read then (`Reading.IsLocal.peek_bind`).
* `Language.isLocal_readMove`: every token is local, so that a prefix of the markup that ends
  between two tokens leads to the same state as the whole.
-/

namespace Typeset

/-- The reader with more text behind what it has to read. -/
def Reader.extend (r : Reader) (v : List Char) : Reader := { r with cursor := r.cursor.extend v }

@[simp] theorem Reader.extend_cursor (r : Reader) (v : List Char) :
    (r.extend v).cursor = r.cursor.extend v := rfl

@[simp] theorem Reader.extend_scope (r : Reader) (v : List Char) :
    (r.extend v).scope = r.scope := rfl

@[simp] theorem Reader.extend_position (r : Reader) (v : List Char) :
    (r.extend v).position = r.position := rfl

@[simp] theorem Reader.extend_nil (r : Reader) : r.extend [] = r := by simp [extend]

theorem Reader.extend_inj {r s : Reader} {v : List Char} :
    r.extend v = s.extend v ↔ r = s := by
  constructor
  · intro h
    have hc := congrArg Reader.cursor h
    have hs := congrArg Reader.scope h
    rw [extend_cursor, extend_cursor, Cursor.extend_inj] at hc
    cases r
    cases s
    cases hc
    cases hs
    rfl
  · exact fun h => h ▸ rfl

/-- A reader before one with more text has more text behind it, too. -/
theorem Reader.exists_extend {r s : Reader} {v : List Char}
    (h : (s.extend v).cursor.Follows r.cursor) : ∃ r' : Reader, r = r'.extend v := by
  obtain ⟨c, hc⟩ := Cursor.Follows.exists_extend h
  refine ⟨{ r with cursor := c }, ?_⟩
  cases r
  cases hc
  rfl

namespace Reading

variable {α β : Type} {x : Reading α} {f : α → Reading β}

/-- A reading that stops before a text gives the same value without it. -/
def IsLocal (x : Reading α) : Prop :=
  ∀ r s v a, x.run (r.extend v) = (.ok a, s.extend v) → x.run r = (.ok a, s)

theorem IsLocal.bind (hx : x.IsLocal) (hf : ∀ a, (f a).IsLocal) : (x >>= f).IsLocal := by
  intro r s v b h
  rw [run_bind] at h ⊢
  rcases he : x.run (r.extend v) with ⟨e | a, t⟩
  · rw [he] at h
    cases h
  · rw [he] at h
    have h : (f a).run t = (.ok b, s.extend v) := h
    have ht := (f a).follows t
    rw [h] at ht
    obtain ⟨t', rfl⟩ := Reader.exists_extend ht
    rw [hx r t' v a he]
    exact hf a t' s v b h

theorem IsLocal.pure (a : α) : (Pure.pure a : Reading α).IsLocal := by
  intro r s v b h
  rw [run_pure, Prod.mk.injEq, Reader.extend_inj] at h
  obtain ⟨h, rfl⟩ := h
  rw [run_pure, h]

theorem IsLocal.map (hx : x.IsLocal) (g : α → β) : (g <$> x).IsLocal :=
  hx.bind fun a => .pure (g a)

theorem IsLocal.fail (e : ParseError) : (Reading.fail e : Reading α).IsLocal := by
  rintro r s v b ⟨⟩

/-- To ask for the reader is local if the text before it is all that matters. -/
theorem IsLocal.reader_bind {g : Reader → Reading β} (he : ∀ r v, g (r.extend v) = g r)
    (hg : ∀ r, (g r).IsLocal) : (reader >>= g).IsLocal := by
  intro r s v b h
  have h : (g (r.extend v)).run (r.extend v) = (.ok b, s.extend v) := h
  rw [he] at h
  exact hg r r s v b h

theorem isLocal_position : position.IsLocal := .reader_bind (fun _ _ => rfl) fun _ => .pure _

theorem isLocal_ofCursor {g : Cursor → α × Cursor} (hg : Cursor.IsLocal g)
    (hfol : ∀ c, (g c).2.Follows c) : (ofCursor g hfol).IsLocal := by
  intro r s v a h
  simp only [ofCursor, Prod.mk.injEq, Except.ok.injEq] at h ⊢
  obtain ⟨rfl, h⟩ := h
  have hs : r.scope = s.scope := by simpa using congrArg Reader.scope h
  rw [hg r.cursor s.cursor v _ (Prod.ext rfl (congrArg Reader.cursor h)), hs]
  exact ⟨rfl, rfl⟩

theorem isLocal_changeScope (g : Scope → Scope) : (changeScope g).IsLocal := by
  intro r s v a h
  simp only [changeScope, Prod.mk.injEq] at h ⊢
  exact ⟨h.1, Reader.extend_inj.mp h.2⟩

theorem isLocal_failHere (c : Fault) : (failHere c : Reading α).IsLocal :=
  isLocal_position.bind fun _ => .fail _

theorem isLocal_orFail (c : Fault) (o : Option α) : (orFail c o).IsLocal := by
  cases o with
  | none => exact isLocal_failHere c
  | some a => exact .pure a

theorem isLocal_orFailAt (here : Nat) (c : Fault) (o : Option α) :
    (orFailAt here c o).IsLocal := by
  cases o with
  | none => exact .fail _
  | some a => exact .pure a

theorem IsLocal.inCommand (hx : x.IsLocal) (name : String) : (x.inCommand name).IsLocal := by
  intro r s v a h
  simp only [Reading.inCommand, Prod.mk.injEq] at h ⊢
  obtain ⟨ha, hs⟩ := h
  cases he : (x.run (r.extend v)).1 with
  | error e =>
    rw [he] at ha
    cases ha
  | ok b =>
    rw [he] at ha
    cases ha
    rw [hx r s v a (Prod.ext he hs)]
    exact ⟨rfl, rfl⟩

/-- To look at the next character is local if a value is given only after something is read. -/
theorem IsLocal.peek_bind {g : Option Char → Reading β} (hg : ∀ c, (g c).IsLocal)
    (hr : ∀ c r b s, (g (some c)).run r = (.ok b, s) →
      s.cursor.rest.length < r.cursor.rest.length) : (peek >>= g).IsLocal := by
  intro r s v b h
  have h : (g (r.cursor.extend v).peek).run (r.extend v) = (.ok b, s.extend v) := h
  have hp : (r.cursor.extend v).peek = r.cursor.peek := by
    by_cases hv : v = []
    · rw [hv, Cursor.extend_nil]
    · refine Cursor.peek_extend (.inr (List.length_pos_iff.mpr ?_))
      obtain ⟨y, ys, hy⟩ := List.exists_cons_of_ne_nil
        (show (r.cursor.extend v).rest ≠ [] by simp [hv])
      rw [Cursor.peek, hy] at h
      exact Cursor.rest_ne_nil_of_extend (hr y _ _ _ h) rfl
  rw [hp] at h
  exact hg _ r s v b h

/-- The value of a reading of the cursor that must not come out empty. -/
theorem run_ofCursor_orFailAt {g : Cursor → Option α × Cursor} {hfol : ∀ c, (g c).2.Follows c}
    {here : Nat} {c : Fault} {r s : Reader} {a : α}
    (h : (ofCursor g hfol >>= orFailAt here c).run r = (.ok a, s)) :
    g r.cursor = (some a, s.cursor) := by
  rw [run_bind] at h
  simp only [ofCursor] at h
  rcases hg : g r.cursor with ⟨_ | b, d⟩ <;> rw [hg] at h <;> cases h
  rfl

/-! ## Services -/

theorem isLocal_skipIgnorable : skipIgnorable.IsLocal :=
  isLocal_ofCursor Cursor.isLocal_skipIgnorable Cursor.skipIgnorable_follows

theorem isLocal_next : next.IsLocal := isLocal_ofCursor Cursor.isLocal_next _

theorem isLocal_eat (c : Char) : (eat c).IsLocal :=
  (isLocal_ofCursor Cursor.isLocal_skipBlanks Cursor.skipBlanks_follows).bind fun _ =>
    isLocal_ofCursor (Cursor.isLocal_eat c) _

theorem isLocal_commandName? : commandName?.IsLocal := isLocal_ofCursor Cursor.isLocal_readName? _

theorem isLocal_optional? : optional?.IsLocal := isLocal_ofCursor Cursor.isLocal_readOptional? _

theorem isLocal_readUntil (stop : Char) : (readUntil stop).IsLocal :=
  isLocal_ofCursor (Cursor.isLocal_readUntil stop) _

theorem isLocal_group : group.IsLocal := by
  refine isLocal_skipIgnorable.bind fun _ => isLocal_position.bind fun here => .peek_bind ?_ ?_
  · intro c
    split
    · exact (isLocal_ofCursor (Cursor.isLocal_readBalanced? _ _) _).bind
        (isLocal_orFailAt here _)
    · exact .fail _
  · intro c r b s h
    split at h
    · exact Cursor.readBalanced?_rest_length_lt (run_ofCursor_orFailAt h)
    · cases h

theorem isLocal_argument : argument.IsLocal := by
  refine isLocal_skipIgnorable.bind fun _ => isLocal_position.bind fun here => .peek_bind ?_ ?_
  · intro c
    split
    · exact .fail _
    · exact (isLocal_ofCursor Cursor.isLocal_readArgument? _).bind (isLocal_orFailAt here _)
  · intro c r b s h
    split at h
    · cases h
    · exact Cursor.readArgument?_rest_length_lt (run_ofCursor_orFailAt h)

theorem isLocal_delimiter : delimiter.IsLocal := by
  refine isLocal_skipIgnorable.bind fun _ => isLocal_position.bind fun here => ?_
  have ht : delimiterToken?.IsLocal := by
    refine isLocal_next.bind fun c => ?_
    split
    · exact .pure _
    · exact isLocal_commandName?.bind fun _ => .pure _
    · exact .pure _
  refine ht.bind fun token => ?_
  split
  · exact .fail _
  · exact isLocal_orFailAt here _ _

theorem isLocal_length : length.IsLocal :=
  isLocal_position.bind fun here => isLocal_group.bind fun _ => isLocal_orFailAt here _ _

theorem isLocal_optionalLength? : optionalLength?.IsLocal := by
  refine isLocal_optional?.bind fun text => ?_
  split
  · exact .pure _
  · exact (isLocal_orFail _ _).bind fun _ => .pure _

theorem isLocal_resolveColor (model : Option (List Char)) (spec : List Char) :
    (resolveColor model spec).IsLocal :=
  .reader_bind (fun _ _ => rfl) fun _ => isLocal_orFail _ _

theorem isLocal_color : color.IsLocal :=
  isLocal_optional?.bind fun model => isLocal_group.bind fun spec =>
    isLocal_resolveColor model spec

theorem isLocal_definedName : definedName.IsLocal :=
  isLocal_argument.bind fun _ => isLocal_orFail _ _

theorem isLocal_newColor : newColor.IsLocal :=
  isLocal_group.bind fun _ => isLocal_group.bind fun _ => isLocal_group.bind fun _ =>
    (isLocal_resolveColor _ _).bind fun _ => isLocal_changeScope _

theorem isLocal_columnRule : columnRule.IsLocal :=
  isLocal_group.bind fun _ => (isLocal_orFail _ _).bind fun _ => .pure _

theorem isLocal_rule : rule.IsLocal :=
  isLocal_optionalLength?.bind fun _ => isLocal_length.bind fun _ =>
    isLocal_length.bind fun _ => .pure _

theorem isLocal_arguments (ps : List Parameter) : (arguments ps).IsLocal := by
  induction ps with
  | nil => exact .pure _
  | cons p ps ih =>
    cases p with
    | required => exact isLocal_argument.bind fun _ => ih.bind fun _ => .pure _
    | optional => exact isLocal_optional?.bind fun _ => ih.bind fun _ => .pure _

end Reading

open Reading

namespace Language

variable (l : Language)

theorem isLocal_fragment (cs : List Char) : (l.fragment cs).IsLocal := by
  unfold fragment
  split
  · exact isLocal_failHere _
  · refine .reader_bind (fun _ _ => rfl) fun r => ?_
    split
    · exact .pure _
    · exact .fail _

theorem isLocal_define (mode : DefineMode) (d : Definition) : (l.define mode d).IsLocal := by
  refine .reader_bind (fun _ _ => rfl) fun r => ?_
  cases mode with
  | always => exact isLocal_changeScope _
  | new =>
    simp only
    split
    · exact isLocal_failHere _
    · exact isLocal_changeScope _
  | renew =>
    simp only
    split
    · exact isLocal_changeScope _
    · exact isLocal_failHere _
  | provide =>
    simp only
    split
    · exact .pure _
    · exact isLocal_changeScope _

theorem isLocal_newCommand (mode : DefineMode) : (l.newCommand mode).IsLocal := by
  refine (isLocal_eat _).bind fun _ => isLocal_definedName.bind fun name =>
    isLocal_optional?.bind fun text => ?_
  have hrest (f : Option (List Char) → List Char → Definition) : (do
      let value ← optional?
      let body ← group
      l.define mode (f value body)).IsLocal :=
    isLocal_optional?.bind fun value => isLocal_group.bind fun body => l.isLocal_define mode _
  split
  · exact (IsLocal.pure 0).bind fun _ => hrest _
  · exact (isLocal_orFail _ _).bind fun count => hrest _

theorem isLocal_newDefinition : l.newDefinition.IsLocal :=
  isLocal_definedName.bind fun _ => (isLocal_readUntil _).bind fun _ =>
    (isLocal_orFail _ _).bind fun _ => isLocal_group.bind fun _ => l.isLocal_define _ _

theorem isLocal_newOperator : l.newOperator.IsLocal :=
  (isLocal_eat _).bind fun _ => isLocal_definedName.bind fun _ =>
    isLocal_group.bind fun _ => l.isLocal_define _ _

theorem isLocal_openEnvironment : l.openEnvironment.IsLocal := by
  refine isLocal_group.bind fun text => ?_
  simp only
  split
  · exact isLocal_position.bind fun _ => .fail _
  · split
    · exact (isLocal_group.map some).bind fun _ => .pure _
    · exact .pure _

theorem isLocal_expand (d : Definition) : (l.expand d).IsLocal := by
  refine (isLocal_arguments _).bind fun args => (l.isLocal_fragment _).bind fun a => ?_
  split <;> exact .pure _

end Language

variable (l : Language)

theorem Builtin.isLocal_start (b : Builtin) : (b.start l).IsLocal := by
  cases b with
  | symbol | operator | space | hrule | fraction | decorate | font | classed | frameBox | vcenter
  | division | fontSwitch | style | limits => exact .pure _
  | sqrt =>
    refine isLocal_optional?.bind fun degree => ?_
    split
    · exact .pure _
    · exact (l.isLocal_fragment _).bind fun _ => .pure _
  | text | closeEnvironment => exact isLocal_group.bind fun _ => .pure _
  | color | textColor | colorBox | cellColor | rowColor =>
    exact isLocal_color.bind fun _ => .pure _
  | frameColorBox => exact isLocal_color.bind fun _ => isLocal_color.bind fun _ => .pure _
  | defineColor => exact isLocal_newColor.bind fun _ => .pure _
  | hspace => exact (isLocal_eat _).bind fun _ => isLocal_length.bind fun _ => .pure _
  | left | middle | right | bigDelimiter => exact isLocal_delimiter.bind fun _ => .pure _
  | operatorName => exact (isLocal_eat _).bind fun _ => isLocal_group.bind fun _ => .pure _
  | declareOperator => exact l.isLocal_newOperator.bind fun _ => .pure _
  | newCommand mode => exact (l.isLocal_newCommand mode).bind fun _ => .pure _
  | define => exact l.isLocal_newDefinition.bind fun _ => .pure _
  | openEnvironment => exact l.isLocal_openEnvironment
  | rowSeparator => exact isLocal_optionalLength?.bind fun _ => .pure _
  | columnRule => exact isLocal_columnRule.bind fun _ => .pure _
  | rule => exact isLocal_rule.bind fun _ => .pure _
  | usePackage =>
    exact isLocal_optional?.bind fun _ => isLocal_group.bind fun _ =>
      (isLocal_changeScope _).bind fun _ => .pure _

/-- What a command reads is local, whatever its state. -/
theorem Command.isLocal_start (c : Command) : (c.start l).IsLocal := by
  refine Reading.IsLocal.inCommand ?_ c.name
  cases c.state with
  | fresh b => exact b.isLocal_start l
  | defined d => exact l.isLocal_expand d
  | args | switch | division | fence | script => exact .pure _

theorem Language.isLocal_readCommand (pos : Nat) : (l.readCommand pos).IsLocal := by
  refine isLocal_commandName?.bind fun name => ?_
  split
  · exact .fail _
  · refine .reader_bind (fun _ _ => rfl) fun r => ?_
    split
    · exact .fail _
    · exact (Command.isLocal_start l _).bind fun _ => .pure _

/-- Every token is local. -/
theorem Language.isLocal_readMove (pos : Nat) (c : Char) : (l.readMove pos c).IsLocal := by
  unfold readMove
  split
  · exact (isLocal_ofCursor Cursor.isLocal_skipLine Cursor.skipLine_follows).bind fun _ => .pure _
  all_goals first | exact .pure _ | exact l.isLocal_readCommand pos

end Typeset
