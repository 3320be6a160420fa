import Typeset.Proofs.Nest.Refusal
import Typeset.Proofs.Parse.Soundness
import Typeset.Proofs.Reading.Local

/-!
# Lenient parses

A lenient parse salvages what was parsed before the first error. That is what the markup before
the refused token comes to on its own, unless the token takes something off the nest before it is
refused (`Nest.Erases`).

* `ParseState.Reached.of_extend`: a state that is reached before a text is reached without it.
* `ParseState.Reached.exists_prefix`: the markup before a token leads to the nest before it.
* `lenient_parse_eq_prefix_iff`: a lenient parse keeps what the markup before the refused token
  comes to, exactly if the token erases nothing.
-/

namespace Typeset

/-- The characters of a text before a byte offset. -/
def charsBefore : Nat → List Char → List Char
  | _, [] => []
  | p, c :: cs => if p = 0 then [] else c :: charsBefore (p - c.utf8Size) cs

theorem charsBefore_byteLength (pre post : List Char) :
    charsBefore (byteLength pre) (pre ++ post) = pre := by
  induction pre with
  | nil => cases post <;> rfl
  | cons c cs ih =>
    have hc := c.utf8Size_pos
    rw [List.cons_append, charsBefore, byteLength, if_neg (by omega), Nat.add_sub_cancel_left, ih]

namespace ParseState

variable {l : Language} {s t : ParseState} {v : List Char} {f : Failure}

/-- The state with more text behind what it has to read. -/
def extend (s : ParseState) (v : List Char) : ParseState := { s with reader := s.reader.extend v }

/-- A state before one with more text has more text behind it, too. -/
theorem exists_extend (h : (s.extend v).reader.cursor.Follows t.reader.cursor) :
    ∃ t' : ParseState, t = t'.extend v := by
  obtain ⟨r, hr⟩ := Reader.exists_extend (s := s.reader) h
  refine ⟨{ t with reader := r }, ?_⟩
  cases t
  cases hr
  rfl

/-- A token before a text is done without it. -/
theorem step_of_extend (h : (s.extend v).step l = some (.ok (t.extend v))) :
    s.step l = some (.ok t) := by
  obtain ⟨c, hc⟩ := Cursor.Follows.exists_extend (step_follows h)
  have hs := Cursor.skipBlanks_of_extend hc
  obtain ⟨x, move, hx, hm, ha⟩ := exists_move_of_step h
  rw [hc] at hx hm ha
  rw [Cursor.extend_position] at hm ha
  -- The character of the token is read, so it stands before the text.
  have hf := (l.readMove c.position x).follows
    { (s.extend v).reader with cursor := (c.extend v).advance 1 }
  rw [hm] at hf
  obtain ⟨d, hd⟩ : ∃ d : Cursor, (c.extend v).advance 1 = d.extend v := hf.exists_extend
  obtain ⟨hadv, hpos⟩ := Cursor.advance_of_extend hd
  have hreader : ({ (s.extend v).reader with cursor := (c.extend v).advance 1 } : Reader) =
      Reader.extend { s.reader with cursor := d } v := by
    rw [hd]
    rfl
  rw [hreader] at hm
  have hrun := l.isLocal_readMove c.position x { s.reader with cursor := d } t.reader v move hm
  rw [Cursor.peek_extend (hpos.imp_right fun h => h)] at hx
  simp only [step, hs, hx, Option.map_some, hadv, hrun]
  rw [show s.nest.apply c.position t.reader.position move = .ok t.nest from ha]
  rfl

/-- A state that is reached before a text is reached without it. -/
theorem Reached.of_extend (h : Reached l (s.extend v) (t.extend v)) : Reached l s t := by
  generalize ht : t.extend v = t' at h
  induction h generalizing t with
  | start =>
    obtain rfl : t = s := by
      cases s
      cases t
      simp only [extend, mk.injEq, Reader.extend_inj] at ht
      rw [ht.1, ht.2]
    exact .start
  | @token u w hu hw ih =>
    subst ht
    obtain ⟨u', rfl⟩ := exists_extend ((step_follows hw).trans (Cursor.skipBlanks_follows _))
    exact .token (ih rfl) (step_of_extend hw)

/-- The state without its next token and what follows it: it ends there. -/
theorem exists_extend_skipBlanks (l : Language) (s : ParseState) :
    ∃ t : ParseState, s = t.extend s.reader.cursor.skipBlanks.rest ∧ t.step l = none := by
  obtain ⟨c, hc⟩ : ∃ c, s.reader.cursor.skipBlanks = c := ⟨_, rfl⟩
  have he : c = Cursor.extend { rest := [], position := c.position } c.rest := rfl
  obtain ⟨t, ht⟩ : ∃ t : ParseState, s = t.extend c.rest := by
    refine exists_extend (s := { s with reader := { s.reader with
      cursor := { rest := [], position := c.position } } }) ?_
    exact hc ▸ Cursor.skipBlanks_follows _
  have hb : t.reader.cursor.skipBlanks = { rest := [], position := c.position } := by
    refine Cursor.skipBlanks_of_extend (v := c.rest) ?_
    have hcursor : s.reader.cursor = t.reader.cursor.extend c.rest :=
      congrArg (fun s => s.reader.cursor) ht
    rw [← hcursor, hc, ← he]
  refine ⟨t, hc ▸ ht, ?_⟩
  rw [step, hb]
  rfl

/-- The markup before a token, on its own, leads to the nest before the token and ends there. -/
theorem Reached.exists_prefix {scope : Scope} {cs : List Char}
    (h : Reached l (ParseState.start cs scope) s) :
    ∃ t, Reached l (ParseState.start (charsBefore s.reader.cursor.skipBlanks.position cs) scope) t ∧
      t.step l = none ∧ t.nest = s.nest := by
  obtain ⟨pre, hcs, hpos⟩ := (Cursor.skipBlanks_follows s.reader.cursor).trans h.follows
  obtain ⟨t, ht, hnone⟩ := exists_extend_skipBlanks l s
  have hcs : cs = pre ++ s.reader.cursor.skipBlanks.rest := hcs
  have hpos : s.reader.cursor.skipBlanks.position = byteLength pre := hpos.trans (Nat.zero_add _)
  have hpre : charsBefore s.reader.cursor.skipBlanks.position cs = pre := by
    rw [hpos, hcs, charsBefore_byteLength]
  have hnest : s.nest = t.nest := (congrArg ParseState.nest ht).trans rfl
  refine ⟨t, ?_, hnone, hnest.symm⟩
  have hstart : ParseState.start cs scope =
      (ParseState.start pre scope).extend s.reader.cursor.skipBlanks.rest := by
    conv => lhs; rw [hcs]
    rfl
  rw [hpre]
  refine Reached.of_extend (v := s.reader.cursor.skipBlanks.rest) ?_
  rw [← hstart, ← ht]
  exact h

/-! ## Salvaging -/

/-- The next token takes something off the nest and is refused then. -/
def Erases (l : Language) (s : ParseState) : Prop :=
  ∃ x move r, s.reader.cursor.skipBlanks.peek = some x ∧
    (l.readMove s.reader.cursor.skipBlanks.position x).run
      { s.reader with cursor := s.reader.cursor.skipBlanks.advance 1 } = (.ok move, r) ∧
    s.nest.Erases r.position move

/-- A refused token leaves the same atom to salvage, unless it erases something. -/
theorem salvage_of_step_error_iff (hs : s.nest.Sound) (h : s.step l = some (.error f)) :
    f.nest.salvage = s.nest.salvage ↔ ¬s.Erases l := by
  obtain ⟨x, hx, ⟨e, r, hm, he⟩ | ⟨move, r, hm, he⟩⟩ := step_cases h
  · cases he
    refine iff_of_true rfl ?_
    rintro ⟨y, move, r', hy, hm', -⟩
    rw [hx] at hy
    cases hy
    rw [hm] at hm'
    cases hm'
  · have herases : s.Erases l ↔ s.nest.Erases r.position move := by
      constructor
      · rintro ⟨y, move', r', hy, hm', he'⟩
        rw [hx] at hy
        cases hy
        rw [hm] at hm'
        cases hm'
        exact he'
      · exact fun he' => ⟨x, move, r, hx, hm, he'⟩
    rw [herases]
    cases ha : s.nest.apply s.reader.cursor.skipBlanks.position r.position move with
    | error g =>
      rw [ha] at he
      cases he
      exact hs.salvage_of_apply_error_iff ha
    | ok n =>
      rw [ha] at he
      cases he

/-- The atom of a text, if its first error ends it. -/
def parseLenient (l : Language) (scope : Scope) (cs : List Char) : Atom :=
  match parse l scope cs with
  | .ok a => a
  | .error f => f.nest.salvage

/-- Where the markup ends, what is salvaged is its atom, whether something is left open or not. -/
theorem parseLenient_of_reached {scope : Scope} {cs : List Char}
    (h : Reached l (start cs scope) s) (hs : s.nest.Sound) (hn : s.step l = none) :
    parseLenient l scope cs = s.nest.salvage := by
  have hscan : scan l (start cs scope) = .ok s := scan_eq_ok_iff.mpr ⟨h, hn⟩
  have hparse : parse l scope cs = s.nest.finish s.reader.cursor.skipBlanks.position := by
    rw [parse, hscan]
    rfl
  rw [parseLenient, hparse]
  have hk := hs.keeps_finish s.reader.cursor.skipBlanks.position
  cases hf : s.nest.finish s.reader.cursor.skipBlanks.position with
  | ok a => exact (hs.salvage_of_finish hf).symm
  | error f =>
    rw [hf] at hk
    exact hk

theorem parseLenient_of_step_error {scope : Scope} {cs : List Char}
    (h : Reached l (start cs scope) s) (hf : s.step l = some (.error f)) :
    parseLenient l scope cs = f.nest.salvage := by
  have hscan : scan l (start cs scope) = .error f := scan_eq_error_iff.mpr ⟨s, h, hf⟩
  rw [parseLenient, parse, hscan]
  rfl

end ParseState

theorem Registry.parse_lenient (r : Registry) (packages : List String) (src : String) :
    r.parse { lenient := true, packages } src =
      .ok (ParseState.parseLenient r.language { packages } src.toList) := by
  unfold Registry.parse ParseState.parseLenient
  split <;> simp_all

/-- **What a lenient parse keeps.** Where a strict parse succeeds, a lenient one gives the same
atom. Where a token is refused, a lenient parse gives what the markup before the token comes to,
unless the token is a script or a prime on an atom that has one already, or the end of another
environment: then the atom, or the environment, is lost as well, if it was to be seen. -/
theorem lenient_parse_eq_prefix_iff (registry : Registry) (packages : List String)
    (src : String) :
    (∀ a, registry.parse { packages } src = .ok a →
      registry.parse { lenient := true, packages } src = .ok a) ∧
    ∀ s f, ParseState.Reached registry.language (.start src.toList { packages }) s →
      s.step registry.language = some (.error f) →
      (registry.parse { lenient := true, packages } src =
          registry.parse { lenient := true, packages }
            (String.ofList (charsBefore s.reader.cursor.skipBlanks.position src.toList)) ↔
        ¬s.Erases registry.language) := by
  refine ⟨fun a ha => ?_, fun s f hs hf => ?_⟩
  · unfold Registry.parse at ha ⊢
    cases hp : ParseState.parse registry.language { packages } src.toList with
    | ok b =>
      rw [hp] at ha
      exact ha
    | error f =>
      rw [hp] at ha
      cases ha
  · have hsound : s.nest.Sound :=
      hs.sound (Language.hasSoundFragments_nested registry maxDepth) Nest.sound_start
    obtain ⟨t, ht, hnone, hnest⟩ := hs.exists_prefix
    rw [Registry.parse_lenient, Registry.parse_lenient, String.toList_ofList, Except.ok.injEq,
      ParseState.parseLenient_of_step_error hs hf,
      ParseState.parseLenient_of_reached ht (hnest ▸ hsound) hnone, hnest]
    exact ParseState.salvage_of_step_error_iff hsound hf

/-- In `a^b^c`, the second superscript takes `a^b` away, which is what `a^b` comes to on its
own. -/
theorem lenient_parse_eq_prefix_iff_double_superscript :
    let l := Registry.empty.language
    let a : Atom := .scripts (.ofChar 'a') (some (.ofChar 'b')) none
    let s : ParseState := { reader := { cursor := { rest := ['^', 'c'], position := 3 } },
                            nest := [.group [a] [] 0 true] }
    ParseState.Reached l (.start "a^b^c".toList {}) s ∧ (∃ f, s.step l = some (.error f)) ∧
      s.Erases l ∧ Registry.empty.parse {} "a^b" = .ok (.row [a]) ∧
      Registry.empty.parse { lenient := true } "a^b" = .ok (.row [a]) ∧
      Registry.empty.parse { lenient := true } "a^b^c" ≠ .ok (.row [a]) := by
  intro l a s
  have hstrict : Registry.empty.parse {} "a^b" = .ok (.row [a]) := by
    have hscan : ParseState.scan l (.start "a^b".toList {}) =
        .ok { s with reader := { cursor := { rest := [], position := 3 } } } :=
      ParseState.scan_eq_ok_iff.mpr ⟨.token (.token (.token .start rfl) rfl) rfl, rfl⟩
    have hparse : ParseState.parse l {} "a^b".toList = .ok (.row [a]) := by
      rw [ParseState.parse, hscan]
      change Nest.finish 3 [.group [a] [] 0 true] = _
      rw [Nest.finish, Nest.closeDeclarations_of_endsInDeclaration rfl]
      rfl
    rw [Registry.parse, hparse]
  have hlenient := (lenient_parse_eq_prefix_iff .empty [] "a^b").1 _ hstrict
  have hs : ParseState.Reached l (.start "a^b^c".toList {}) s :=
    .token (.token (.token .start rfl) rfl) rfl
  have hf : s.step l = some (.error ⟨.fault 3 (.doubleScript .sup), [.group [] [] 0 true]⟩) := rfl
  have he : s.Erases l := ⟨'^', .script .sup, _, rfl, rfl, .script rfl rfl rfl⟩
  have h := (lenient_parse_eq_prefix_iff .empty [] "a^b^c").2 s _ hs hf
  exact ⟨hs, ⟨_, hf⟩, he, hstrict, hlenient, fun heq => h.mp (heq.trans hlenient.symm) he⟩

end Typeset
