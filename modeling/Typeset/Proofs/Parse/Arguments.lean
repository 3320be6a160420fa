import Typeset.Proofs.Parse.Writing

/-!
# Arguments behind gaps

What the readings of commands find when blanks and comments stand before their arguments.

* `Reading.Finds`: a reading finds a value in a text, or refuses the text.
* `Reading.finds_group`, `Reading.finds_delimiter`, `Reading.finds_eat`: the arguments of commands;
  before a star only blanks are passed over.
* `Reading.finds_optional?_none`, `Reading.finds_optional?_some`: the degree of a root.
* `Reading.finds_openEnvironment`: an environment with its specification.
-/

namespace Typeset

namespace Cursor

variable {c : Cursor} {cs : List Char}

theorem skipIgnorable_of_startsToken (h : StartsToken c.rest) : c.skipIgnorable = c := by
  rw [skipIgnorable, ignorableLength_of_startsToken h]
  simp [advance, byteLength]

end Cursor

namespace Reading

open Canonical (braced)

variable {α β : Type} {x : Reading α} {scope : Scope} {g t u v rest body : List Char} {a : α}

/-- Before a text, and whatever blanks, the reading finds a value and leaves the rest to be read;
without a value it fails. -/
def Finds (x : Reading α) (scope : Scope) (text rest : List Char) : Option α → Prop
  | some a => ∀ c : Cursor, c.IsBefore text →
      ∃ d : Cursor, x.run { cursor := c, scope } = (.ok a, { cursor := d, scope }) ∧ d.IsBefore rest
  | none => ∀ c : Cursor, c.IsBefore text → ∃ e r, x.run { cursor := c, scope } = (.error e, r)

theorem finds_pure (a : α) : (pure a : Reading α).Finds scope t t (some a) :=
  fun c hc => ⟨c, rfl, hc⟩

theorem Finds.bind {f : α → Reading β} {o : Option β} (hx : x.Finds scope t u (some a))
    (hf : (f a).Finds scope u v o) : (x >>= f).Finds scope t v o := by
  have hrun (c : Cursor) (hc : c.IsBefore t) : ∃ d : Cursor, d.IsBefore u ∧
      (x >>= f).run { cursor := c, scope } = (f a).run { cursor := d, scope } := by
    obtain ⟨d, hd, hb⟩ := hx c hc
    exact ⟨d, hb, by rw [run_bind, hd]⟩
  cases o with
  | none =>
    intro c hc
    obtain ⟨d, hb, he⟩ := hrun c hc
    rw [he]
    exact hf d hb
  | some b =>
    intro c hc
    obtain ⟨d, hb, he⟩ := hrun c hc
    rw [he]
    exact hf d hb

theorem Finds.bind_none {f : α → Reading β} (hx : x.Finds scope t u none) :
    (x >>= f).Finds scope t v none := by
  intro c hc
  obtain ⟨e, r, he⟩ := hx c hc
  exact ⟨e, r, by rw [run_bind, he]⟩

/-- What is made of a value that is found. -/
theorem Finds.map {o : Option α} (hx : x.Finds scope t u o) (f : α → β) :
    (x >>= fun a => pure (f a)).Finds scope t u (o.map f) := by
  cases o with
  | none => exact hx.bind_none
  | some a => exact hx.bind (finds_pure (f a))

/-- The place that a reading has in mind does not matter for what it finds. -/
theorem finds_position {f : Nat → Reading α} {o : Option α}
    (h : ∀ p, (f p).Finds scope t u o) : (position >>= f).Finds scope t u o := by
  cases o with
  | none => exact fun c hc => h _ c hc
  | some a => exact fun c hc => h _ c hc

theorem finds_orFailAt (p : Nat) (f : Fault) (o : Option α) :
    (orFailAt p f o).Finds scope t t o := by
  cases o with
  | none => exact fun c _ => ⟨_, _, rfl⟩
  | some a => exact finds_pure a

/-- A reading that passes over blanks and comments first may start behind them. -/
theorem run_skipIgnorable_bind (f : Unit → Reading α) {c : Cursor}
    (hc : StartsToken c.skipIgnorable.rest) :
    (skipIgnorable >>= f).run { cursor := c, scope } =
      (skipIgnorable >>= f).run { cursor := c.skipIgnorable, scope } := by
  simp only [run_bind, skipIgnorable, move, ofCursor, Cursor.skipIgnorable_of_startsToken hc]

/-- What a reading takes in front of the rest, it finds behind a gap. -/
theorem Takes.finds {f : Unit → Reading α} (h : (skipIgnorable >>= f).Takes t rest scope a scope)
    (hg : IsGap g) (ht : StartsToken (t ++ rest)) :
    (skipIgnorable >>= f).Finds scope (g ++ (t ++ rest)) rest (some a) := by
  intro c hc
  have hskip := hc.skipIgnorable_rest hg ht
  obtain ⟨d, hd, hrest⟩ := h c.skipIgnorable hskip
  exact ⟨d, by rw [run_skipIgnorable_bind f (hskip ▸ ht), hd], Cursor.isBefore_of_rest hrest⟩

/-! ## Groups -/

theorem finds_group (hg : IsGap g) (h : Cursor.IsBalanced body) :
    group.Finds scope (g ++ (braced body ++ rest)) rest (some body) :=
  (takes_group h).finds hg (startsToken_cons (by decide) _)

/-- A group that breaks off is refused. -/
theorem finds_group_of_cut {b : List Char} (hg : IsGap g)
    (h : Cursor.IsBalanced (t ++ ']' :: b)) : group.Finds scope (g ++ '{' :: t) u none := by
  have hopen : Cursor.balancedLength? '{' '}' 0 t = none := by
    rw [Option.eq_none_iff_forall_ne_some]
    intro n hn
    obtain ⟨he, hl⟩ := (balancedLength?_eq_some_iff (']' :: b ++ ['}'])).mp hn
    rw [← List.append_assoc, Cursor.isBalanced_iff.mp h] at he
    have := Option.some.inj he
    rw [List.length_append] at this
    omega
  intro c hc
  have hskip := hc.skipIgnorable_rest hg (startsToken_cons (by decide) t)
  have hpeek : c.skipIgnorable.peek = some '{' := by rw [Cursor.peek, hskip]; rfl
  have hread : c.skipIgnorable.readBalanced? '{' '}' = (none, c.skipIgnorable) := by
    simp only [Cursor.readBalanced?, hskip, if_true, hopen]
  simp only [group, run_bind, skipIgnorable, move, ofCursor, position, reader, peek, run_pure,
    hpeek, if_true, hread]
  exact ⟨_, _, rfl⟩

/-- Without a brace there is no group. -/
theorem finds_group_of_head (hg : IsGap g) (ht : StartsToken t) (h : ∀ y ∈ t.head?, y ≠ '{') :
    group.Finds scope (g ++ t) u none := by
  intro c hc
  have hskip := hc.skipIgnorable_rest hg ht
  have hpeek : ¬c.skipIgnorable.peek = some '{' := by
    rw [Cursor.peek, hskip]
    exact fun he => h _ he rfl
  simp only [group, run_bind, skipIgnorable, move, ofCursor, position, reader, peek, run_pure,
    if_neg hpeek]
  exact ⟨_, _, rfl⟩

/-- A length is what its group says. -/
theorem Finds.length {o : Option (List Char)} (h : group.Finds scope t u o) :
    length.Finds scope t u (o.bind fun text => Length.read? (Text.trim text)) := by
  refine finds_position fun p => ?_
  cases o with
  | none => exact h.bind_none
  | some text => exact h.bind (finds_orFailAt p _ _)

/-! ## Stars -/

/-- Before a star only blanks are passed over. -/
theorem finds_eat {y : Char} (hg : ∀ z ∈ g, Text.isBlank z = true) (hy : Text.isBlank y = false) :
    (eat y).Finds scope (g ++ y :: rest) rest (some true) := by
  intro c hc
  have hskip : c.skipBlanks.rest = y :: rest := by
    rw [Cursor.skipBlanks_rest, hc, List.dropWhile_append_of_pos hg,
      List.dropWhile_cons_of_neg (by simp [hy])]
  have heat : c.skipBlanks.eat y = (true, c.skipBlanks.advance 1) := by
    rw [Cursor.eat, if_pos (by rw [Cursor.peek, hskip]; rfl)]
  refine ⟨c.skipBlanks.advance 1, ?_, Cursor.isBefore_of_rest ?_⟩
  · simp only [eat, run_bind, move, ofCursor, heat]
  · rw [Cursor.advance, hskip]
    rfl

/-- Where a comment or another token follows the blanks, there is no star. -/
theorem finds_eat_of_head {y : Char} (hy : y ≠ '%') (hg : IsGap g) (ht : StartsToken t)
    (h : ∀ z ∈ t.head?, z ≠ y) : (eat y).Finds scope (g ++ t) (g ++ t) (some false) := by
  have hhead : ∀ z ∈ ((g ++ t).dropWhile Text.isBlank).head?, z ≠ y := by
    induction hg with
    | nil =>
      cases t with
      | nil => simp
      | cons z t =>
        rw [List.nil_append, List.dropWhile_cons_of_neg (by simp [(ht z rfl).1])]
        exact h
    | blank hx _ ih =>
      rw [List.cons_append, List.dropWhile_cons_of_pos hx]
      exact ih
    | comment =>
      rw [List.cons_append, List.dropWhile_cons_of_neg (by decide)]
      rintro _ ⟨⟩
      exact hy.symm
  intro c hc
  have hskip : c.skipBlanks.rest = (g ++ t).dropWhile Text.isBlank := by
    rw [Cursor.skipBlanks_rest, hc]
  have heat : c.skipBlanks.eat y = (false, c.skipBlanks) := by
    rw [Cursor.eat, if_neg]
    rw [Cursor.peek, hskip]
    exact fun he => hhead _ he rfl
  refine ⟨c.skipBlanks, ?_, Cursor.isBefore_of_rest_eq hskip⟩
  simp only [eat, run_bind, move, ofCursor, heat]

end Reading

/-! ## Delimiters -/

namespace Cursor

/-- A name is read up to its end, or the blanks behind it. -/
theorem exists_readName? {name rest : List Char} (h : IsName name) {c : Cursor}
    (hc : c.rest = name ++ rest)
    (hrest : (Token.command name).endsInLetters = true → ∀ x ∈ rest.head?, x.isAlpha = false) :
    ∃ d : Cursor, c.readName? = (some name, d) ∧ d.IsBefore rest := by
  cases h with
  | word h =>
    have hletters : (Token.command name).endsInLetters = true := by
      obtain ⟨x, xs, rfl⟩ := List.exists_cons_of_ne_nil h.ne_nil
      exact h.isAlpha x (by simp)
    obtain ⟨q, hq⟩ := readName?_letters h.ne_nil h.isAlpha (hrest hletters) c.position
    exact ⟨_, by rw [← hq, ← hc], isBefore_of_rest_eq rfl⟩
  | @char x hx =>
    refine ⟨c.advance 1, ?_, isBefore_of_rest (by rw [advance, hc]; rfl)⟩
    rw [readName?, hc]
    simp [hx]

end Cursor

namespace Reading

open Canonical (braced)

variable {α : Type} {scope : Scope} {g t u rest : List Char}

theorem finds_delimiter {d : List Char} (hg : IsGap g) (hd : IsDelimiterText d)
    (hrest : (Token.delimiter d).endsInLetters = true → ∀ x ∈ rest.head?, x.isAlpha = false) :
    delimiter.Finds scope (g ++ (d ++ rest)) rest (delimiter? d) := by
  have htoken (c : Cursor) (hc : c.rest = d ++ rest) : ∃ e : Cursor, e.IsBefore rest ∧
      delimiterToken?.run { cursor := c, scope } = (.ok (some d), { cursor := e, scope }) := by
    cases hd with
    | @char y hy =>
      refine ⟨c.advance 1, Cursor.isBefore_of_rest (by rw [Cursor.advance, hc]; rfl), ?_⟩
      have hpeek : c.peek = some y := by rw [Cursor.peek, hc]; rfl
      have hne := hy.ne_backslash
      simp only [delimiterToken?, run_bind, next, ofCursor, Cursor.next, hpeek]
      rfl
    | @command name hname =>
      have hadvance : (c.advance 1).rest = name ++ rest := by rw [Cursor.advance, hc]; rfl
      obtain ⟨e, he, hb⟩ := Cursor.exists_readName? hname hadvance hrest
      refine ⟨e, hb, ?_⟩
      have hpeek : c.peek = some '\\' := by rw [Cursor.peek, hc]; rfl
      simp only [delimiterToken?, run_bind, next, ofCursor, Cursor.next, hpeek, commandName?, he]
      rfl
  have hstarts := hd.startsToken rest
  have hrun (c : Cursor) (hc : c.IsBefore (g ++ (d ++ rest))) : ∃ (p : Nat) (e : Cursor),
      e.IsBefore rest ∧ delimiter.run { cursor := c, scope } =
        (orFailAt p (.invalidDelimiter (String.ofList d)) (delimiter? d)).run
          { cursor := e, scope } := by
    obtain ⟨e, hb, he⟩ := htoken _ (hc.skipIgnorable_rest hg hstarts)
    refine ⟨c.skipIgnorable.position, e, hb, ?_⟩
    simp only [delimiter, run_bind, skipIgnorable, move, ofCursor, position, reader, run_pure, he]
    rfl
  cases hv : delimiter? d with
  | none =>
    intro c hc
    obtain ⟨p, e, hb, he⟩ := hrun c hc
    exact ⟨_, _, by rw [he, hv]; rfl⟩
  | some v =>
    intro c hc
    obtain ⟨p, e, hb, he⟩ := hrun c hc
    exact ⟨e, by rw [he, hv]; rfl, hb⟩

/-- At the end of the text there is no delimiter. -/
theorem finds_delimiter_of_nil (hg : IsGap g) : delimiter.Finds scope (g ++ []) u none := by
  intro c hc
  have hskip := hc.skipIgnorable_rest hg (by rintro _ ⟨⟩)
  have hpeek : c.skipIgnorable.peek = none := by rw [Cursor.peek, hskip]; rfl
  simp only [delimiter, run_bind, skipIgnorable, move, ofCursor, position, reader, run_pure,
    delimiterToken?, next, Cursor.next, hpeek]
  exact ⟨_, _, rfl⟩

/-! ## Options -/

/-- Without a bracket there is no option. -/
theorem finds_optional?_none (hg : IsGap g) (ht : StartsToken t)
    (h : ∀ y w, t = y :: w → y = '[' → Cursor.balancedLength? '[' ']' 0 w = none) :
    optional?.Finds scope (g ++ t) (g ++ t) (some none) := by
  intro c hc
  have hskip := hc.skipIgnorable_rest hg ht
  have hread : c.skipIgnorable.readBalanced? '[' ']' = (none, c.skipIgnorable) := by
    rcases Cursor.readBalanced?_cases '[' ']' c.skipIgnorable with hr | ⟨n, w, hr, hn, -⟩
    · exact hr
    · rw [h '[' w (hskip ▸ hr) rfl] at hn
      cases hn
  exact ⟨c, by simp only [optional?, ofCursor, Cursor.readOptional?, hread], hc⟩

/-- An option is read up to the bracket that closes it. -/
theorem finds_optional?_some (hg : IsGap g)
    (h : Cursor.balancedLength? '[' ']' 0 (t ++ ']' :: rest) = some t.length) :
    optional?.Finds scope (g ++ '[' :: (t ++ ']' :: rest)) rest (some (some t)) := by
  intro c hc
  have hskip := hc.skipIgnorable_rest hg (startsToken_cons (by decide) _)
  have hread := Cursor.readBalanced?_of_balancedLength? hskip h
  rw [List.take_left] at hread
  refine ⟨c.skipIgnorable.advance (t.length + 2), ?_, Cursor.isBefore_of_rest ?_⟩
  · simp only [optional?, ofCursor, Cursor.readOptional?, hread]
  · simp [Cursor.advance, hskip, List.drop_append]

end Reading

/-! ## Pieces and environments -/

namespace Language

open Reading

variable {l : Language} {scope : Scope} {t u v : List Char}

/-- A piece of markup is what it parses to. -/
theorem finds_fragment (l : Language) (cs : List Char) :
    (l.fragment cs).Finds scope t t ((l.answer? scope cs).bind Except.toOption) := by
  have hrun (c : Cursor) := l.run_fragment cs { cursor := c, scope }
  rcases ha : l.answer? scope cs with _ | e | a
  · exact fun c _ => ⟨_, _, by rw [hrun, ha]⟩
  · exact fun c _ => ⟨_, _, by rw [hrun, ha]⟩
  · exact fun c hc => ⟨c, by rw [hrun, ha], hc⟩

/-- The environment of a name starts, with its specification if it takes one. -/
def opening (name : List Char) (kind : TableKind) (spec : Option (List Char)) : Directive :=
  .openEnvironment (String.ofList (Text.trim name)) kind (kind.format spec)

variable {name : List Char} {kind : TableKind}

/-- An environment that the language does not know is refused. -/
theorem finds_openEnvironment_none (h : group.Finds scope t u (some name))
    (hkind : l.registry.environment? (String.ofList (Text.trim name)) = none) :
    l.openEnvironment.Finds scope t u none := by
  refine h.bind ?_
  simp only [hkind]
  exact finds_position fun p => fun c _ => ⟨_, _, rfl⟩

theorem finds_openEnvironment (h : group.Finds scope t u (some name))
    (hkind : l.registry.environment? (String.ofList (Text.trim name)) = some kind)
    (hspec : kind.takesSpec = false) :
    l.openEnvironment.Finds scope t u (some (opening name kind none)) := by
  refine h.bind ?_
  simp only [hkind, hspec]
  exact finds_pure _

/-- An environment with a specification needs its group. -/
theorem finds_openEnvironment_spec {o : Option (List Char)}
    (h : group.Finds scope t u (some name))
    (hkind : l.registry.environment? (String.ofList (Text.trim name)) = some kind)
    (hspec : kind.takesSpec = true) (ho : group.Finds scope u v o) :
    l.openEnvironment.Finds scope t v (o.map fun spec => opening name kind (some spec)) := by
  refine h.bind ?_
  simp only [hkind, hspec, if_true]
  have hmap := (ho.map some).map (opening name kind)
  rwa [Option.map_map] at hmap

end Language

end Typeset
