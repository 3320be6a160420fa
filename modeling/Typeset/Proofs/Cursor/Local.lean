import Typeset.Markup.Cursor

/-!
# Cursors and the text behind them

What a cursor reads is settled by the characters it passes over: if it stops before a text, it does
the same without that text (`Cursor.IsLocal`).

* `IsStable`: a number of characters to pass over that is settled by these characters.
* `balancedLength?_eq_some_iff`: the end of a group is settled by the group.
* `Cursor.isLocal_readArgument?` and its like: every reading of a cursor is local.
-/

namespace Typeset

/-! ## Numbers of characters to pass over -/

/-- The number is settled by the characters it counts: without the text behind them, or with more
of it, it is the same. -/
def IsStable (f : List Char → Nat) : Prop :=
  ∀ xs ys, f (xs ++ ys) ≤ xs.length ∨ f xs < xs.length → f xs = f (xs ++ ys)

theorem takeWhile_of_append {p : Char → Bool} {xs ys : List Char}
    (h : ((xs ++ ys).takeWhile p).length ≤ xs.length ∨ (xs.takeWhile p).length < xs.length) :
    xs.takeWhile p = (xs ++ ys).takeWhile p := by
  rw [List.takeWhile_append] at h ⊢
  split
  · rename_i hl
    rw [if_pos hl, List.length_append] at h
    have hy : ys.takeWhile p = [] := List.eq_nil_of_length_eq_zero (by omega)
    rw [hy, List.append_nil]
    exact (List.takeWhile_prefix p).eq_of_length hl
  · rfl

theorem isStable_takeWhile (p : Char → Bool) : IsStable fun cs => (cs.takeWhile p).length :=
  fun _ _ h => congrArg List.length (takeWhile_of_append h)

theorem lineLength_cons (c : Char) (cs : List Char) :
    Cursor.lineLength (c :: cs) = if c = '\n' then 1 else 1 + Cursor.lineLength cs := by
  by_cases hc : c = '\n'
  · subst hc
    rfl
  · rw [if_neg hc, Cursor.lineLength]
    simpa using hc

theorem isStable_lineLength : IsStable Cursor.lineLength := by
  intro xs ys h
  induction xs with
  | nil => exact (Nat.le_zero.mp (h.resolve_right (Nat.not_lt_zero _))).symm
  | cons c cs ih =>
    rw [List.cons_append, lineLength_cons, lineLength_cons, List.length_cons] at h
    rw [List.cons_append, lineLength_cons, lineLength_cons]
    by_cases hc : c = '\n'
    · rw [if_pos hc, if_pos hc]
    · rw [if_neg hc, if_neg hc] at h
      rw [if_neg hc, if_neg hc, ih (by omega)]

mutual

theorem ignorableLength_of_append (xs ys : List Char)
    (h : Cursor.ignorableLength (xs ++ ys) ≤ xs.length ∨
      Cursor.ignorableLength xs < xs.length) :
    Cursor.ignorableLength xs = Cursor.ignorableLength (xs ++ ys) := by
  cases xs with
  | nil => exact (Nat.le_zero.mp (h.resolve_right (Nat.not_lt_zero _))).symm
  | cons c cs =>
    simp only [List.cons_append, Cursor.ignorableLength, List.length_cons] at h ⊢
    by_cases hb : Text.isBlank c = true
    · rw [if_pos hb, if_pos hb] at h
      rw [if_pos hb, if_pos hb, ignorableLength_of_append cs ys (by omega)]
    · by_cases hc : c = '%'
      · rw [if_neg hb, if_pos hc, if_neg hb, if_pos hc] at h
        rw [if_neg hb, if_neg hb, if_pos hc, if_pos hc, commentLength_of_append cs ys (by omega)]
      · rw [if_neg hb, if_neg hb, if_neg hc, if_neg hc]

theorem commentLength_of_append (xs ys : List Char)
    (h : Cursor.commentLength (xs ++ ys) ≤ xs.length ∨ Cursor.commentLength xs < xs.length) :
    Cursor.commentLength xs = Cursor.commentLength (xs ++ ys) := by
  cases xs with
  | nil => exact (Nat.le_zero.mp (h.resolve_right (Nat.not_lt_zero _))).symm
  | cons c cs =>
    simp only [List.cons_append, Cursor.commentLength, List.length_cons] at h ⊢
    by_cases hc : c = '\n'
    · rw [if_pos hc, if_pos hc] at h
      rw [if_pos hc, if_pos hc, ignorableLength_of_append cs ys (by omega)]
    · rw [if_neg hc, if_neg hc] at h
      rw [if_neg hc, if_neg hc, commentLength_of_append cs ys (by omega)]

end

theorem isStable_ignorableLength : IsStable Cursor.ignorableLength := ignorableLength_of_append

/-- Two numbers that agree below a bound agree below the moved bound when both are moved. -/
private theorem map_add_eq_some_iff {o o' : Option Nat} {bound : Nat} (k : Nat) {n : Nat}
    (h : ∀ {n}, o = some n ↔ o' = some n ∧ n < bound) :
    o.map (· + k) = some n ↔ o'.map (· + k) = some n ∧ n < bound + k := by
  simp only [Option.map_eq_some_iff, h]
  constructor
  · rintro ⟨m, ⟨hm, hl⟩, rfl⟩
    exact ⟨⟨m, hm, rfl⟩, by omega⟩
  · rintro ⟨⟨m, hm, rfl⟩, hl⟩
    exact ⟨m, ⟨hm, by omega⟩, rfl⟩

theorem balancedLength?_backslash (opening closing : Char) (depth : Nat) (c : Char)
    (cs : List Char) : Cursor.balancedLength? opening closing depth ('\\' :: c :: cs) =
      (Cursor.balancedLength? opening closing depth cs).map (· + 2) := by
  rw [Cursor.balancedLength?.eq_def]
  rfl

theorem balancedLength?_cons {opening closing c : Char} (h : ¬c = '\\') (depth : Nat)
    (cs : List Char) : Cursor.balancedLength? opening closing depth (c :: cs) =
      if c = opening ∧ opening ≠ closing then
        (Cursor.balancedLength? opening closing (depth + 1) cs).map (· + 1)
      else if c = closing then
        match depth with
        | 0 => some 0
        | depth + 1 => (Cursor.balancedLength? opening closing depth cs).map (· + 1)
      else (Cursor.balancedLength? opening closing depth cs).map (· + 1) := by
  rw [Cursor.balancedLength?.eq_def]
  exact if_neg h

/-- A group that is closed within a text is closed there, and only there, with more text behind
it. -/
theorem balancedLength?_eq_some_iff {opening closing : Char} {depth n : Nat} {xs : List Char}
    (ys : List Char) : Cursor.balancedLength? opening closing depth xs = some n ↔
      Cursor.balancedLength? opening closing depth (xs ++ ys) = some n ∧ n < xs.length := by
  fun_induction Cursor.balancedLength? opening closing depth xs generalizing n with
  | case1 => simp
  | case2 depth =>
    cases ys with
    | nil => simp [Cursor.balancedLength?]
    | cons y ys =>
      rw [List.cons_append, List.nil_append, balancedLength?_backslash, Option.map_eq_some_iff]
      constructor
      · rintro ⟨⟩
      · rintro ⟨⟨m, -, rfl⟩, hm⟩
        exact absurd hm (by simp)
  | case3 depth c cs ih =>
    rw [List.cons_append, List.cons_append, balancedLength?_backslash]
    exact map_add_eq_some_iff 2 ih
  | case4 depth c cs hb ho ih =>
    rw [List.cons_append, balancedLength?_cons hb, if_pos ho]
    exact map_add_eq_some_iff 1 ih
  | case5 cs hb ho =>
    rw [List.cons_append, balancedLength?_cons hb, if_neg ho, if_pos rfl]
    constructor
    · rintro ⟨⟩
      exact ⟨rfl, by simp⟩
    · exact fun h => h.1
  | case6 cs depth hb ho ih =>
    rw [List.cons_append, balancedLength?_cons hb, if_neg ho, if_pos rfl]
    exact map_add_eq_some_iff 1 ih
  | case7 depth c cs hb ho hc ih =>
    rw [List.cons_append, balancedLength?_cons hb, if_neg ho, if_neg hc]
    exact map_add_eq_some_iff 1 ih

/-! ## Cursors -/

namespace Cursor

variable {α : Type} {c d : Cursor} {v : List Char}

/-- The cursor with more text behind what it has to read. -/
def extend (c : Cursor) (v : List Char) : Cursor := { c with rest := c.rest ++ v }

@[simp] theorem extend_rest (c : Cursor) (v : List Char) : (c.extend v).rest = c.rest ++ v := rfl

@[simp] theorem extend_position (c : Cursor) (v : List Char) :
    (c.extend v).position = c.position := rfl

@[simp] theorem extend_nil (c : Cursor) : c.extend [] = c := by simp [extend]

theorem extend_inj : c.extend v = d.extend v ↔ c = d := by
  constructor
  · intro h
    simp only [extend, Cursor.mk.injEq, List.append_cancel_right_eq] at h
    obtain ⟨hr, hp⟩ := h
    cases c
    cases d
    cases hr
    cases hp
    rfl
  · exact fun h => h ▸ rfl

/-- What is still unread was unread before. -/
theorem Follows.exists_extend (h : (d.extend v).Follows c) :
    ∃ c' : Cursor, c = c'.extend v := by
  obtain ⟨read, hr, -⟩ := h
  refine ⟨{ c with rest := read ++ d.rest }, ?_⟩
  simp only [extend]
  rw [List.append_assoc]
  cases c
  cases hr
  rfl

/-- A reading stops before a text only if it does the same without it. -/
def IsLocal (f : Cursor → α × Cursor) : Prop :=
  ∀ c d v a, f (c.extend v) = (a, d.extend v) → f c = (a, d)

/-- Characters are passed over before a text as they are without it. -/
theorem advance_of_extend {n : Nat} (h : (c.extend v).advance n = d.extend v) :
    c.advance n = d ∧ (v = [] ∨ n ≤ c.rest.length) := by
  by_cases hv : v = []
  · subst hv
    exact ⟨by simpa using h, .inl rfl⟩
  · simp only [advance, extend, Cursor.mk.injEq] at h
    obtain ⟨hr, hp⟩ := h
    have hn : n ≤ c.rest.length := by
      have hl := congrArg List.length hr
      have hpos := List.length_pos_iff.mpr hv
      simp only [List.length_drop, List.length_append] at hl
      omega
    rw [List.drop_append_of_le_length hn, List.append_cancel_right_eq] at hr
    rw [List.take_append_of_le_length hn] at hp
    refine ⟨?_, .inr hn⟩
    cases d
    cases hr
    cases hp
    rfl

/-- A move over a number of characters that is settled by them. -/
theorem advance_stable_of_extend {f : List Char → Nat} (hf : IsStable f)
    (h : (c.extend v).advance (f (c.extend v).rest) = d.extend v) :
    c.advance (f c.rest) = d ∧ f c.rest = f (c.extend v).rest ∧
      (v = [] ∨ f c.rest ≤ c.rest.length) := by
  obtain ⟨he, rfl | hn⟩ := advance_of_extend h
  · simpa using h
  · have hs : f c.rest = f (c.extend v).rest := hf _ _ (.inl hn)
    exact ⟨hs ▸ he, hs, .inr (hs ▸ hn)⟩

theorem peek_extend (h : v = [] ∨ 0 < c.rest.length) : (c.extend v).peek = c.peek := by
  rcases h with rfl | h
  · rw [extend_nil]
  · cases hc : c.rest with
    | nil => simp [hc] at h
    | cons x xs => simp [peek, hc]

theorem skipBlanks_of_extend (h : (c.extend v).skipBlanks = d.extend v) : c.skipBlanks = d :=
  (advance_stable_of_extend (isStable_takeWhile Text.isBlank) h).1

theorem skipIgnorable_of_extend (h : (c.extend v).skipIgnorable = d.extend v) :
    c.skipIgnorable = d :=
  (advance_stable_of_extend isStable_ignorableLength h).1

theorem isLocal_skip {f : List Char → Nat} (hf : IsStable f) :
    IsLocal fun c => ((), c.advance (f c.rest)) := by
  intro c d v a h
  rw [Prod.mk.injEq] at h ⊢
  exact ⟨h.1, (advance_stable_of_extend hf h.2).1⟩

theorem isLocal_skipBlanks : IsLocal fun c => ((), c.skipBlanks) :=
  isLocal_skip (isStable_takeWhile Text.isBlank)

theorem isLocal_skipIgnorable : IsLocal fun c => ((), c.skipIgnorable) :=
  isLocal_skip isStable_ignorableLength

theorem isLocal_skipLine : IsLocal fun c => ((), c.skipLine) := isLocal_skip isStable_lineLength

theorem isLocal_next : IsLocal next := by
  intro c d v a h
  simp only [next, Prod.mk.injEq] at h ⊢
  obtain ⟨rfl, h⟩ := h
  obtain ⟨he, hn⟩ := advance_of_extend h
  exact ⟨(peek_extend hn).symm, he⟩

theorem isLocal_eat (x : Char) : IsLocal (eat x) := by
  intro c d v a h
  unfold eat at h ⊢
  by_cases hx : (c.extend v).peek = some x
  · rw [if_pos hx, Prod.mk.injEq] at h
    obtain ⟨rfl, h⟩ := h
    obtain ⟨he, hn⟩ := advance_of_extend h
    rw [peek_extend hn] at hx
    rw [if_pos hx, he]
  · rw [if_neg hx, Prod.mk.injEq, extend_inj] at h
    obtain ⟨rfl, rfl⟩ := h
    refine if_neg fun hc => hx ?_
    cases hr : c.rest with
    | nil => simp [peek, hr] at hc
    | cons y ys => rw [peek_extend (.inr (by simp [hr])), hc]

theorem isLocal_readUntil (stop : Char) : IsLocal (readUntil stop) := by
  intro c d v a h
  simp only [readUntil, Prod.mk.injEq] at h ⊢
  obtain ⟨rfl, h⟩ := h
  obtain ⟨he, -, hn⟩ := advance_stable_of_extend (isStable_takeWhile (· ≠ stop)) h
  refine ⟨?_, he⟩
  rcases hn with rfl | hn
  · simp
  · obtain ⟨-, hs, -⟩ := advance_stable_of_extend (isStable_takeWhile (· ≠ stop)) h
    exact takeWhile_of_append (.inl (hs ▸ hn))

theorem advance_rest_length_lt {n : Nat} (hc : c.rest ≠ []) (hn : 0 < n) :
    (c.advance n).rest.length < c.rest.length := by
  have hpos := List.length_pos_iff.mpr hc
  simp only [advance, List.length_drop]
  omega

/-- A name takes at least one character. -/
theorem readName?_rest_length_lt (hc : c.rest ≠ []) :
    c.readName?.2.rest.length < c.rest.length := by
  unfold readName?
  split
  · rename_i hr
    exact absurd hr hc
  · rename_i x xs hr
    split
    · rename_i hx
      refine Nat.lt_of_le_of_lt (skipBlanks_follows _).length_le (advance_rest_length_lt hc ?_)
      rw [hr, List.takeWhile_cons_of_pos hx]
      exact Nat.succ_pos _
    · exact advance_rest_length_lt hc Nat.one_pos

/-- What reads a character before a text has one to read without it. -/
theorem rest_ne_nil_of_extend {e : Cursor} (h : e.rest.length < (c.extend v).rest.length)
    (he : e = d.extend v) : c.rest ≠ [] := by
  subst he
  intro hc
  simp only [extend_rest, hc, List.length_append, List.length_nil] at h
  omega

theorem isLocal_readName? : IsLocal readName? := by
  intro c d v a h
  by_cases hv : v = []
  · subst hv
    simpa using h
  have hc : c.rest ≠ [] :=
    rest_ne_nil_of_extend (readName?_rest_length_lt (by simp [hv])) (congrArg Prod.snd h)
  obtain ⟨x, xs, hr⟩ := List.exists_cons_of_ne_nil hc
  unfold readName? at h ⊢
  simp only [extend_rest, hr, List.cons_append] at h ⊢
  by_cases hx : x.isAlpha = true
  · rw [if_pos hx, Prod.mk.injEq] at h
    obtain ⟨rfl, h⟩ := h
    obtain ⟨e, he⟩ := Follows.exists_extend (h ▸ skipBlanks_follows _)
    have hn := advance_of_extend he
    rw [← List.cons_append, ← hr] at hn h he ⊢
    have ht : c.rest.takeWhile Char.isAlpha = (c.rest ++ v).takeWhile Char.isAlpha :=
      takeWhile_of_append (.inl (hn.2.resolve_left hv))
    rw [if_pos hx, ht, hn.1]
    rw [he] at h
    rw [skipBlanks_of_extend h]
  · rw [if_neg hx, Prod.mk.injEq] at h
    obtain ⟨rfl, h⟩ := h
    rw [if_neg hx, (advance_of_extend h).1]

/-- A group is read as a whole, or nothing is. -/
theorem readBalanced?_cases (opening closing : Char) (c : Cursor) :
    c.readBalanced? opening closing = (none, c) ∨
      ∃ n xs, c.rest = opening :: xs ∧ balancedLength? opening closing 0 xs = some n ∧
        c.readBalanced? opening closing = (some (xs.take n), c.advance (n + 2)) := by
  unfold readBalanced?
  split
  · exact .inl rfl
  · rename_i x xs hr
    split
    · rename_i hx
      split
      · exact .inl rfl
      · rename_i n hn
        exact .inr ⟨n, xs, by rw [hr, hx], hn, rfl⟩
    · exact .inl rfl

theorem readBalanced?_of_balancedLength? {opening closing : Char} {n : Nat} {xs : List Char}
    (hr : c.rest = opening :: xs) (hn : balancedLength? opening closing 0 xs = some n) :
    c.readBalanced? opening closing = (some (xs.take n), c.advance (n + 2)) := by
  unfold readBalanced?
  simp only [hr, if_true, hn]

/-- A group that is closed is read also with more text behind it. -/
theorem readBalanced?_extend {opening closing : Char} {n : Nat} {xs : List Char}
    (hr : c.rest = opening :: xs) (hn : balancedLength? opening closing 0 xs = some n)
    (v : List Char) : ((c.extend v).readBalanced? opening closing).1 = some (xs.take n) := by
  obtain ⟨he, hl⟩ := (balancedLength?_eq_some_iff v).mp hn
  rw [readBalanced?_of_balancedLength? (by rw [extend_rest, hr]; rfl) he,
    List.take_append_of_le_length (Nat.le_of_lt hl)]

theorem isLocal_readBalanced? (opening closing : Char) :
    IsLocal (readBalanced? opening closing) := by
  intro c d v a h
  by_cases hv : v = []
  · subst hv
    simpa using h
  rcases readBalanced?_cases opening closing (c.extend v) with he | ⟨n, xs', hr', hn', he⟩
  · rw [he, Prod.mk.injEq, extend_inj] at h
    obtain ⟨rfl, rfl⟩ := h
    rcases readBalanced?_cases opening closing c with hc | ⟨n, xs, hr, hn, -⟩
    · exact hc
    · have := readBalanced?_extend hr hn v
      rw [he] at this
      cases this
  · rw [he, Prod.mk.injEq] at h
    obtain ⟨rfl, h⟩ := h
    obtain ⟨hd, hl⟩ := advance_of_extend h
    have hl := hl.resolve_left hv
    cases hr : c.rest with
    | nil => simp [hr] at hl
    | cons x xs =>
      simp only [extend_rest, hr, List.cons_append, List.cons.injEq] at hr'
      obtain ⟨rfl, rfl⟩ := hr'
      rw [hr, List.length_cons] at hl
      have hn := (balancedLength?_eq_some_iff v).mpr ⟨hn', by omega⟩
      rw [readBalanced?_of_balancedLength? hr hn, hd,
        List.take_append_of_le_length (by omega)]

theorem isLocal_readOptional? : IsLocal readOptional? := by
  intro c d v a h
  unfold readOptional? at h ⊢
  have hf := readBalanced?_follows '[' ']' (c.extend v).skipIgnorable
  rcases he : (c.extend v).skipIgnorable.readBalanced? '[' ']' with ⟨_ | body, e⟩
  · simp only [he, Prod.mk.injEq, extend_inj] at h
    obtain ⟨rfl, rfl⟩ := h
    rcases readBalanced?_cases '[' ']' c.skipIgnorable with hc | ⟨n, xs, hr, hn, -⟩
    · rw [hc]
    · -- What is passed over before the brackets is the same with more text behind them.
      have hi : ignorableLength c.rest < c.rest.length := by
        have := congrArg List.length hr
        simp only [skipIgnorable, advance, List.length_drop, List.length_cons] at this
        omega
      have hs : (c.extend v).skipIgnorable = c.skipIgnorable.extend v := by
        simp only [skipIgnorable, advance, extend,
          ← isStable_ignorableLength c.rest v (.inr hi),
          List.drop_append_of_le_length (Nat.le_of_lt hi),
          List.take_append_of_le_length (Nat.le_of_lt hi)]
      have := readBalanced?_extend hr hn v
      rw [← hs, he] at this
      cases this
  · simp only [he, Prod.mk.injEq] at h
    obtain ⟨rfl, rfl⟩ := h
    rw [he] at hf
    obtain ⟨t, ht⟩ := hf.exists_extend
    rw [ht] at he
    rw [skipIgnorable_of_extend ht, isLocal_readBalanced? '[' ']' t d v _ he]

theorem readName?_backslash_rest_length_lt (hc : c.rest ≠ []) :
    (c.advance 1).readName?.2.rest.length < c.rest.length :=
  Nat.lt_of_le_of_lt (readName?_follows _).length_le (advance_rest_length_lt hc Nat.one_pos)

theorem isLocal_readArgument? : IsLocal readArgument? := by
  intro c d v a h
  by_cases hv : v = []
  · subst hv
    simpa using h
  obtain ⟨t, ht⟩ : ∃ t : Cursor, (c.extend v).skipIgnorable = t.extend v := by
    have hf : (c.extend v).readArgument?.2.Follows (c.extend v).skipIgnorable := by
      unfold readArgument?
      simp only
      split
      · exact .refl _
      · exact readBalanced?_follows _ _ _
      · exact (readName?_follows _).trans (advance_follows _ _)
      · exact advance_follows _ _
    rw [h] at hf
    exact hf.exists_extend
  have hd := skipIgnorable_of_extend ht
  unfold readArgument? at h ⊢
  rw [ht] at h
  rw [hd]
  have hne : (t.extend v).rest ≠ [] := by simp [hv]
  -- Only an opening brace can be met without being read.
  have hpeek : t.rest ≠ [] → (t.extend v).peek = t.peek := fun hr =>
    peek_extend (.inr (List.length_pos_iff.mpr hr))
  simp only at h ⊢
  split at h
  · rename_i hp
    cases hr : (t.extend v).rest with
    | nil => exact absurd hr hne
    | cons x xs =>
      rw [peek, hr] at hp
      cases hp
  · rename_i hp
    have hl := isLocal_readBalanced? '{' '}' t d v a h
    by_cases hr : t.rest = []
    · simp only [readBalanced?, hr] at hl
      simpa [peek, hr] using hl
    · rw [← hpeek hr, hp]
      exact hl
  · rename_i hp
    have hr : t.rest ≠ [] :=
      rest_ne_nil_of_extend (readName?_backslash_rest_length_lt hne) (congrArg Prod.snd h)
    rw [← hpeek hr, hp]
    simp only [Prod.mk.injEq] at h ⊢
    obtain ⟨rfl, h⟩ := h
    obtain ⟨e, he⟩ := Follows.exists_extend (h ▸ readName?_follows _)
    rw [he] at h ⊢
    rw [(advance_of_extend he).1, isLocal_readName? e d v _ (Prod.ext rfl h)]
    exact ⟨rfl, rfl⟩
  · rename_i x hx hb hp
    have hr : t.rest ≠ [] :=
      rest_ne_nil_of_extend (advance_rest_length_lt hne Nat.one_pos) (congrArg Prod.snd h)
    simp only [Prod.mk.injEq] at h
    obtain ⟨rfl, h⟩ := h
    rw [← hpeek hr, hp, (advance_of_extend h).1]
    split
    · rename_i hn
      cases hn
    · rename_i hn
      exact (hx (Option.some.inj hn)).elim
    · rename_i hn
      exact (hb (Option.some.inj hn)).elim
    · rename_i hn
      rw [Option.some.inj hn]

/-- A group that is read takes its braces at least. -/
theorem readBalanced?_rest_length_lt {opening closing : Char} {body : List Char}
    (h : c.readBalanced? opening closing = (some body, d)) : d.rest.length < c.rest.length := by
  rcases readBalanced?_cases opening closing c with hc | ⟨n, xs, hr, -, hc⟩
  · rw [hc] at h
    cases h
  · rw [hc] at h
    cases h
    exact advance_rest_length_lt (by simp [hr]) (Nat.succ_pos _)

/-- An argument takes at least one character. -/
theorem readArgument?_rest_length_lt {body : List Char} (h : c.readArgument? = (some body, d)) :
    d.rest.length < c.rest.length := by
  refine Nat.lt_of_lt_of_le ?_ (skipIgnorable_follows c).length_le
  have hne {x : Char} (hp : c.skipIgnorable.peek = some x) : c.skipIgnorable.rest ≠ [] := by
    intro hr
    rw [peek, hr] at hp
    cases hp
  unfold readArgument? at h
  simp only at h
  split at h
  · cases h
  · exact readBalanced?_rest_length_lt h
  · rename_i hp
    obtain rfl := congrArg Prod.snd h
    exact readName?_backslash_rest_length_lt (hne hp)
  · rename_i hp
    obtain rfl := congrArg Prod.snd h
    exact advance_rest_length_lt (hne hp) Nat.one_pos

end Cursor

end Typeset
