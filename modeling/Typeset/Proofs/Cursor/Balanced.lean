import Typeset.Proofs.Cursor.Gaps

/-!
# Balanced groups

What a group between two delimiters is, as a grammar, and that the reading by a count of open
delimiters comes to it.

* `IsBody`: the texts that stand between two delimiters.
* `EndsInEscape`: a backslash takes the character behind the text along.
* `balancedLength?_eq_some_iff_isBody`: the count finds the end of a body.
* `Cursor.readBalanced?_eq_some_iff`, `Cursor.readOptional?_eq_some_iff`: what is read of a group,
  and of an option.
* `Cursor.readsGroups`: both, with the cursor left alone where there is none.
-/

namespace Typeset

/-- The texts between two delimiters: characters that are no delimiters, characters with a backslash
in front, and groups. Equal delimiters do not nest. -/
inductive IsBody (opening closing : Char) : List Char → Prop where
  | nil : IsBody opening closing []
  | char {x : Char} {cs : List Char} : x ≠ '\\' → x ≠ opening → x ≠ closing →
      IsBody opening closing cs → IsBody opening closing (x :: cs)
  | escaped (x : Char) {cs : List Char} : IsBody opening closing cs →
      IsBody opening closing ('\\' :: x :: cs)
  | group {body cs : List Char} : opening ≠ closing → IsBody opening closing body →
      IsBody opening closing cs → IsBody opening closing (opening :: (body ++ closing :: cs))

/-- The texts up to the delimiter that closes the last of some groups: a body in front of each
delimiter that closes one. -/
inductive ClosesGroups (opening closing : Char) : Nat → List Char → Prop where
  | body {cs : List Char} : IsBody opening closing cs → ClosesGroups opening closing 0 cs
  | close {depth : Nat} {body cs : List Char} : IsBody opening closing body →
      ClosesGroups opening closing depth cs →
      ClosesGroups opening closing (depth + 1) (body ++ closing :: cs)

section Grammar

variable {opening closing : Char} {depth n : Nat} {body cs tail : List Char}

namespace ClosesGroups

/-- What may stand in front of every body may stand in front of the first one. -/
theorem prepend (h : ClosesGroups opening closing depth cs) (front : List Char)
    (hfront : ∀ {cs}, IsBody opening closing cs → IsBody opening closing (front ++ cs)) :
    ClosesGroups opening closing depth (front ++ cs) := by
  cases h with
  | body hb => exact .body (hfront hb)
  | close hb ht =>
    rw [← List.append_assoc]
    exact .close (hfront hb) ht

/-- One more group is closed by the first closing delimiter. -/
theorem group (hne : opening ≠ closing) (h : ClosesGroups opening closing (depth + 1) cs) :
    ClosesGroups opening closing depth (opening :: cs) := by
  cases h with
  | @close _ body cs hb ht =>
    have hfront {ds : List Char} (hd : IsBody opening closing ds) :
        IsBody opening closing ((opening :: (body ++ [closing])) ++ ds) := by
      simpa using IsBody.group hne hb hd
    simpa using ht.prepend _ hfront

end ClosesGroups

/-! ## The count of open delimiters -/

/-- The delimiter at which the count ends has all the open groups closed in front of it. -/
theorem exists_closesGroups_of_balancedLength?
    (h : Cursor.balancedLength? opening closing depth cs = some n) :
    ∃ body tail, cs = body ++ closing :: tail ∧ body.length = n ∧
      ClosesGroups opening closing depth body := by
  fun_induction Cursor.balancedLength? opening closing depth cs generalizing n with
  | case1 | case2 => cases h
  | case3 depth c cs ih =>
    obtain ⟨m, hm, rfl⟩ := Option.map_eq_some_iff.mp h
    obtain ⟨body, tail, rfl, rfl, hbody⟩ := ih hm
    exact ⟨'\\' :: c :: body, tail, rfl, rfl, hbody.prepend ['\\', c] (.escaped c)⟩
  | case4 depth c cs hb ho ih =>
    obtain ⟨rfl, hne⟩ := ho
    obtain ⟨m, hm, rfl⟩ := Option.map_eq_some_iff.mp h
    obtain ⟨body, tail, rfl, rfl, hbody⟩ := ih hm
    exact ⟨c :: body, tail, rfl, rfl, hbody.group hne⟩
  | case5 cs hb ho =>
    cases h
    exact ⟨[], cs, rfl, rfl, .body .nil⟩
  | case6 cs hb ho depth ih =>
    obtain ⟨m, hm, rfl⟩ := Option.map_eq_some_iff.mp h
    obtain ⟨body, tail, rfl, rfl, hbody⟩ := ih hm
    exact ⟨closing :: body, tail, rfl, rfl, .close .nil hbody⟩
  | case7 depth c cs hb ho hc ih =>
    obtain ⟨m, hm, rfl⟩ := Option.map_eq_some_iff.mp h
    obtain ⟨body, tail, rfl, rfl, hbody⟩ := ih hm
    by_cases hopen : c = opening
    · exact absurd (not_not.mp fun hne => ho ⟨hopen, hne⟩) fun he => hc (hopen.trans he)
    · exact ⟨c :: body, tail, rfl, rfl, hbody.prepend [c] (.char hb hopen hc)⟩

/-- Characters without delimiters and backslashes are a body. -/
theorem isBody_of_forall (h : ∀ x ∈ cs, x ≠ '\\' ∧ x ≠ opening ∧ x ≠ closing) :
    IsBody opening closing cs := by
  induction cs with
  | nil => exact .nil
  | cons x cs ih =>
    obtain ⟨⟨hb, ho, hc⟩, hcs⟩ := List.forall_mem_cons.mp h
    exact .char hb ho hc (ih hcs)

/-- The count is the same behind a body as in front of it. -/
theorem IsBody.balancedLength?_append (ho : opening ≠ '\\') (hc : closing ≠ '\\')
    (h : IsBody opening closing body) (depth : Nat) (cs : List Char) :
    Cursor.balancedLength? opening closing depth (body ++ cs) =
      (Cursor.balancedLength? opening closing depth cs).map (· + body.length) := by
  induction h generalizing depth cs with
  | nil => simp
  | char hb hopen hclose _ ih =>
    rw [List.cons_append, balancedLength?_cons hb, if_neg fun h => hopen h.1, if_neg hclose, ih,
      Option.map_map]
    rfl
  | escaped x _ ih =>
    rw [List.cons_append, List.cons_append, balancedLength?_backslash, ih, Option.map_map]
    rfl
  | @group body ds hne _ _ ihbody ih =>
    rw [List.cons_append, balancedLength?_cons ho, if_pos ⟨rfl, hne⟩, List.append_assoc, ihbody,
      List.cons_append, balancedLength?_cons hc, if_neg fun h => hne h.1.symm, if_pos rfl]
    simp only [ih, Option.map_map]
    congr 1
    funext k
    simp only [Function.comp_apply, List.length_cons, List.length_append]
    omega

/-- The count ends at the delimiter behind a body. -/
theorem IsBody.balancedLength? (ho : opening ≠ '\\') (hc : closing ≠ '\\')
    (h : IsBody opening closing body) (tail : List Char) :
    Cursor.balancedLength? opening closing 0 (body ++ closing :: tail) = some body.length := by
  rw [h.balancedLength?_append ho hc, balancedLength?_cons hc, if_neg fun h => h.2 h.1.symm,
    if_pos rfl]
  simp

theorem balancedLength?_eq_some_iff_isBody (ho : opening ≠ '\\') (hc : closing ≠ '\\') :
    Cursor.balancedLength? opening closing 0 cs = some n ↔
      ∃ body tail, cs = body ++ closing :: tail ∧ body.length = n ∧
        IsBody opening closing body := by
  constructor
  · intro h
    obtain ⟨body, tail, hcs, hn, hbody⟩ := exists_closesGroups_of_balancedLength? h
    cases hbody with
    | body hb => exact ⟨body, tail, hcs, hn, hb⟩
  · rintro ⟨body, tail, rfl, rfl, hbody⟩
    exact hbody.balancedLength? ho hc tail

/-- A text starts with one closed body at most. -/
theorem IsBody.unique (ho : opening ≠ '\\') (hc : closing ≠ '\\') {body' tail' : List Char}
    (h : IsBody opening closing body) (h' : IsBody opening closing body')
    (he : body ++ closing :: tail = body' ++ closing :: tail') : body = body' ∧ tail = tail' := by
  have hlen : body.length = body'.length := by
    have := he ▸ h.balancedLength? ho hc tail
    rw [h'.balancedLength? ho hc tail'] at this
    exact (Option.some.inj this).symm
  obtain ⟨hbody, htail⟩ := List.append_inj he hlen
  exact ⟨hbody, (List.cons.inj htail).2⟩

end Grammar

/-! ## Equal delimiters -/

/-- A backslash takes the character behind the text along: an odd number of backslashes end the
text. -/
def EndsInEscape (cs : List Char) : Prop := (cs.reverse.takeWhile (· = '\\')).length % 2 = 1

instance (cs : List Char) : Decidable (EndsInEscape cs) :=
  inferInstanceAs (Decidable ((cs.reverse.takeWhile (· = '\\')).length % 2 = 1))

section Equal

variable {delimiter x : Char} {body cs : List Char}

theorem not_endsInEscape_nil : ¬EndsInEscape [] := by decide

theorem endsInEscape_backslash : EndsInEscape ['\\'] := by decide

theorem endsInEscape_cons (hx : x ≠ '\\') : EndsInEscape (x :: cs) ↔ EndsInEscape cs := by
  have hnil : [x].takeWhile (· = '\\') = [] := List.takeWhile_cons_of_neg (by simp [hx])
  rw [EndsInEscape, EndsInEscape, List.reverse_cons, List.takeWhile_append, hnil, List.append_nil]
  split
  · rename_i hall
    rw [hall]
  · rfl

theorem endsInEscape_escaped (x : Char) (cs : List Char) :
    EndsInEscape ('\\' :: x :: cs) ↔ EndsInEscape cs := by
  by_cases hx : x = '\\'
  · -- Two backslashes more are counted, or none.
    subst hx
    have hpair : ['\\', '\\'].takeWhile (· = '\\') = ['\\', '\\'] := by decide
    rw [EndsInEscape, EndsInEscape, List.reverse_cons, List.reverse_cons, List.append_assoc,
      List.singleton_append, List.takeWhile_append, hpair]
    split
    · rename_i hall
      rw [List.length_append, hall]
      simp
    · rfl
  · have hend : [x, '\\'].takeWhile (· = '\\') = [] := List.takeWhile_cons_of_neg (by simp [hx])
    rw [EndsInEscape, EndsInEscape, List.reverse_cons, List.reverse_cons, List.append_assoc,
      List.singleton_append, List.takeWhile_append, hend, List.append_nil]
    split
    · rename_i hall
      rw [hall]
    · rfl

/-- A text in which a backslash takes every delimiter along, and does not take the one behind the
text, is a body between equal delimiters. -/
theorem isBody_of_endsInEscape : ∀ body : List Char, ¬EndsInEscape body →
    (∀ u v, body = u ++ delimiter :: v → EndsInEscape u) → IsBody delimiter delimiter body
  | [], _, _ => .nil
  | x :: cs, hend, hmem => by
    by_cases hb : x = '\\'
    · -- A backslash is taken with its character at once.
      subst hb
      cases cs with
      | nil => exact absurd endsInEscape_backslash hend
      | cons y cs =>
        refine .escaped y (isBody_of_endsInEscape cs (fun h => hend ?_) fun u v he => ?_)
        · exact (endsInEscape_escaped y cs).mpr h
        · exact (endsInEscape_escaped y u).mp (hmem ('\\' :: y :: u) v (by rw [he]; rfl))
    · have hx : x ≠ delimiter := fun he => not_endsInEscape_nil (hmem [] cs (by rw [he]; rfl))
      refine .char hb hx hx (isBody_of_endsInEscape cs (fun h => hend ?_) fun u v he => ?_)
      · exact (endsInEscape_cons hb).mpr h
      · exact (endsInEscape_cons hb).mp (hmem (x :: u) v (by rw [he]; rfl))

/-- A body between equal delimiters is the text up to the first delimiter that no backslash takes
along. -/
theorem isBody_self_iff (hd : delimiter ≠ '\\') : IsBody delimiter delimiter body ↔
    ¬EndsInEscape body ∧ ∀ u v, body = u ++ delimiter :: v → EndsInEscape u := by
  refine ⟨fun h => ?_, fun h => isBody_of_endsInEscape body h.1 h.2⟩
  induction h with
  | nil => exact ⟨not_endsInEscape_nil, by simp⟩
  | @char x cs hb hx _ _ ih =>
    refine ⟨fun h => ih.1 ((endsInEscape_cons hb).mp h), fun u v he => ?_⟩
    cases u with
    | nil => exact absurd (List.cons.inj he).1 hx
    | cons y u =>
      obtain ⟨hy, he⟩ := List.cons.inj he
      rw [← hy]
      exact (endsInEscape_cons hb).mpr (ih.2 u v he)
  | @escaped x cs _ ih =>
    refine ⟨fun h => ih.1 ((endsInEscape_escaped x cs).mp h), fun u v he => ?_⟩
    match u with
    | [] => exact absurd (List.cons.inj he).1.symm hd
    | [y] =>
      obtain ⟨rfl, -⟩ := List.cons.inj he
      exact endsInEscape_backslash
    | y :: z :: u =>
      obtain ⟨hy, he⟩ := List.cons.inj he
      obtain ⟨hz, he⟩ := List.cons.inj he
      rw [← hy, ← hz]
      exact (endsInEscape_escaped x u).mpr (ih.2 u v he)
  | group hne => exact absurd rfl hne

end Equal

/-! ## Blanks and comments -/

/-- What is passed over in front of a token is a gap; a comment in which the text ends is none. -/
theorem isGap_of_drop_ignorableLength {cs : List Char}
    (h : cs.drop (Cursor.ignorableLength cs) ≠ []) :
    IsGap (cs.take (Cursor.ignorableLength cs)) := by
  suffices hboth : (cs.drop (Cursor.ignorableLength cs) ≠ [] →
      IsGap (cs.take (Cursor.ignorableLength cs))) ∧
      (cs.drop (Cursor.commentLength cs) ≠ [] → ∃ text g, (∀ x ∈ text, x ≠ '\n') ∧ IsGap g ∧
        cs.take (Cursor.commentLength cs) = text ++ '\n' :: g) from hboth.1 h
  clear h
  induction cs with
  | nil => simp
  | cons x cs ih =>
    obtain ⟨ihgap, ihcomment⟩ := ih
    rw [Cursor.ignorableLength, Cursor.commentLength]
    constructor
    · split
      · rename_i hx
        rw [Nat.add_comm, List.drop_succ_cons, List.take_succ_cons]
        exact fun h => .blank hx (ihgap h)
      · split
        · rename_i hx
          subst hx
          rw [Nat.add_comm, List.drop_succ_cons, List.take_succ_cons]
          intro h
          obtain ⟨text, g, htext, hg, he⟩ := ihcomment h
          rw [he]
          exact .comment htext hg
        · exact fun _ => .nil
    · split
      · rename_i hx
        subst hx
        rw [Nat.add_comm, List.drop_succ_cons, List.take_succ_cons]
        exact fun h => ⟨[], _, by simp, ihgap h, rfl⟩
      · rename_i hx
        rw [Nat.add_comm, List.drop_succ_cons, List.take_succ_cons]
        intro h
        obtain ⟨text, g, htext, hg, he⟩ := ihcomment h
        exact ⟨x :: text, g, by simpa using ⟨hx, htext⟩, hg, by rw [he]; rfl⟩

namespace Cursor

variable {c d : Cursor} {opening closing : Char} {body : List Char}

/-! ## Groups and options -/

/-- The place behind a text that is read from the start of the cursor. -/
theorem advance_eq_of_rest {read tail : List Char} (h : c.rest = read ++ tail) :
    c.advance read.length = { rest := tail, position := c.position + byteLength read } := by
  rw [advance, h, List.drop_left, List.take_left]

theorem readBalanced?_eq_some_iff (ho : opening ≠ '\\') (hc : closing ≠ '\\') :
    c.readBalanced? opening closing = (some body, d) ↔
      c.rest = opening :: (body ++ closing :: d.rest) ∧
        d.position = c.position + byteLength (opening :: (body ++ [closing])) ∧
        IsBody opening closing body := by
  have hadvance {body tail : List Char} (hr : c.rest = opening :: (body ++ closing :: tail)) :
      c.advance (body.length + 2) =
        { rest := tail, position := c.position + byteLength (opening :: (body ++ [closing])) } := by
    have hread : c.rest = (opening :: (body ++ [closing])) ++ tail := by simpa using hr
    simpa using advance_eq_of_rest hread
  constructor
  · intro h
    rcases readBalanced?_cases opening closing c with hn | ⟨n, xs, hr, hn, he⟩
    · rw [hn] at h
      cases h
    · obtain ⟨body', tail, rfl, rfl, hbody⟩ := (balancedLength?_eq_some_iff_isBody ho hc).mp hn
      rw [he, List.take_left, hadvance hr] at h
      cases h
      exact ⟨hr, rfl, hbody⟩
  · rintro ⟨hr, hp, hbody⟩
    rw [readBalanced?_of_balancedLength? hr (hbody.balancedLength? ho hc d.rest), List.take_left,
      hadvance hr, ← hp]

/-- Where no group is read, the cursor stays. -/
theorem readBalanced?_eq_none (h : ∀ body d, c.readBalanced? opening closing ≠ (some body, d)) :
    c.readBalanced? opening closing = (none, c) := by
  rcases readBalanced?_cases opening closing c with hn | ⟨n, xs, -, -, he⟩
  · exact hn
  · exact absurd he (h _ _)

theorem readOptional?_eq_some_iff : c.readOptional? = (some body, d) ↔
    ∃ gap, IsGap gap ∧ c.rest = gap ++ '[' :: (body ++ ']' :: d.rest) ∧
      d.position = c.position + byteLength (gap ++ '[' :: (body ++ [']'])) ∧
      IsBody '[' ']' body := by
  have hread : c.readOptional? = (some body, d) ↔
      c.skipIgnorable.readBalanced? '[' ']' = (some body, d) := by
    rw [readOptional?]
    split
    · rename_i heq
      rw [heq]
    · rename_i heq
      rw [heq]
      simp
  rw [hread, readBalanced?_eq_some_iff (by decide) (by decide)]
  constructor
  · rintro ⟨hr, hp, hbody⟩
    have hne : c.rest.drop (ignorableLength c.rest) ≠ [] := by
      rw [show c.rest.drop (ignorableLength c.rest) = _ from hr]
      exact List.cons_ne_nil _ _
    refine ⟨_, isGap_of_drop_ignorableLength hne, ?_, ?_, hbody⟩
    · rw [← hr]
      exact (List.take_append_drop _ _).symm
    · rw [hp, byteLength_append, ← Nat.add_assoc]
      rfl
  · rintro ⟨gap, hgap, hr, hp, hbody⟩
    have hskip : c.skipIgnorable =
        { rest := '[' :: (body ++ ']' :: d.rest), position := c.position + byteLength gap } := by
      rw [skipIgnorable, hr, ignorableLength_append hgap,
        ignorableLength_of_startsToken (startsToken_cons (by decide) _), Nat.add_zero,
        advance_eq_of_rest hr]
    rw [hskip, hp, byteLength_append, ← Nat.add_assoc]
    exact ⟨rfl, rfl, hbody⟩

/-- Where no option is read, the cursor stays, in front of the blanks and comments. -/
theorem readOptional?_eq_none (h : ∀ body d, c.readOptional? ≠ (some body, d)) :
    c.readOptional? = (none, c) := by
  unfold readOptional? at h ⊢
  split
  · rename_i body d heq
    exact absurd (by rw [heq]) (h body d)
  · rfl

/-- Groups and options are read exactly. Between different delimiters stands a body of the grammar,
between equal ones the text up to the first delimiter that no backslash takes along. The content is
unique, and the cursor moves behind the group; where there is none it stays. -/
theorem readsGroups (ho : opening ≠ '\\') (hc : closing ≠ '\\') (c : Cursor) :
    (opening ≠ closing → ∀ body d, c.readBalanced? opening closing = (some body, d) ↔
      c.rest = opening :: (body ++ closing :: d.rest) ∧
        d.position = c.position + byteLength (opening :: (body ++ [closing])) ∧
        IsBody opening closing body) ∧
    (opening = closing → ∀ body d, c.readBalanced? opening closing = (some body, d) ↔
      c.rest = opening :: (body ++ closing :: d.rest) ∧
        d.position = c.position + byteLength (opening :: (body ++ [closing])) ∧
        ¬EndsInEscape body ∧ ∀ u v, body = u ++ closing :: v → EndsInEscape u) ∧
    (∀ body tail body' tail', IsBody opening closing body → IsBody opening closing body' →
      body ++ closing :: tail = body' ++ closing :: tail' → body = body' ∧ tail = tail') ∧
    ((∀ body d, c.readBalanced? opening closing ≠ (some body, d)) →
      c.readBalanced? opening closing = (none, c)) ∧
    (∀ body d, c.readOptional? = (some body, d) ↔
      ∃ gap, IsGap gap ∧ c.rest = gap ++ '[' :: (body ++ ']' :: d.rest) ∧
        d.position = c.position + byteLength (gap ++ '[' :: (body ++ [']'])) ∧
        IsBody '[' ']' body) ∧
    ((∀ body d, c.readOptional? ≠ (some body, d)) → c.readOptional? = (none, c)) := by
  refine ⟨fun _ _ _ => readBalanced?_eq_some_iff ho hc, ?_, fun _ _ _ _ h h' => h.unique ho hc h',
    readBalanced?_eq_none, fun _ _ => readOptional?_eq_some_iff, readOptional?_eq_none⟩
  rintro rfl body d
  rw [readBalanced?_eq_some_iff ho hc, isBody_self_iff ho]

/-- A group with a letter of two bytes, a group and an escaped brace in it. -/
theorem readsGroups_nested : ('{' ≠ '\\' ∧ '}' ≠ '\\') ∧
    (start ['{', 'é', '{', 'b', '}', '\\', '}', 'c', '}', 'd']).readBalanced? '{' '}' =
      (some ['é', '{', 'b', '}', '\\', '}', 'c'], { rest := ['d'], position := 10 }) := by
  have hopen : '{' ≠ '\\' := by decide
  have hclose : '}' ≠ '\\' := by decide
  have hb : IsBody '{' '}' ['b'] := .char (by decide) (by decide) (by decide) .nil
  have hrest : IsBody '{' '}' ['\\', '}', 'c'] :=
    .escaped '}' (.char (by decide) (by decide) (by decide) .nil)
  have hbody : IsBody '{' '}' ['é', '{', 'b', '}', '\\', '}', 'c'] :=
    .char (by decide) (by decide) (by decide) (.group (by decide) hb hrest)
  exact ⟨⟨hopen, hclose⟩,
    ((readsGroups hopen hclose _).1 (by decide) _ _).mpr ⟨rfl, rfl, hbody⟩⟩

end Cursor

end Typeset
