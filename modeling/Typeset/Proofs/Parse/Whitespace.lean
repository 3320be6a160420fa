import Typeset.Proofs.Nest.Alike
import Typeset.Proofs.Parse.Phrases

/-!
# Blanks and comments between tokens

What stands between the tokens of markup does not count.

* `IsSequence`: phrases in a row, the last of which may break off.
* `Agrees`: two writings of a sequence parse alike, to a depth of pieces within pieces.
* `parse_of_isWriting`: two writings of markup parse to the same atom, or both fail.

The degree of a root is read as it stands and parsed on its own. It may end within a phrase, which
then breaks off; so sequences are followed to their last part, and not whole markup only.
-/

namespace Typeset

open Nest (Alike Lockstep)
open ParseState (Settles outcome)

variable {packages : List String} {ps : List (List Token)} {p us ts : List Token}
  {tail a : List Char}

/-! ## Sequences of phrases -/

/-- Phrases in a row, and what stands behind them. -/
structure IsSequence (packages : List String) (ps : List (List Token)) (us : List Token)
    (tail : List Char) : Prop where
  isPhrase : ∀ p ∈ ps, IsPhrase packages p
  ending : Ending packages us tail
  isSeparate : IsSeparate (ps.flatten ++ us)

/-- A token stands in a phrase, or behind all of them. -/
theorem exists_of_flatten_append_eq {t : Token} {xs vs : List Token}
    (h : ps.flatten ++ us = xs ++ t :: vs) :
    (∃ ps₁ u v ps₂, ps = ps₁ ++ (u ++ t :: v) :: ps₂ ∧ xs = ps₁.flatten ++ u ∧
        vs = v ++ (ps₂.flatten ++ us)) ∨
      ∃ u, us = u ++ t :: vs ∧ xs = ps.flatten ++ u := by
  induction ps generalizing xs with
  | nil => exact .inr ⟨xs, h, rfl⟩
  | cons p ps ih =>
    have hrest {ys : List Token} (hxs : xs = p ++ ys) (hys : ps.flatten ++ us = ys ++ t :: vs) :
        (∃ ps₁ u v ps₂, p :: ps = ps₁ ++ (u ++ t :: v) :: ps₂ ∧ xs = ps₁.flatten ++ u ∧
            vs = v ++ (ps₂.flatten ++ us)) ∨
          ∃ u, us = u ++ t :: vs ∧ xs = (p :: ps).flatten ++ u := by
      subst hxs
      obtain ⟨ps₁, u, v, ps₂, rfl, rfl, hv⟩ | ⟨u, hu, rfl⟩ := ih hys
      · exact .inl ⟨p :: ps₁, u, v, ps₂, rfl, by simp, hv⟩
      · exact .inr ⟨u, hu, by simp⟩
    rw [List.flatten_cons, List.append_assoc] at h
    obtain ⟨ys, hxs, hys⟩ | ⟨zs, rfl, hzs⟩ := List.append_eq_append_iff.mp h
    · exact hrest hxs hys
    · cases zs with
      | nil => exact @hrest [] (by simp) hzs.symm
      | cons z zs =>
        obtain ⟨rfl, hvs⟩ := List.cons.inj hzs
        exact .inl ⟨[], xs, zs, ps, rfl, rfl, hvs⟩

namespace IsSequence

/-- The phrases behind some of them. -/
theorem of_append {ps₁ ps₂ : List (List Token)} (h : IsSequence packages (ps₁ ++ ps₂) us tail) :
    IsSequence packages ps₂ us tail :=
  ⟨fun q hq => h.isPhrase q (by simp [hq]), h.ending,
    h.isSeparate.of_infix ⟨ps₁.flatten, [], by simp⟩⟩

theorem of_cons (h : IsSequence packages (p :: ps) us tail) : IsSequence packages ps us tail := by
  have happend : IsSequence packages ([p] ++ ps) us tail := h
  exact happend.of_append

theorem isSound (h : IsSequence packages ps us tail) : ∀ t ∈ ps.flatten ++ us, t.IsSound := by
  intro t ht
  rcases List.mem_append.mp ht with ht | ht
  · obtain ⟨p, hp, ht⟩ := List.mem_flatten.mp ht
    exact (h.isPhrase p hp).isSound t ht
  · cases h.ending with
    | complete => cases ht
    | cut hcut =>
      obtain ⟨u, vs, b, hp, -⟩ := hcut.exists_phrase
      exact hp.isSound t (by simp [ht])

theorem continues (h : IsSequence packages ps us tail) : Continues (ps.flatten ++ us) tail := by
  cases ps with
  | nil =>
    cases h.ending with
    | complete => exact ⟨by rintro _ ⟨⟩, fun _ => rfl⟩
    | cut hcut =>
      obtain ⟨name, us', rfl, hname⟩ := hcut.exists_command
      exact ⟨by rintro _ ⟨⟩; exact hname, fun h => absurd h (List.cons_ne_nil _ _)⟩
  | cons p ps =>
    obtain ⟨t, p', rfl, ht⟩ := (h.isPhrase p (by simp)).exists_cons
    exact ⟨by rintro _ ⟨⟩; exact ht, fun h => absurd h (List.cons_ne_nil _ _)⟩

/-- A part of the phrases is a sequence with the part of a phrase that it ends with. -/
theorem of_prefix (h : IsSequence packages ps us tail) {ps₁ : List (List Token)} {u : List Token}
    (hps : ∀ p ∈ ps₁, p ∈ ps) (hu : ps₁.flatten ++ u <+: ps.flatten ++ us)
    (hend : Ending packages u a) : IsSequence packages ps₁ u a :=
  ⟨fun p hp => h.isPhrase p (hps p hp), hend, h.isSeparate.of_infix hu.isInfix⟩

/-- A character is a phrase of its own. -/
theorem exists_of_char (h : IsSequence packages ps us tail) {x : Char} {xs vs : List Token}
    (hts : ps.flatten ++ us = xs ++ .char x :: vs) :
    ∃ ps₁ ps₂, ps = ps₁ ++ [.char x] :: ps₂ ∧ xs = ps₁.flatten ∧ vs = ps₂.flatten ++ us := by
  obtain ⟨ps₁, u, v, ps₂, rfl, rfl, rfl⟩ | ⟨u, rfl, -⟩ := exists_of_flatten_append_eq hts
  · have hp : u ++ .char x :: v = [.char x] :=
      (h.isPhrase (u ++ .char x :: v) (by simp)).eq_of_char_mem (by simp)
    obtain ⟨rfl, -⟩ | ⟨rfl, hv⟩ := List.append_eq_singleton_iff.mp hp
    · obtain rfl := (List.cons.inj (List.nil_append _ ▸ hp)).2
      exact ⟨ps₁, ps₂, rfl, by simp, rfl⟩
    · cases hv
  · obtain ⟨t, vs', b, hp, -⟩ := (h.ending.isCut (.inl (by simp))).exists_phrase
    have hlen := congrArg List.length (hp.eq_of_char_mem (x := x) (by simp))
    simp only [List.length_append, List.length_cons, List.length_nil] at hlen
    omega

/-- A part that ends within a token ends with a phrase that breaks off. -/
theorem exists_of_isPart (h : IsSequence packages ps us tail) {xs : List Token}
    (hpart : Writes.IsPart xs a (ps.flatten ++ us) tail) :
    ∃ ps₁ u, xs = ps₁.flatten ++ u ∧ IsCut packages u a ∧ IsSequence packages ps₁ u a := by
  obtain ⟨ha, ⟨t, vs, b, hts, hne, ht⟩ | ⟨rfl, b, rfl⟩⟩ := hpart
  · obtain ⟨ps₁, u, v, ps₂, rfl, rfl, rfl⟩ | ⟨u, rfl, rfl⟩ := exists_of_flatten_append_eq hts
    · have hcut : IsCut packages u a := ⟨ha, t, v, b, h.isPhrase _ (by simp), hne, ht⟩
      exact ⟨ps₁, u, rfl, hcut,
        h.of_prefix (fun p hp => by simp [hp]) (hts ▸ List.prefix_append _ _) (.cut hcut)⟩
    · obtain ⟨t', vs', b', hp, -⟩ := (h.ending.isCut (.inl (by simp))).exists_phrase
      have hcut : IsCut packages u a := ⟨ha, t, vs ++ t' :: vs', b, by simpa using hp, hne, ht⟩
      exact ⟨ps, u, rfl, hcut,
        h.of_prefix (fun _ hp => hp) (hts ▸ List.prefix_append _ _) (.cut hcut)⟩
  · obtain ⟨t, vs, b', hp, hne, ht⟩ := (h.ending.isCut (.inr (by simp))).exists_phrase
    have hcut : IsCut packages us a := ⟨ha, t, vs, b ++ ']' :: b', hp, hne, by simp [ht]⟩
    exact ⟨ps, us, rfl, hcut, h.of_prefix (fun _ hp => hp) List.prefix_rfl (.cut hcut)⟩

end IsSequence

/-! ## Roots -/

section Root

open Reading

variable {l : Language} {scope : Scope} {t u v body g w : List Char} {xs : List Token}

/-- A root without a degree. -/
theorem finds_sqrt_none (h : optional?.Finds scope t u (some none)) :
    (Builtin.sqrt.start l).Finds scope t u (some (.takeArguments (.sqrt none))) :=
  h.bind (finds_pure _)

/-- A root with the atom of its degree. -/
theorem finds_sqrt_some (h : optional?.Finds scope t u (some (some body))) :
    (Builtin.sqrt.start l).Finds scope t u (((l.answer? scope body).bind Except.toOption).map
      fun x => .takeArguments (.sqrt (some x))) :=
  h.bind ((l.finds_fragment body).map _)

/-- A degree starts with a bracket and nothing else. -/
theorem finds_sqrt_of_ne (hts : Continues ts tail) (hne : ∀ us, ts ≠ .char '[' :: us)
    (hw : Writes tail .root ts w) :
    (Builtin.sqrt.start l).Finds scope w w (some (.takeArguments (.sqrt none))) ∧
      Writes tail .markup ts w := by
  constructor
  · obtain ⟨g, cs, rfl, hg, hcs, hhead⟩ := hts.exists_gap hw
    refine finds_sqrt_none (finds_optional?_none hg hcs fun y z hy hopen => ?_)
    subst hy hopen
    obtain ⟨us, rfl⟩ := hhead '[' rfl (by decide)
    exact absurd rfl (hne us)
  · cases hw with
    | nil hg => exact .nil (.of_not_raw hg.isGap rfl)
    | @cons _ x ts g s w hs hw =>
      rw [Place.after, if_neg fun hx => hne ts (by rw [hx])] at hw
      have hspells : x.Spells .markup s := hs.spells.of_imp fun h => Bool.noConfusion h
      exact .cons ⟨hspells, .of_not_raw hs.isGapAt.isGap rfl, hs.isBlank, hs.isApart⟩ hw

theorem Writes.exists_of_root (hw : Writes tail .root (.char '[' :: ts) w) :
    ∃ g w', w = g ++ '[' :: w' ∧ IsGap g ∧ Writes tail (.degree 0) ts w' := by
  cases hw with
  | cons hs hw =>
    obtain rfl := hs.spells.eq_text (List.cons_ne_nil _ _)
    exact ⟨_, _, rfl, hs.isGapAt.isGap, hw⟩

/-- A bracket that is not closed is an ordinary character. -/
theorem finds_sqrt_of_unclosed (hg : IsGap g) (h : Writes.Unclosed 0 ts tail w) :
    (Builtin.sqrt.start l).Finds scope (g ++ '[' :: w) (g ++ '[' :: w)
        (some (.takeArguments (.sqrt none))) ∧
      Writes tail .markup (.char '[' :: ts) (g ++ '[' :: w) := by
  constructor
  · refine finds_sqrt_none (finds_optional?_none hg (startsToken_cons (by decide) w)
      fun y z hy _ => ?_)
    obtain rfl := (List.cons.inj hy).2
    exact h.1
  · exact .cons_char (.of_not_raw hg rfl) (h.2 .markup)

/-- A degree that is closed is parsed on its own. -/
theorem exists_finds_sqrt_of_closed (l : Language) (scope : Scope) (hg : IsGap g)
    {next : List Char → Prop} (h : Writes.Closed 0 xs a w next) :
    ∃ x y, Writes a .markup xs x ∧ next y ∧
      (Builtin.sqrt.start l).Finds scope (g ++ '[' :: w) y
        (((l.answer? scope x).bind Except.toOption).map
          fun d => .takeArguments (.sqrt (some d))) := by
  obtain ⟨x, y, rfl, hn, hx, hy⟩ := h
  exact ⟨x, y, hx .markup, hy, finds_sqrt_some (finds_optional?_some hg hn)⟩

end Root

/-! ## Two writings side by side -/

/-- Two parses that ask for the same come to the same if they do from the rest on. -/
theorem ParseState.Settles.lockstep {l : Language} {c c' : Cursor} {rest rest' : List Char}
    {o : Option Move} {n n' : Nest} {R : Atom → Atom → Prop} (h : Settles l packages c rest o)
    (h' : Settles l packages c' rest' o) (hn : Alike n n')
    (hnext : o ≠ none → ∀ (d d' : Cursor) (m m' : Nest), d.IsBefore rest → d'.IsBefore rest' →
      Alike m m' →
      Lockstep R (outcome l ⟨⟨d, { packages }⟩, m⟩) (outcome l ⟨⟨d', { packages }⟩, m'⟩)) :
    Lockstep R (outcome l ⟨⟨c, { packages }⟩, n⟩) (outcome l ⟨⟨c', { packages }⟩, n'⟩) := by
  cases o with
  | none =>
    obtain ⟨f, hf⟩ := h n
    obtain ⟨f', hf'⟩ := h' n'
    rw [hf, hf']
    trivial
  | some move =>
    obtain ⟨pos, here, d, hd, he⟩ := h n
    obtain ⟨pos', here', d', hd', he'⟩ := h' n'
    rw [he, he']
    exact (hn.apply move pos here pos' here').bind fun m m' _ hm =>
      hnext (by simp) d d' m m' hd hd' hm

/-- Two writings of a sequence come to the same atom or both fail, in the language whose pieces
nest to a depth. A sequence that breaks off fails. -/
def Agrees (packages : List String) (depth : Nat) : Prop :=
  ∀ ps us tail, IsSequence packages ps us tail → ∀ w w', Writes tail .markup (ps.flatten ++ us) w →
    Writes tail .markup (ps.flatten ++ us) w' → ∀ (c c' : Cursor) (n n' : Nest), c.IsBefore w →
    c'.IsBefore w' → Alike n n' →
    Lockstep (fun a b => a = b ∧ us = [])
      (outcome (.nested .builtin depth) ⟨⟨c, { packages }⟩, n⟩)
      (outcome (.nested .builtin depth) ⟨⟨c', { packages }⟩, n'⟩)

variable {depth : Nat} {w w' : List Char} {c c' : Cursor}

theorem bind_toOption_answer?_of_ok {x : Atom}
    (h : outcome (.nested .builtin depth) (.start w { packages }) = .ok x) :
    ((Language.nested .builtin (depth + 1)).answer? { packages } w).bind Except.toOption =
      some x.unwrapped := by
  rw [Language.answer?_nested_succ, ParseState.parse_eq_outcome, h]
  rfl

theorem bind_toOption_answer?_of_error {f : Failure}
    (h : outcome (.nested .builtin depth) (.start w { packages }) = .error f) :
    ((Language.nested .builtin (depth + 1)).answer? { packages } w).bind Except.toOption =
      none := by
  rw [Language.answer?_nested_succ, ParseState.parse_eq_outcome, h]
  rfl

/-- What a piece comes to, however it is written. -/
theorem answer?_eq (ih : ∀ d < depth, Agrees packages d) (h : IsSequence packages ps us tail)
    (hw : Writes tail .markup (ps.flatten ++ us) w)
    (hw' : Writes tail .markup (ps.flatten ++ us) w') :
    ∃ o, ((Language.nested .builtin depth).answer? { packages } w).bind Except.toOption = o ∧
      ((Language.nested .builtin depth).answer? { packages } w').bind Except.toOption = o ∧
      (us ≠ [] → o = none) := by
  cases depth with
  | zero => exact ⟨none, rfl, rfl, fun _ => rfl⟩
  | succ depth =>
    have hparse := ih depth (Nat.lt_succ_self _) ps us tail h w w' hw hw' (.start w) (.start w')
      .start .start (Cursor.isBefore_of_rest rfl) (Cursor.isBefore_of_rest rfl) Nest.alike_start
    obtain ⟨x, y, hx, hy, rfl, hus⟩ | ⟨f, f', hf, hf'⟩ := hparse.cases
    · exact ⟨some x.unwrapped, bind_toOption_answer?_of_ok hx, bind_toOption_answer?_of_ok hy,
        fun hne => absurd hus hne⟩
    · exact ⟨none, bind_toOption_answer?_of_error hf, bind_toOption_answer?_of_error hf',
        fun _ => rfl⟩

/-- The degree of a root, however it is written. One that breaks off is refused. -/
theorem exists_finds_degree (ih : ∀ d < depth, Agrees packages d)
    (h : IsSequence packages ps us a) {next : List Char → Prop} {g g' : List Char}
    (hg : IsGap g) (hg' : IsGap g')
    (hw : Writes.Closed 0 (ps.flatten ++ us) a w next)
    (hw' : Writes.Closed 0 (ps.flatten ++ us) a w' next) : ∃ o y y', next y ∧ next y' ∧
      (Builtin.sqrt.start (.nested .builtin depth)).Finds { packages } (g ++ '[' :: w) y o ∧
      (Builtin.sqrt.start (.nested .builtin depth)).Finds { packages } (g' ++ '[' :: w') y' o ∧
      (us ≠ [] → o = none) := by
  obtain ⟨x, y, hx, hy, hf⟩ :=
    exists_finds_sqrt_of_closed (.nested .builtin depth) { packages } hg hw
  obtain ⟨x', y', hx', hy', hf'⟩ :=
    exists_finds_sqrt_of_closed (.nested .builtin depth) { packages } hg' hw'
  obtain ⟨o, ho, ho', hnone⟩ := answer?_eq ih h hx hx'
  rw [ho] at hf
  rw [ho'] at hf'
  exact ⟨_, y, y', hy, hy', hf, hf', fun hus => by rw [hnone hus]; rfl⟩

/-- Two writings of a root ask for the same, and the phrases behind it or its degree go on. -/
theorem exists_settles_root (ih : ∀ d < depth, Agrees packages d)
    (h : IsSequence packages ps us tail)
    (hw : Writes tail .markup (.command "sqrt".toList :: (ps.flatten ++ us)) w)
    (hw' : Writes tail .markup (.command "sqrt".toList :: (ps.flatten ++ us)) w')
    (hc : c.IsBefore w) (hc' : c'.IsBefore w') : ∃ o rest rest',
      Settles (.nested .builtin depth) packages c rest o ∧
      Settles (.nested .builtin depth) packages c' rest' o ∧
      (o ≠ none → ∃ ps', ps'.length ≤ ps.length ∧ IsSequence packages ps' us tail ∧
        Writes tail .markup (ps'.flatten ++ us) rest ∧
        Writes tail .markup (ps'.flatten ++ us) rest') := by
  have hl := Language.registry_nested .builtin depth
  obtain ⟨command, hcommand⟩ := (stands_sqrt packages).exists_settles
  obtain ⟨v, hv, hsettles⟩ := hcommand _ hl tail _ w hw
  obtain ⟨v', hv', hsettles'⟩ := hcommand _ hl tail _ w' hw'
  by_cases hopen : ∃ ts, ps.flatten ++ us = .char '[' :: ts
  · obtain ⟨ts, hts⟩ := hopen
    obtain ⟨ps₁, ps₂, hps, -, hts₂⟩ :=
      h.exists_of_char (show ps.flatten ++ us = [] ++ .char '[' :: ts from hts)
    have h₂ : IsSequence packages ps₂ us tail := (hps ▸ h).of_append.of_cons
    rw [hts, hts₂] at hv hv'
    obtain ⟨g, v, rfl, hg, hv⟩ := Writes.exists_of_root hv
    obtain ⟨g', v', rfl, hg', hv'⟩ := Writes.exists_of_root hv'
    obtain ⟨hu, hu'⟩ | ⟨xs, vs, hvs, hclosed, hclosed'⟩ | ⟨xs, a, hpart, hclosed, hclosed'⟩ :=
      Writes.closing_cases h₂.isSound hv hv'
    · obtain ⟨hf, hv⟩ := finds_sqrt_of_unclosed hg hu
      obtain ⟨hf', hv'⟩ := finds_sqrt_of_unclosed hg' hu'
      rw [← hts₂, ← hts] at hv hv'
      exact ⟨_, _, _, hsettles _ _ c hf hc, hsettles' _ _ c' hf' hc',
        fun _ => ⟨ps, Nat.le_refl _, h, hv, hv'⟩⟩
    · obtain ⟨ps₃, ps₄, rfl, rfl, rfl⟩ := h₂.exists_of_char hvs
      have h₃ : IsSequence packages ps₃ [] [] := by
        refine h₂.of_prefix (fun p hp => by simp [hp]) ?_ .complete
        rw [hvs, List.append_nil]
        exact List.prefix_append _ _
      rw [← List.append_nil ps₃.flatten] at hclosed hclosed'
      obtain ⟨o, y, y', hy, hy', hf, hf', -⟩ := exists_finds_degree ih h₃ hg hg' hclosed hclosed'
      refine ⟨_, y, y', hsettles y o c hf hc, hsettles' y' o c' hf' hc',
        fun _ => ⟨ps₄, ?_, h₂.of_append.of_cons, hy, hy'⟩⟩
      simp only [hps, List.length_append, List.length_cons]
      omega
    · obtain ⟨ps₃, u, rfl, hcut, h₃⟩ := h₂.exists_of_isPart hpart
      obtain ⟨o, y, y', -, -, hf, hf', hnone⟩ :=
        exists_finds_degree ih h₃ hg hg' hclosed hclosed'
      obtain ⟨name, us', rfl, -⟩ := hcut.exists_command
      obtain rfl := hnone (by simp)
      exact ⟨none, y, y', hsettles y none c hf hc, hsettles' y' none c' hf' hc',
        fun hne => absurd rfl hne⟩
  · have hne (us' : List Token) : ps.flatten ++ us ≠ .char '[' :: us' := fun he => hopen ⟨us', he⟩
    obtain ⟨hf, hv⟩ := finds_sqrt_of_ne h.continues hne hv
    obtain ⟨hf', hv'⟩ := finds_sqrt_of_ne h.continues hne hv'
    exact ⟨_, v, v', hsettles v _ c hf hc, hsettles' v' _ c' hf' hc',
      fun _ => ⟨ps, Nat.le_refl _, h, hv, hv'⟩⟩

/-- Nothing but blanks and comments is left in both. -/
theorem outcome_lockstep_of_gap {l : Language} {n n' : Nest} (hw : Writes [] .markup [] w)
    (hw' : Writes [] .markup [] w') (hc : c.IsBefore w) (hc' : c'.IsBefore w') (hn : Alike n n') :
    Lockstep (fun a b => a = b ∧ ([] : List Token) = []) (outcome l ⟨⟨c, { packages }⟩, n⟩)
      (outcome l ⟨⟨c', { packages }⟩, n'⟩) := by
  cases hw with
  | nil hg =>
    cases hw' with
    | nil hg' =>
      obtain ⟨d, hd, he⟩ := ParseState.exists_outcome_gap l { packages } hg.isGap hc
      obtain ⟨d', hd', he'⟩ := ParseState.exists_outcome_gap l { packages } hg'.isGap hc'
      rw [he, he', ParseState.outcome_of_isBefore_nil hd, ParseState.outcome_of_isBefore_nil hd']
      exact (hn.finish _ _).mono fun _ _ h => ⟨h, rfl⟩

/-- Two writings of a sequence come to the same, however deep pieces may nest. -/
theorem agrees (packages : List String) (depth : Nat) : Agrees packages depth := by
  induction depth using Nat.strongRecOn with
  | ind depth ihd =>
    -- A root with a degree goes on behind the degree, any other phrase behind itself.
    intro ps
    induction hps : ps.length using Nat.strongRecOn generalizing ps with
    | ind k ih =>
      intro us tail h w w' hw hw' c c' n n' hc hc' hn
      have hnext {ps' : List (List Token)} (hlt : ps'.length < k)
          (h' : IsSequence packages ps' us tail) {rest rest' : List Char}
          (hrest : Writes tail .markup (ps'.flatten ++ us) rest)
          (hrest' : Writes tail .markup (ps'.flatten ++ us) rest') (d d' : Cursor) (m m' : Nest)
          (hd : d.IsBefore rest) (hd' : d'.IsBefore rest') (hm : Alike m m') :=
        ih ps'.length hlt ps' rfl us tail h' rest rest' hrest hrest' d d' m m' hd hd' hm
      cases ps with
      | nil =>
        cases h.ending with
        | complete => exact outcome_lockstep_of_gap hw hw' hc hc' hn
        | cut hcut =>
          have hl := Language.registry_nested .builtin depth
          exact (hcut.settles_none hl hw hc).lockstep (hcut.settles_none hl hw' hc') hn
            fun hne => absurd rfl hne
      | cons p ps =>
        subst hps
        by_cases hroot : p = [.command "sqrt".toList]
        · subst hroot
          obtain ⟨o, rest, rest', hs, hs', hgo⟩ := exists_settles_root ihd h.of_cons hw hw' hc hc'
          refine hs.lockstep hs' hn fun ho => ?_
          obtain ⟨ps', hle, h', hrest, hrest'⟩ := hgo ho
          exact hnext (Nat.lt_succ_of_le hle) h' hrest hrest'
        · obtain ⟨o, ho⟩ := (h.isPhrase p (by simp)).exists_asks hroot
          have hl := Language.registry_nested .builtin depth
          rw [List.flatten_cons, List.append_assoc] at hw hw'
          have hsep : IsSeparate (p ++ (ps.flatten ++ us)) := by simpa using h.isSeparate
          obtain ⟨rest, hrest, hs⟩ := ho _ hl _ tail w c hsep h.of_cons.continues hw hc
          obtain ⟨rest', hrest', hs'⟩ := ho _ hl _ tail w' c' hsep h.of_cons.continues hw' hc'
          exact hs.lockstep hs' hn fun _ => hnext (Nat.lt_succ_self _) h.of_cons hrest hrest'

/-! ## Markup -/

/-- A text writes the tokens. -/
def IsWriting (ts : List Token) (w : List Char) : Prop := Writes [] .markup ts w

/-- **Blanks and comments between tokens do not count.** Two texts that write the same tokens parse
to the same atom, or both are refused: characters, signs, commands with their delimiters, stars and
groups, environments with the columns that their specifications describe, and roots, whose degrees
are read as they stand and parsed on their own. Only blanks stand before a star, since a comment
hides it from its command, and the comments in the degree of a root open and close brackets in
pairs, since these count. -/
theorem parse_of_isWriting (packages : List String) {ts : List Token} (hts : IsMarkup packages ts)
    {w w' : List Char} (hw : IsWriting ts w) (hw' : IsWriting ts w') :
    (Registry.builtin.parse { packages } (String.ofList w)).toOption =
      (Registry.builtin.parse { packages } (String.ofList w')).toOption := by
  obtain ⟨ps, rfl, hps⟩ := hts.exists_phrases
  have h : IsSequence packages ps [] [] := ⟨hps, .complete, by simpa using hts.toIsSeparate⟩
  rw [← List.append_nil ps.flatten] at hw hw'
  have hparse := agrees packages maxDepth ps [] [] h w w' hw hw' (.start w) (.start w')
    .start .start (Cursor.isBefore_of_rest rfl) (Cursor.isBefore_of_rest rfl) Nest.alike_start
  have hrun (cs : List Char) : ParseState.parse Registry.builtin.language { packages }
      (String.ofList cs).toList =
        outcome (.nested .builtin maxDepth) ⟨⟨.start cs, { packages }⟩, .start⟩ := by
    rw [String.toList_ofList]
    rfl
  simp only [Registry.parse, hrun]
  obtain ⟨x, y, hx, hy, rfl, -⟩ | ⟨f, f', hf, hf'⟩ := hparse.cases
  · rw [hx, hy]
  · rw [hf, hf']
    rfl

theorem parse_of_isWriting_root :
    (Registry.builtin.parse { packages := [] } (String.ofList
        ("\\sqrt%]\n[\\alpha %[]\n]\\begin\x7barray\x7d\x7bl c\x7d".toList ++
          "\\operatorname *%*\n\x7bx\x7d\\end \x7barray\x7d".toList))).toOption =
      (Registry.builtin.parse { packages := [] } (String.ofList
        ("\\sqrt[\\alpha]\\begin\x7barray\x7d\x7blc\x7d".toList ++
          "\\operatorname*\x7bx\x7d\\end\x7barray\x7d".toList))).toOption ∧
    (Registry.builtin.parse { packages := [] } (String.ofList
      ("\\sqrt[\\alpha]\\begin\x7barray\x7d\x7blc\x7d".toList ++
        "\\operatorname*\x7bx\x7d\\end\x7barray\x7d".toList))).toOption.isSome = true := by
  have halpha : Stands [] "alpha".toList (.symbol ⟨'\u03b1', .ord⟩) :=
    stands_of_symbol (by decide) (by decide) (by decide +kernel) (by decide) []
  have hname : Stands [] "operatorname".toList .operatorName :=
    stands_of_mem (by simp [Builtin.table, Builtin.definitions]) []
  have hend : Stands [] "end".toList .closeEnvironment :=
    stands_of_mem (by simp [Builtin.table, Builtin.tables]) []
  have hseparate : IsSeparate [.command "sqrt".toList, .char '[', .command "alpha".toList,
      .char ']', .command "begin".toList, .braced "array".toList, .columns (.read ['l', 'c']),
      .command "operatorname".toList, .star, .braced ['x'], .command "end".toList,
      .braced "array".toList] := by
    refine ⟨by decide, fun name _ h => ?_⟩
    have hmem := h.subset (a := .char '\x7b') (by simp)
    simp at hmem
  have hphrases : ∀ p ∈ [[.command "sqrt".toList], [.char '['], [.command "alpha".toList],
      [.char ']'],
      [.command "begin".toList, .braced "array".toList, .columns (.read ['l', 'c'])],
      [.command "operatorname".toList, .star, .braced ['x']],
      [.command "end".toList, .braced "array".toList]], IsPhrase [] p := by
    simp only [List.forall_mem_cons]
    exact ⟨.root, .char (by constructor <;> decide), .command halpha rfl,
      .char (by constructor <;> decide), .columns (by decide) (by decide),
      .star hname rfl (by decide), .group hend (.inl rfl) (by decide), List.forall_mem_nil _⟩
  have hts : IsMarkup [] _ := ⟨hseparate, _, rfl, hphrases⟩
  have hbracket : IsGap ['%', ']', '\n'] := isGap_of_comment [']'] (by simp)
  have hpair : IsGap [' ', '%', '[', ']', '\n'] :=
    .blank rfl (isGap_of_comment ['[', ']'] (by simp))
  have hspace : ∀ x ∈ [' '], Text.isBlank x = true := List.forall_mem_singleton.mpr rfl
  have hstar : IsGap ['%', '*', '\n'] := isGap_of_comment ['*'] (by simp)
  have hspec : ColumnFormat.read ['l', ' ', 'c'] = .read ['l', 'c'] := by
    simp [ColumnFormat.read, ColumnItem.readAll, ColumnItem.alignOf?]
  refine ⟨parse_of_isWriting [] hts ?_ ?_, by decide +kernel⟩
  · refine Writes.cons_command (isGapAt_nil _) (fun _ => by rintro _ ⟨⟩; rfl) ?_
    refine Writes.cons_char (g := ['%', ']', '\n']) (by exact .of_not_raw hbracket rfl) ?_
    refine Writes.cons_command (isGapAt_nil _) (fun _ => by rintro _ ⟨⟩; rfl) ?_
    refine Writes.cons_char (g := [' ', '%', '[', ']', '\n'])
      (by exact ⟨hpair, fun _ => rfl⟩) ?_
    refine Writes.cons_command (isGapAt_nil _) (fun _ => by rintro _ ⟨⟩; rfl) ?_
    refine Writes.cons_braced (isGapAt_nil _) ?_
    refine Writes.cons_columns (isGapAt_nil _) ⟨_, rfl, by decide, hspec, fun _ => rfl⟩ ?_
    refine Writes.cons_command (isGapAt_nil _) (fun _ => by rintro _ ⟨⟩; rfl) ?_
    refine Writes.cons_star (by exact .of_not_raw (isGap_of_blanks hspace) rfl) hspace ?_
    refine Writes.cons_braced (g := ['%', '*', '\n']) (by exact .of_not_raw hstar rfl) ?_
    refine Writes.cons_command (isGapAt_nil _) (fun _ => by rintro _ ⟨⟩; rfl) ?_
    exact Writes.cons_braced (g := [' ']) (by exact .of_not_raw (isGap_of_blanks hspace) rfl)
      (.nil (isGapAt_nil _))
  · refine Writes.cons_command (isGapAt_nil _) (fun _ => by rintro _ ⟨⟩; rfl) ?_
    refine Writes.cons_char (isGapAt_nil _) ?_
    refine Writes.cons_command (isGapAt_nil _) (fun _ => by rintro _ ⟨⟩; rfl) ?_
    refine Writes.cons_char (isGapAt_nil _) ?_
    refine Writes.cons_command (isGapAt_nil _) (fun _ => by rintro _ ⟨⟩; rfl) ?_
    refine Writes.cons_braced (isGapAt_nil _) ?_
    refine Writes.cons_columns (isGapAt_nil _) ⟨_, rfl, by decide, rfl, fun _ => rfl⟩ ?_
    refine Writes.cons_command (isGapAt_nil _) (fun _ => by rintro _ ⟨⟩; rfl) ?_
    refine Writes.cons_star (isGapAt_nil _) (List.forall_mem_nil _) ?_
    refine Writes.cons_braced (isGapAt_nil _) ?_
    refine Writes.cons_command (isGapAt_nil _) (fun _ => by rintro _ ⟨⟩; rfl) ?_
    exact Writes.cons_braced (isGapAt_nil _) (.nil (isGapAt_nil _))

end Typeset
