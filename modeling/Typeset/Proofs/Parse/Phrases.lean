import Typeset.Proofs.Parse.Commands

/-!
# Phrases of markup

The sequences of tokens that a parse takes in one step, and what the parse makes of them, whatever
blanks and comments stand between the tokens.

* `IsPhrase`: a character, or a command of the language with what it reads after its name.
* `IsMarkup`: phrases in a row, none of which reads on into the next one.
* `IsPhrase.exists_asks`: what a phrase asks for does not hang on how it is written.
* `IsCut.settles_none`: a phrase that breaks off in the midst is refused.
-/

namespace Typeset

open Canonical (braced)

variable {packages : List String} {name text a : List Char} {b : Builtin}

/-! ## Phrases -/

theorem TableKind.format_of_takesSpec {kind : TableKind} (h : kind.takesSpec = true)
    (spec : List Char) : kind.format (some spec) = .read spec := by
  obtain rfl : kind = .array := by simpa [takesSpec] using h
  rfl

/-- A specification follows the name of the environment. -/
def takesSpec (name : List Char) : Bool :=
  (Registry.builtin.environment? (String.ofList (Text.trim name))).any TableKind.takesSpec

theorem takesSpec_iff : takesSpec name = true ↔ ∃ kind,
    Registry.builtin.environment? (String.ofList (Text.trim name)) = some kind ∧
      kind.takesSpec = true := by
  rw [takesSpec, Option.any_eq_true]

/-- The tokens that a parse takes in one step. -/
inductive IsPhrase (packages : List String) : List Token → Prop where
  | char {x : Char} : IsPlainChar x → IsPhrase packages [.char x]
  | command {name : List Char} {b : Builtin} : Stands packages name b → b.intake = .nothing →
      IsPhrase packages [.command name]
  | rowSeparator : IsPhrase packages [.command ['\\']]
  | root : IsPhrase packages [.command "sqrt".toList]
  | delimiter {name text : List Char} {b : Builtin} : Stands packages name b →
      b.intake = .delimiter → IsDelimiterText text →
      IsPhrase packages [.command name, .delimiter text]
  | group {name text : List Char} {b : Builtin} : Stands packages name b →
      b.intake = .group ∨ b.intake = .starredGroup → Cursor.IsBalanced text →
      IsPhrase packages [.command name, .braced text]
  | star {name text : List Char} {b : Builtin} : Stands packages name b →
      b.intake = .starredGroup → Cursor.IsBalanced text →
      IsPhrase packages [.command name, .star, .braced text]
  | environment {name : List Char} : Cursor.IsBalanced name →
      IsPhrase packages [.command "begin".toList, .braced name]
  | array {name spec : List Char} : Cursor.IsBalanced name → takesSpec name = true →
      Cursor.IsBalanced spec →
      IsPhrase packages [.command "begin".toList, .braced name, .braced spec]
  | columns {name : List Char} {format : ColumnFormat} : Cursor.IsBalanced name →
      takesSpec name = true →
      IsPhrase packages [.command "begin".toList, .braced name, .columns format]

/-- No command reads on into the next phrase: a row separator has no space in brackets after it,
and the specification of an environment is one token. -/
structure IsSeparate (ts : List Token) : Prop where
  rowSeparator : ¬[.command ['\\'], .char '['] <:+: ts
  spec : ∀ name, takesSpec name = true →
    ¬[.command "begin".toList, .braced name, .char '{'] <:+: ts

/-- Phrases in a row. -/
structure IsMarkup (packages : List String) (ts : List Token) : Prop extends IsSeparate ts where
  exists_phrases : ∃ ps : List (List Token), ts = ps.flatten ∧ ∀ p ∈ ps, IsPhrase packages p

theorem IsSeparate.of_infix {ts us : List Token} (h : IsSeparate ts) (hu : us <:+: ts) :
    IsSeparate us :=
  ⟨fun hs => h.rowSeparator (hs.trans hu), fun name hn hs => h.spec name hn (hs.trans hu)⟩

/-- A token that starts a phrase. -/
def Token.StartsPhrase : Token → Prop
  | .char x => IsPlainChar x
  | .command name => IsName name
  | _ => False

/-- A phrase does not break off within its first token. -/
theorem Token.StartsPhrase.text_ne {t : Token} (h : t.StartsPhrase) (ht : t ≠ .char ']')
    {depth depth' : Nat} (ha : bracketDepth? depth a = some depth') (b : List Char) :
    t.text ≠ a ++ ']' :: b := by
  intro he
  cases t with
  | char x =>
    obtain ⟨-, rfl, -⟩ : a = [] ∧ ']' = x ∧ b = [] := by
      simpa [Token.text, List.singleton_eq_append_iff] using he
    exact ht rfl
  | command name =>
    obtain rfl := IsName.eq_nil_of_append h (by decide) ha he
    cases he
  | star | delimiter | braced | columns => exact h.elim

namespace IsPhrase

variable {p : List Token}

theorem eq_nil_of_char {x : Char} (h : IsPhrase packages (.char x :: p)) : p = [] := by
  cases h
  rfl

theorem exists_cons (h : IsPhrase packages p) : ∃ t p', p = t :: p' ∧ t.StartsPhrase := by
  cases h with
  | char hx => exact ⟨_, _, rfl, hx⟩
  | rowSeparator => exact ⟨_, _, rfl, (stands_rowSeparator packages).isName⟩
  | root => exact ⟨_, _, rfl, (stands_sqrt packages).isName⟩
  | environment | array | columns => exact ⟨_, _, rfl, (stands_begin packages).isName⟩
  | command hb | delimiter hb | group hb | star hb => exact ⟨_, _, rfl, hb.isName⟩

theorem eq_of_char_mem {x : Char} (h : IsPhrase packages p) (hx : .char x ∈ p) :
    p = [.char x] := by
  cases h <;> simp_all

theorem isSound (h : IsPhrase packages p) : ∀ t ∈ p, t.IsSound := by
  have hbegin := (stands_begin packages).isName
  cases h with
  | char hx => exact List.forall_mem_singleton.mpr hx
  | command hb => exact List.forall_mem_singleton.mpr hb.isName
  | rowSeparator => exact List.forall_mem_singleton.mpr (stands_rowSeparator packages).isName
  | root => exact List.forall_mem_singleton.mpr (stands_sqrt packages).isName
  | delimiter hb _ ht | group hb _ ht =>
    exact List.forall_mem_cons.mpr ⟨hb.isName, List.forall_mem_singleton.mpr ht⟩
  | star hb _ ht =>
    exact List.forall_mem_cons.mpr ⟨hb.isName,
      List.forall_mem_cons.mpr ⟨trivial, List.forall_mem_singleton.mpr ht⟩⟩
  | environment hn => exact List.forall_mem_cons.mpr ⟨hbegin, List.forall_mem_singleton.mpr hn⟩
  | array hn _ hs =>
    exact List.forall_mem_cons.mpr ⟨hbegin,
      List.forall_mem_cons.mpr ⟨hn, List.forall_mem_singleton.mpr hs⟩⟩
  | columns hn =>
    exact List.forall_mem_cons.mpr ⟨hbegin,
      List.forall_mem_cons.mpr ⟨hn, List.forall_mem_singleton.mpr trivial⟩⟩

end IsPhrase

/-- The first part of a phrase, which ends within one of its tokens before a bracket that closes
more than are open. -/
structure IsCut (packages : List String) (us : List Token) (a : List Char) : Prop where
  exists_depth : ∃ depth, bracketDepth? depth a = some 0
  exists_phrase : ∃ t vs b,
    IsPhrase packages (us ++ t :: vs) ∧ t ≠ .char ']' ∧ t.text = a ++ ']' :: b

/-- A phrase breaks off behind its command at the earliest. -/
theorem IsCut.exists_command {us : List Token} (h : IsCut packages us a) :
    ∃ name us', us = .command name :: us' ∧ IsName name := by
  obtain ⟨depth, ha⟩ := h.exists_depth
  obtain ⟨t, vs, b, hp, hne, ht⟩ := h.exists_phrase
  obtain ⟨u, p', hu, hstarts⟩ := hp.exists_cons
  cases us with
  | nil =>
    obtain ⟨rfl, -⟩ := List.cons.inj hu
    exact absurd ht (hstarts.text_ne hne ha b)
  | cons v us =>
    obtain ⟨rfl, rfl⟩ := List.cons.inj hu
    cases v with
    | char x => exact absurd hp.eq_nil_of_char (by simp)
    | command name => exact ⟨name, us, rfl, hstarts⟩
    | star | delimiter | braced | columns => exact hstarts.elim

/-- What stands behind phrases: nothing, or a phrase that breaks off. -/
inductive Ending (packages : List String) : List Token → List Char → Prop where
  | complete : Ending packages [] []
  | cut {us : List Token} {a : List Char} : IsCut packages us a → Ending packages us a

theorem Ending.isCut {us : List Token} (h : Ending packages us a) (hne : us ≠ [] ∨ a ≠ []) :
    IsCut packages us a := by
  cases h with
  | complete => simp at hne
  | cut h => exact h

/-- Behind a phrase stands the next one, or nothing. -/
structure Continues (ts : List Token) (tail : List Char) : Prop where
  startsPhrase : ∀ t ∈ ts.head?, t.StartsPhrase
  eq_nil : ts = [] → tail = []

theorem Continues.exists_gap {ts : List Token} {tail w : List Char} {place : Place}
    (h : Continues ts tail) (hw : Writes tail place ts w) :
    ∃ g cs, w = g ++ cs ∧ IsGap g ∧ StartsToken cs ∧
      ∀ x ∈ cs.head?, x ≠ '\\' → ∃ us, ts = .char x :: us := by
  cases hw with
  | nil hg =>
    obtain rfl := h.eq_nil rfl
    exact ⟨_, _, rfl, hg.isGap, by rintro _ ⟨⟩, by rintro _ ⟨⟩⟩
  | @cons _ t ts g s w hs _ =>
    have ht := h.startsPhrase t rfl
    refine ⟨g, s ++ w, rfl, hs.isGapAt.isGap, ?_⟩
    cases t with
    | char x =>
      obtain rfl := hs.spells.eq_text (List.cons_ne_nil _ _)
      refine ⟨IsPlainChar.startsToken ht w, ?_⟩
      rintro _ ⟨⟩ -
      exact ⟨ts, rfl⟩
    | command =>
      obtain rfl := hs.spells.eq_text (List.cons_ne_nil _ _)
      refine ⟨startsToken_cons (by decide) _, ?_⟩
      rintro _ ⟨⟩ hne
      exact absurd rfl hne
    | star | delimiter | braced | columns => exact ht.elim

/-! ## What phrases ask for -/

/-- However it is written, the phrase asks for a move; without one it is refused. -/
def Asks (packages : List String) (p : List Token) (o : Option Move) : Prop :=
  ∀ l : Language, l.registry = .builtin → ∀ (ts : List Token) (tail w : List Char) (c : Cursor),
    IsSeparate (p ++ ts) → Continues ts tail → Writes tail .markup (p ++ ts) w → c.IsBefore w →
    ∃ rest, Writes tail .markup ts rest ∧ ParseState.Settles l packages c rest o

/-- A command asks for what it finds in its tokens. -/
theorem Stands.exists_asks (h : Stands packages name b) (hb : b ≠ .sqrt) (us : List Token)
    (o : Option Directive)
    (ho : ∀ l : Language, l.registry = .builtin → ∀ (ts : List Token) (tail w : List Char),
      IsSeparate (.command name :: us ++ ts) → Continues ts tail →
      Writes tail .markup (us ++ ts) w → ∃ rest, Writes tail .markup ts rest ∧
        (b.start l).Finds { packages } w rest o) :
    ∃ o, Asks packages (.command name :: us) o := by
  obtain ⟨command, hcommand⟩ := h.exists_settles
  refine ⟨o.map (.command command), fun l hl ts tail w c hsep hts hw hc => ?_⟩
  obtain ⟨w', hw', hsettles⟩ := hcommand l hl tail (us ++ ts) w hw
  rw [h.behind_eq hb] at hw'
  obtain ⟨rest, hrest, hfinds⟩ := ho l hl ts tail w' hsep hts hw'
  exact ⟨rest, hrest, hsettles rest o c hfinds hc⟩

/-- A character asks for the same wherever it stands. -/
theorem exists_readMove {x : Char} (hx : IsPlainChar x) :
    ∃ move, ∀ (l : Language) (pos : Nat), l.readMove pos x = pure move := by
  obtain ⟨-, hp, hb⟩ := hx
  unfold Language.readMove
  split <;> first | exact ⟨_, fun _ _ => rfl⟩ | exact absurd rfl hp | exact absurd rfl hb

namespace IsPhrase

open Reading

variable {p : List Token}

/-- What a phrase asks for does not hang on how it is written. The root is left to its degree. -/
theorem exists_asks (hp : IsPhrase packages p) (hroot : p ≠ [.command "sqrt".toList]) :
    ∃ o, Asks packages p o := by
  cases hp with
  | root => exact absurd rfl hroot
  | char hx =>
    obtain ⟨move, hmove⟩ := exists_readMove hx
    refine ⟨some move, fun l hl ts tail w c hsep hts hw hc => ?_⟩
    obtain ⟨g, _, w', rfl, rfl, hg, -, -, hw'⟩ := hw.exists_of_cons
    exact ⟨w', hw', .of_gap hg hc fun d hd =>
      ParseState.settles_of_reads (Language.reads_char hx.isBlank (hmove l) w') hd⟩
  | command hb hnothing =>
    obtain ⟨d, hd⟩ := Builtin.exists_start_of_nothing hnothing
    refine hb.exists_asks (Builtin.ne_sqrt_of_intake (by simp [hnothing])) [] (some d)
      fun l _ ts tail w _ _ hw => ⟨w, hw, ?_⟩
    rw [hd]
    exact finds_pure d
  | rowSeparator =>
    refine (stands_rowSeparator packages).exists_asks (by simp) [] (some (.rowSeparator none))
      fun l _ ts tail w hsep hts hw => ⟨w, hw, ?_⟩
    obtain ⟨g, cs, rfl, hg, hcs, hhead⟩ := hts.exists_gap hw
    have hoption : optional?.Finds { packages } (g ++ cs) (g ++ cs) (some none) := by
      refine finds_optional?_none hg hcs fun y v hy hopen => ?_
      subst hy hopen
      obtain ⟨us, rfl⟩ := hhead '[' rfl (by decide)
      exact absurd ⟨[], us, rfl⟩ hsep.rowSeparator
    have hlength : optionalLength?.Finds { packages } (g ++ cs) (g ++ cs) (some none) :=
      hoption.bind (finds_pure none)
    exact hlength.bind (finds_pure _)
  | @delimiter name text b hb hdelimiter htext =>
    obtain ⟨f, hf⟩ := Builtin.exists_start_of_delimiter hdelimiter
    refine hb.exists_asks (Builtin.ne_sqrt_of_intake (by simp [hdelimiter])) [.delimiter text]
      ((delimiter? text).map f) fun l _ ts tail w _ _ hw => ?_
    obtain ⟨g, _, w', rfl, rfl, hg, -, hapart, hw'⟩ := hw.exists_of_cons
    refine ⟨w', hw', ?_⟩
    rw [hf]
    exact (finds_delimiter hg htext hapart).map f
  | @group name text b hb hintake htext =>
    obtain ⟨f, hf⟩ := Builtin.exists_finds_of_brace hintake
    refine hb.exists_asks (Builtin.ne_sqrt_of_intake (by rcases hintake with h | h <;> simp [h]))
      [.braced text] (f text) fun l _ ts tail w _ _ hw => ?_
    obtain ⟨g, _, w', rfl, rfl, hg, -, -, hw'⟩ := hw.exists_of_cons
    exact ⟨w', hw', hf l _ g _ w' (some text) hg (finds_group hg htext)⟩
  | @star name text b hb hstar htext =>
    obtain ⟨f, hf⟩ := Builtin.exists_finds_of_starredGroup hstar
    refine hb.exists_asks (Builtin.ne_sqrt_of_intake (by simp [hstar])) [.star, .braced text]
      (f true text) fun l _ ts tail w _ _ hw => ?_
    obtain ⟨g, _, w, rfl, rfl, -, hblank, -, hw⟩ := hw.exists_of_cons
    obtain ⟨g', _, w', rfl, rfl, hg', -, -, hw'⟩ := hw.exists_of_cons
    exact ⟨w', hw', hf l _ _ _ w' true (some text) (finds_eat (hblank rfl) (by decide))
      (finds_group hg' htext)⟩
  | @environment name hname =>
    have hgroup {g w : List Char} (hg : IsGap g) :
        Reading.group.Finds { packages } (g ++ (braced name ++ w)) w (some name) :=
      finds_group hg hname
    cases hkind : Registry.builtin.environment? (String.ofList (Text.trim name)) with
    | none =>
      refine (stands_begin packages).exists_asks (by simp) [.braced name] none
        fun l hl ts tail w _ _ hw => ?_
      obtain ⟨g, _, w', rfl, rfl, hg, -, -, hw'⟩ := hw.exists_of_cons
      exact ⟨w', hw', Language.finds_openEnvironment_none (hgroup hg) (hl ▸ hkind)⟩
    | some kind =>
      cases hspec : kind.takesSpec with
      | false =>
        refine (stands_begin packages).exists_asks (by simp) [.braced name]
          (some (Language.opening name kind none)) fun l hl ts tail w _ _ hw => ?_
        obtain ⟨g, _, w', rfl, rfl, hg, -, -, hw'⟩ := hw.exists_of_cons
        exact ⟨w', hw', Language.finds_openEnvironment (hgroup hg) (hl ▸ hkind) hspec⟩
      | true =>
        refine (stands_begin packages).exists_asks (by simp) [.braced name] none
          fun l hl ts tail w hsep hts hw => ?_
        obtain ⟨g, _, w', rfl, rfl, hg, -, -, hw'⟩ := hw.exists_of_cons
        obtain ⟨g', cs, rfl, hg', hcs, hhead⟩ := hts.exists_gap hw'
        refine ⟨_, hw', Language.finds_openEnvironment_spec (o := none) (hgroup hg) (hl ▸ hkind)
          hspec (finds_group_of_head hg' hcs fun y hy hopen => ?_)⟩
        subst hopen
        obtain ⟨us, rfl⟩ := hhead '{' hy (by decide)
        exact hsep.spec name (takesSpec_iff.mpr ⟨kind, hkind, hspec⟩) ⟨[], us, rfl⟩
  | @array name spec hname hspec hbalanced =>
    obtain ⟨kind, hkind, htakes⟩ := takesSpec_iff.mp hspec
    refine (stands_begin packages).exists_asks (by simp) [.braced name, .braced spec]
      (some (Language.opening name kind (some spec))) fun l hl ts tail w _ _ hw => ?_
    obtain ⟨g, _, w, rfl, rfl, hg, -, -, hw⟩ := hw.exists_of_cons
    obtain ⟨g', _, w', rfl, rfl, hg', -, -, hw'⟩ := hw.exists_of_cons
    exact ⟨w', hw', Language.finds_openEnvironment_spec (finds_group hg hname) (hl ▸ hkind) htakes
      (finds_group hg' hbalanced)⟩
  | @columns name format hname hspec =>
    obtain ⟨kind, hkind, htakes⟩ := takesSpec_iff.mp hspec
    refine (stands_begin packages).exists_asks (by simp) [.braced name, .columns format]
      (some (.openEnvironment (String.ofList (Text.trim name)) kind format))
      fun l hl ts tail w _ _ hw => ?_
    obtain ⟨g, _, w, rfl, rfl, hg, -, -, hw⟩ := hw.exists_of_cons
    obtain ⟨g', _, w', rfl, ⟨spec, rfl, hbalanced, rfl, -⟩, hg', -, -, hw'⟩ := hw.exists_of_cons
    rw [← TableKind.format_of_takesSpec htakes]
    exact ⟨w', hw', Language.finds_openEnvironment_spec (finds_group hg hname) (hl ▸ hkind) htakes
      (finds_group hg' hbalanced)⟩

end IsPhrase

/-! ## Phrases that break off -/

theorem eq_or_eq_of_append_eq_pair {us vs : List Token} {t u v : Token}
    (h : us ++ t :: vs = [u, v]) :
    us = [] ∧ t = u ∨ us = [u] ∧ t = v := by
  rcases us with _ | ⟨x, us⟩
  · exact .inl ⟨rfl, (List.cons.inj h).1⟩
  · obtain ⟨rfl, hvs⟩ := List.cons.inj h
    obtain ⟨rfl, ht⟩ | ⟨-, ht⟩ := List.append_eq_singleton_iff.mp hvs
    · exact .inr ⟨rfl, (List.cons.inj ht).1⟩
    · cases ht

/-- A bracket in braces stands in the text between them. -/
theorem exists_of_braced_eq {b : List Char} (h : braced text = a ++ ']' :: b) :
    ∃ a' b', a = '{' :: a' ∧ text = a' ++ ']' :: b' := by
  cases a with
  | nil => cases h
  | cons x a =>
    obtain ⟨rfl, hinner⟩ := List.cons.inj h
    rcases List.append_eq_append_iff.mp hinner with ⟨as, rfl, has⟩ | ⟨bs, rfl, hbs⟩
    · cases as with
      | nil => cases has
      | cons y as => simp at has
    · cases bs with
      | nil => cases hbs
      | cons y bs =>
        obtain ⟨rfl, -⟩ := List.cons.inj hbs
        exact ⟨a, bs, rfl, rfl⟩

/-- A command that does not find its arguments is refused. -/
theorem Stands.settles_none (h : Stands packages name b) (hb : b ≠ .sqrt) {l : Language}
    (hl : l.registry = .builtin) {us : List Token} {w : List Char} {c : Cursor}
    (hw : Writes a .markup (.command name :: us) w) (hc : c.IsBefore w)
    (ho : ∀ w', Writes a .markup us w' → (b.start l).Finds { packages } w' [] none) :
    ParseState.Settles l packages c [] none := by
  obtain ⟨command, hcommand⟩ := h.exists_settles
  obtain ⟨w', hw', hsettles⟩ := hcommand l hl a us w hw
  rw [h.behind_eq hb] at hw'
  exact hsettles [] none c (ho w' hw') hc

open Reading in
/-- A phrase that breaks off before a bracket is refused: its command misses what it reads. -/
theorem IsCut.settles_none {us : List Token} (h : IsCut packages us a) {l : Language}
    (hl : l.registry = .builtin) {w : List Char} {c : Cursor} (hw : Writes a .markup us w)
    (hc : c.IsBefore w) : ParseState.Settles l packages c [] none := by
  obtain ⟨name, us, rfl, -⟩ := h.exists_command
  obtain ⟨depth, ha⟩ := h.exists_depth
  obtain ⟨t, vs, b, hp, hne, ht⟩ := h.exists_phrase
  have hgroup {text w' : List Char} (hbalanced : Cursor.IsBalanced text)
      (ht : (Token.braced text).text = a ++ ']' :: b) (hw' : Writes a .markup [] w') :
      ∃ g a', w' = g ++ '{' :: a' ∧ IsGap g ∧
        group.Finds { packages } (g ++ '{' :: a') [] none := by
    obtain ⟨a', b', rfl, rfl⟩ := exists_of_braced_eq ht
    cases hw' with
    | nil hg => exact ⟨_, a', rfl, hg.isGap, finds_group_of_cut hg.isGap hbalanced⟩
  generalize hq : Token.command name :: us ++ t :: vs = p at hp
  cases hp with
  | char | command | rowSeparator | root => simp at hq
  | @delimiter name' text b' hb hdelimiter htext =>
    obtain ⟨rfl, rfl, rfl, rfl⟩ : name = name' ∧ us = [] ∧ t = .delimiter text ∧ vs = [] := by
      simpa [List.append_eq_cons_iff] using hq
    have hnil : a = [] := by
      cases htext with
      | char =>
        obtain ⟨hnil, -⟩ : a = [] ∧ _ := by
          simpa [Token.text, List.singleton_eq_append_iff] using ht
        exact hnil
      | command hname => exact hname.eq_nil_of_append (by decide) ha ht
    subst hnil
    obtain ⟨f, hf⟩ := Builtin.exists_start_of_delimiter hdelimiter
    have hne : b' ≠ .sqrt := Builtin.ne_sqrt_of_intake (by simp [hdelimiter])
    refine hb.settles_none hne hl hw hc fun w' hw' => ?_
    cases hw' with
    | nil hg =>
      rw [hf]
      exact (finds_delimiter_of_nil hg.isGap).map f
  | @group name' text b' hb hintake htext =>
    obtain ⟨rfl, rfl, rfl, rfl⟩ : name = name' ∧ us = [] ∧ t = .braced text ∧ vs = [] := by
      simpa [List.append_eq_cons_iff] using hq
    obtain ⟨f, hf⟩ := Builtin.exists_finds_of_brace hintake
    have hne : b' ≠ .sqrt := Builtin.ne_sqrt_of_intake (by rcases hintake with h | h <;> simp [h])
    refine hb.settles_none hne hl hw hc fun w' hw' => ?_
    obtain ⟨g, a', rfl, hg, hfinds⟩ := hgroup htext ht hw'
    exact hf l _ g a' [] none hg hfinds
  | @star name' text b' hb hstar htext =>
    obtain ⟨⟨⟩, hpair⟩ := List.cons.inj hq
    obtain ⟨rfl, rfl⟩ | ⟨rfl, rfl⟩ := eq_or_eq_of_append_eq_pair hpair
    · simp [Token.text, List.singleton_eq_append_iff] at ht
    obtain ⟨f, hf⟩ := Builtin.exists_finds_of_starredGroup hstar
    have hne : b' ≠ .sqrt := Builtin.ne_sqrt_of_intake (by simp [hstar])
    refine hb.settles_none hne hl hw hc fun w' hw' => ?_
    obtain ⟨g, _, w₁, rfl, rfl, -, hblank, -, hw₁⟩ := hw'.exists_of_cons
    obtain ⟨g', a', rfl, -, hfinds⟩ := hgroup htext ht hw₁
    exact hf l _ _ _ [] true none (finds_eat (hblank rfl) (by decide)) hfinds
  | @environment name' hname =>
    obtain ⟨rfl, rfl, rfl, rfl⟩ :
        name = "begin".toList ∧ us = [] ∧ t = .braced name' ∧ vs = [] := by
      simpa [List.append_eq_cons_iff] using hq
    refine (stands_begin packages).settles_none (by simp) hl hw hc fun w' hw' => ?_
    obtain ⟨g, a', rfl, -, hfinds⟩ := hgroup hname ht hw'
    exact hfinds.bind_none
  | @array name' spec hname hspec hbalanced =>
    obtain ⟨kind, hkind, htakes⟩ := takesSpec_iff.mp hspec
    obtain ⟨⟨⟩, hpair⟩ := List.cons.inj hq
    obtain ⟨rfl, rfl⟩ | ⟨rfl, rfl⟩ := eq_or_eq_of_append_eq_pair hpair
    · refine (stands_begin packages).settles_none (by simp) hl hw hc fun w' hw' => ?_
      obtain ⟨g, a', rfl, -, hfinds⟩ := hgroup hname ht hw'
      exact hfinds.bind_none
    · refine (stands_begin packages).settles_none (by simp) hl hw hc fun w' hw' => ?_
      obtain ⟨g, _, w₁, rfl, rfl, hg, -, -, hw₁⟩ := hw'.exists_of_cons
      obtain ⟨g', a', rfl, -, hfinds⟩ := hgroup hbalanced ht hw₁
      exact Language.finds_openEnvironment_spec (finds_group hg hname) (hl ▸ hkind) htakes hfinds
  | @columns name' format hname =>
    obtain ⟨⟨⟩, hpair⟩ := List.cons.inj hq
    obtain ⟨rfl, rfl⟩ | ⟨-, rfl⟩ := eq_or_eq_of_append_eq_pair hpair
    · refine (stands_begin packages).settles_none (by simp) hl hw hc fun w' hw' => ?_
      obtain ⟨g, a', rfl, -, hfinds⟩ := hgroup hname ht hw'
      exact hfinds.bind_none
    · simp [Token.text] at ht

end Typeset
