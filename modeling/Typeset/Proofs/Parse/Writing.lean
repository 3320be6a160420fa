import Typeset.Proofs.Cursor.Gaps
import Typeset.Proofs.Parse.Calls

/-!
# Writings of markup

Tokens, and the texts that write them with blanks and comments in between.

* `Token`: a token with its text; `Token.IsSound` says which texts a token may have, and
  `Token.Spells` which texts may stand for it.
* `IsGapAt`: what may stand before a token at a place.
* `Writes`: a text writes tokens, and breaks off with a tail.
* `Writes.closing_cases`: in two writings of the same tokens the same token closes a bracket.
-/

namespace Typeset

/-! ## Tokens -/

/-- The name of a command: letters, or one other character. -/
inductive IsName : List Char → Prop where
  | word {name : List Char} : IsWord name → IsName name
  | char {x : Char} : x.isAlpha = false → IsName [x]

theorem isName_iff {name : List Char} :
    IsName name ↔ name ≠ [] ∧ (name.length = 1 ∨ name.all Char.isAlpha = true) := by
  constructor
  · rintro (h | _)
    · exact ⟨h.ne_nil, .inr (List.all_eq_true.mpr h.isAlpha)⟩
    · exact ⟨by simp, .inl rfl⟩
  · rintro ⟨hne, hlen | halpha⟩
    · obtain ⟨x, rfl⟩ := List.length_eq_one_iff.mp hlen
      cases hx : x.isAlpha with
      | false => exact .char hx
      | true => exact .word ⟨hne, by simpa using hx⟩
    · exact .word ⟨hne, List.all_eq_true.mp halpha⟩

instance (name : List Char) : Decidable (IsName name) := decidable_of_iff _ isName_iff.symm

/-- A character that starts no comment and no command. -/
structure IsPlainChar (x : Char) : Prop where
  isBlank : Text.isBlank x = false
  ne_percent : x ≠ '%'
  ne_backslash : x ≠ '\\'

/-- What may stand as a delimiter: one character, or a command. -/
inductive IsDelimiterText : List Char → Prop where
  | char {x : Char} : IsPlainChar x → IsDelimiterText [x]
  | command {name : List Char} : IsName name → IsDelimiterText ('\\' :: name)

theorem IsPlainChar.startsToken {x : Char} (h : IsPlainChar x) (cs : List Char) :
    StartsToken (x :: cs) :=
  startsToken_cons ⟨h.isBlank, h.ne_percent⟩ cs

theorem IsDelimiterText.startsToken {d : List Char} (h : IsDelimiterText d) (cs : List Char) :
    StartsToken (d ++ cs) := by
  cases h with
  | char hx => exact hx.startsToken cs
  | command => exact startsToken_cons (by decide) _

/-- A token of markup. -/
inductive Token where
  /-- A character that is a token of its own, whatever it means. -/
  | char (x : Char)
  /-- A command, by its name. -/
  | command (name : List Char)
  /-- The star of a command. -/
  | star
  /-- The delimiter of a fence. -/
  | delimiter (text : List Char)
  /-- An argument in braces that is read as it stands. -/
  | braced (text : List Char)
  /-- The columns of an array, however its specification spells them. -/
  | columns (format : ColumnFormat)
  deriving DecidableEq, Repr

namespace Token

/-- How the token is written, if there is one way to. -/
def text : Token → List Char
  | char x => [x]
  | command name => '\\' :: name
  | star => ['*']
  | delimiter text => text
  | braced text => Canonical.braced text
  | columns _ => []

/-- The token is written as one. -/
def IsSound : Token → Prop
  | char x => IsPlainChar x
  | command name => IsName name
  | star => True
  | delimiter text => IsDelimiterText text
  | braced text => Cursor.IsBalanced text
  | columns _ => True

/-- The token ends with the letters of a command, and a letter after it would be one of them. -/
def endsInLetters (t : Token) : Bool :=
  match t.text with
  | '\\' :: x :: _ => x.isAlpha
  | _ => false

end Token

/-- Behind the backslash of a command there is nothing but its name: letters, or the character that
the backslash takes along. -/
theorem IsName.eq_nil_of_append {name a b : List Char} {x : Char} {depth depth' : Nat}
    (h : IsName name) (hx : x.isAlpha = false) (ha : bracketDepth? depth a = some depth')
    (he : '\\' :: name = a ++ x :: b) : a = [] := by
  cases a with
  | nil => rfl
  | cons y a =>
    obtain ⟨rfl, hname⟩ := List.cons.inj he
    rcases h with h | hz
    · have hmem : x ∈ name := by simp [hname]
      simp [h.isAlpha x hmem] at hx
    · obtain ⟨rfl, -⟩ : a = [] ∧ _ := by simpa [List.singleton_eq_append_iff] using hname
      simp [bracketDepth?] at ha

namespace Token

variable {t : Token} {a b : List Char} {depth depth' : Nat}

/-- A token does not end in the midst of an escape. -/
theorem IsSound.text_ne (h : t.IsSound) (ha : bracketDepth? depth a = some depth') :
    t.text ≠ a ++ ['\\'] := by
  intro he
  have hchar {x : Char} (hx : IsPlainChar x) : [x] ≠ a ++ ['\\'] := by
    intro he
    have hlast := congrArg List.getLast? he
    simp only [List.getLast?_singleton, List.getLast?_concat, Option.some.injEq] at hlast
    exact hx.ne_backslash hlast
  have hcommand {name : List Char} (hname : IsName name) : '\\' :: name ≠ a ++ ['\\'] := by
    intro he
    obtain rfl := hname.eq_nil_of_append (by decide) ha he
    obtain rfl := (List.cons.inj he).2
    cases hname with
    | word hname => exact hname.ne_nil rfl
  cases t with
  | char x => exact hchar h he
  | command name => exact hcommand h he
  | star =>
    have hlast := congrArg List.getLast? he
    simp [text] at hlast
  | braced =>
    have hlast := congrArg List.getLast? he
    rw [text, Canonical.braced, ← List.cons_append, List.getLast?_concat,
      List.getLast?_concat] at hlast
    cases hlast
  | delimiter text =>
    cases h with
    | char hx => exact hchar hx he
    | command hname => exact hcommand hname he
  | columns => simp [text] at he

end Token

/-! ## Writings -/

/-- Where a token stands. -/
inductive Place where
  | markup
  /-- Behind a root, which may have a degree in brackets. -/
  | root
  /-- In the degree of a root, with brackets open within it. -/
  | degree (depth : Nat)
  deriving DecidableEq, Repr

namespace Place

/-- The place is in the degree of a root, where the text is read as it stands and comments are not
known. -/
def isRaw : Place → Bool
  | degree _ => true
  | _ => false

/-- The place behind a token that stands outside of a degree. -/
def behind (t : Token) : Place := if t = .command "sqrt".toList then root else markup

/-- The place behind a token. -/
def after (t : Token) : Place → Place
  | markup => behind t
  | root => if t = .char '[' then degree 0 else behind t
  | degree depth => ((bracketDepth? depth t.text).map degree).getD markup

end Place

/-- What may stand before a token: blanks and comments, which open and close brackets in pairs in
the degree of a root. -/
structure IsGapAt (place : Place) (g : List Char) : Prop where
  isGap : IsGap g
  bracketDepth?_eq : place.isRaw = true → bracketDepth? 0 g = some 0

theorem isGapAt_nil (place : Place) : IsGapAt place [] := ⟨.nil, fun _ => rfl⟩

namespace IsGapAt

variable {g : List Char} {depth : Nat} {place : Place}

theorem of_not_raw (h : IsGap g) (hplace : place.isRaw = false) : IsGapAt place g :=
  ⟨h, fun hraw => by simp [hplace] at hraw⟩

theorem of_raw (h : IsGapAt (.degree depth) g) (place : Place) : IsGapAt place g :=
  ⟨h.isGap, fun _ => h.bracketDepth?_eq rfl⟩

theorem bracketDepth? (h : IsGapAt (.degree depth) g) (depth : Nat) :
    bracketDepth? depth g = some depth := by
  have hadd := bracketDepth?_add (h.bracketDepth?_eq rfl) depth
  rwa [Nat.zero_add] at hadd

end IsGapAt

/-- A text spells the token. Any specification spells the columns that it describes; in the degree
of a root it opens and closes brackets in pairs. -/
def Token.Spells (place : Place) : Token → List Char → Prop
  | columns format, s => ∃ spec, s = Canonical.braced spec ∧ Cursor.IsBalanced spec ∧
      ColumnFormat.read spec = format ∧ (place.isRaw = true → bracketDepth? 0 s = some 0)
  | t, s => s = t.text

namespace Token.Spells

variable {place place' : Place} {t : Token} {s : List Char} {depth : Nat}

theorem of_imp (h : t.Spells place s) (hplace : place'.isRaw = true → place.isRaw = true) :
    t.Spells place' s := by
  cases t with
  | columns format =>
    obtain ⟨spec, hs, hbalanced, hread, hdepth⟩ := h
    exact ⟨spec, hs, hbalanced, hread, fun hraw => hdepth (hplace hraw)⟩
  | char | command | star | delimiter | braced => exact h

theorem eq_text (h : t.Spells place s) (ht : t.text ≠ []) : s = t.text := by
  cases t with
  | columns => exact absurd rfl ht
  | char | command | star | delimiter | braced => exact h

theorem bracketDepth?_eq (h : t.Spells (.degree depth) s) (depth : Nat) :
    bracketDepth? depth s = bracketDepth? depth t.text := by
  cases t with
  | columns format =>
    obtain ⟨spec, -, -, -, hdepth⟩ := h
    have hadd := bracketDepth?_add (hdepth rfl) depth
    rwa [Nat.zero_add] at hadd
  | char | command | star | delimiter | braced => exact congrArg (bracketDepth? depth) h

end Token.Spells

/-- A token is spelled by a text between two others and keeps what it is: nothing but blanks stands
before a star, and letters keep their distance from the name of a command. -/
structure IsSpelled (place : Place) (t : Token) (g s w : List Char) : Prop where
  spells : t.Spells place s
  isGapAt : IsGapAt place g
  isBlank : t = .star → ∀ x ∈ g, Text.isBlank x = true
  isApart : t.endsInLetters = true → ∀ x ∈ w.head?, x.isAlpha = false

/-- A text writes tokens and breaks off with a tail: there may be blanks and comments before each of
them. -/
inductive Writes (tail : List Char) : Place → List Token → List Char → Prop where
  | nil {place : Place} {g : List Char} : IsGapAt place g → Writes tail place [] (g ++ tail)
  | cons {place : Place} {t : Token} {ts : List Token} {g s w : List Char} :
      IsSpelled place t g s w → Writes tail (place.after t) ts w →
      Writes tail place (t :: ts) (g ++ (s ++ w))

namespace Writes

open Cursor (balancedLength?)

variable {tail w w' g s a : List Char} {ts us : List Token} {t : Token} {depth depth' : Nat}

theorem exists_of_cons (h : Writes tail .markup (t :: ts) w) : ∃ g s w', w = g ++ (s ++ w') ∧
    t.Spells .markup s ∧ IsGap g ∧ (t = .star → ∀ x ∈ g, Text.isBlank x = true) ∧
    (t.endsInLetters = true → ∀ x ∈ w'.head?, x.isAlpha = false) ∧
    Writes tail (.behind t) ts w' := by
  cases h with
  | cons hs hw =>
    exact ⟨_, _, _, rfl, hs.spells, hs.isGapAt.isGap, hs.isBlank, hs.isApart, hw⟩

theorem cons_char {place : Place} {x : Char} (hg : IsGapAt place g)
    (hw : Writes tail (place.after (.char x)) ts w) :
    Writes tail place (.char x :: ts) (g ++ x :: w) :=
  .cons (s := [x]) ⟨rfl, hg, nofun, by simp [Token.endsInLetters, Token.text]⟩ hw

theorem cons_command {place : Place} {name : List Char} (hg : IsGapAt place g)
    (hapart : (Token.command name).endsInLetters = true → ∀ x ∈ w.head?, x.isAlpha = false)
    (hw : Writes tail (place.after (.command name)) ts w) :
    Writes tail place (.command name :: ts) (g ++ '\\' :: (name ++ w)) :=
  .cons (s := '\\' :: name) ⟨rfl, hg, nofun, hapart⟩ hw

theorem cons_star {place : Place} (hg : IsGapAt place g) (hblank : ∀ x ∈ g, Text.isBlank x = true)
    (hw : Writes tail (place.after .star) ts w) :
    Writes tail place (.star :: ts) (g ++ '*' :: w) :=
  .cons (s := ['*']) ⟨rfl, hg, fun _ => hblank, nofun⟩ hw

theorem cons_braced {place : Place} {text : List Char} (hg : IsGapAt place g)
    (hw : Writes tail (place.after (.braced text)) ts w) :
    Writes tail place (.braced text :: ts) (g ++ (Canonical.braced text ++ w)) :=
  .cons ⟨rfl, hg, nofun, nofun⟩ hw

theorem cons_columns {place : Place} {format : ColumnFormat} (hg : IsGapAt place g)
    (hs : (Token.columns format).Spells place s)
    (hw : Writes tail (place.after (.columns format)) ts w) :
    Writes tail place (.columns format :: ts) (g ++ (s ++ w)) :=
  .cons ⟨hs, hg, nofun, nofun⟩ hw

/-- A text that ends with a part of its tokens. -/
def Closed (depth : Nat) (us : List Token) (a w : List Char) (next : List Char → Prop) : Prop :=
  ∃ x y, w = x ++ ']' :: y ∧ balancedLength? '[' ']' depth w = some x.length ∧
    (∀ place, Writes a place us x) ∧ next y

/-- No bracket closes the degree. -/
def Unclosed (depth : Nat) (ts : List Token) (tail w : List Char) : Prop :=
  balancedLength? '[' ']' depth w = none ∧ ∀ place, Writes tail place ts w

theorem balancedLength?_token (hs : IsSpelled (.degree depth) t g s w)
    (ht : bracketDepth? depth t.text = some depth') (w : List Char) :
    balancedLength? '[' ']' depth (g ++ (s ++ w)) =
      (balancedLength? '[' ']' depth' w).map (· + (g ++ s).length) := by
  rw [← List.append_assoc]
  refine balancedLength?_append ?_ w
  rw [bracketDepth?_append (hs.isGapAt.bracketDepth? depth), hs.spells.bracketDepth?_eq, ht]

theorem Unclosed.cons (hs : IsSpelled (.degree depth) t g s w)
    (ht : bracketDepth? depth t.text = some depth') (h : Unclosed depth' ts tail w) :
    Unclosed depth (t :: ts) tail (g ++ (s ++ w)) := by
  obtain ⟨hn, hw⟩ := h
  refine ⟨by rw [balancedLength?_token hs ht, hn]; rfl, fun place => .cons ⟨?_, ?_, ?_, ?_⟩ (hw _)⟩
  · exact hs.spells.of_imp fun _ => rfl
  · exact hs.isGapAt.of_raw place
  · exact hs.isBlank
  · exact hs.isApart

theorem Closed.cons {next : List Char → Prop} (hs : IsSpelled (.degree depth) t g s w)
    (ht : bracketDepth? depth t.text = some depth') (h : Closed depth' us a w next) :
    Closed depth (t :: us) a (g ++ (s ++ w)) next := by
  obtain ⟨x, y, rfl, hn, hw, hy⟩ := h
  refine ⟨g ++ (s ++ x), y, by simp, ?_,
    fun place => .cons ⟨?_, ?_, ?_, fun he z hz => ?_⟩ (hw _), hy⟩
  · rw [balancedLength?_token hs ht, hn]
    simp only [Option.map_some, List.length_append]
    exact congrArg some (by omega)
  · exact hs.spells.of_imp fun _ => rfl
  · exact hs.isGapAt.of_raw place
  · exact hs.isBlank
  · refine hs.isApart he z ?_
    cases x with
    | nil => cases hz
    | cons => exact hz

theorem unclosed_nil (hg : IsGapAt (.degree depth) g)
    (h : balancedLength? '[' ']' depth tail = none) : Unclosed depth [] tail (g ++ tail) := by
  refine ⟨?_, fun place => .nil (hg.of_raw _)⟩
  rw [balancedLength?_append (hg.bracketDepth? depth), h]
  rfl

/-- The text is closed within its first token. -/
theorem closed_nil {b : List Char} {next : List Char → Prop} (hg : IsGapAt (.degree depth) g)
    (ha : bracketDepth? depth a = some 0) (hb : next b) :
    Closed depth [] a (g ++ (a ++ ']' :: b)) next := by
  refine ⟨g ++ a, b, by simp, ?_, fun place => .nil (hg.of_raw _), hb⟩
  rw [← List.append_assoc]
  have hclosed : bracketDepth? depth (g ++ a) = some 0 := by
    rw [bracketDepth?_append (hg.bracketDepth? depth), ha]
  exact balancedLength?_of_bracketDepth? hclosed b

/-- The first part of some tokens, which ends within a token before a bracket. -/
def IsPart (us : List Token) (a : List Char) (ts : List Token) (tail : List Char) : Prop :=
  (∃ depth, bracketDepth? depth a = some 0) ∧
    ((∃ t vs b, ts = us ++ t :: vs ∧ t ≠ .char ']' ∧ t.text = a ++ ']' :: b) ∨
      us = ts ∧ ∃ b, tail = a ++ ']' :: b)

theorem IsPart.cons (h : IsPart us a ts tail) (t : Token) : IsPart (t :: us) a (t :: ts) tail := by
  obtain ⟨ha, ⟨u, vs, b, rfl, hu⟩ | ⟨rfl, b, rfl⟩⟩ := h
  · exact ⟨ha, .inl ⟨u, vs, b, rfl, hu⟩⟩
  · exact ⟨ha, .inr ⟨rfl, b, rfl⟩⟩

/-- In two writings of the same tokens a degree is not closed, or the same bracket closes it, or it
is closed within the same token. -/
theorem closing_cases (hsound : ∀ t ∈ ts, t.IsSound) (h : Writes tail (.degree depth) ts w)
    (h' : Writes tail (.degree depth) ts w') :
    (Unclosed depth ts tail w ∧ Unclosed depth ts tail w') ∨
      (∃ us vs, ts = us ++ .char ']' :: vs ∧ Closed depth us [] w (Writes tail .markup vs) ∧
        Closed depth us [] w' (Writes tail .markup vs)) ∨
      ∃ us a, IsPart us a ts tail ∧ Closed depth us a w (fun _ => True) ∧
        Closed depth us a w' (fun _ => True) := by
  induction ts generalizing depth w w' with
  | nil =>
    obtain ⟨hg⟩ := h
    obtain ⟨hg'⟩ := h'
    cases hn : balancedLength? '[' ']' depth tail with
    | none => exact .inl ⟨unclosed_nil hg hn, unclosed_nil hg' hn⟩
    | some n =>
      obtain ⟨a, b, ha, rfl⟩ := exists_of_balancedLength?_eq_some hn
      exact .inr (.inr ⟨[], a, ⟨⟨depth, ha⟩, .inr ⟨rfl, b, rfl⟩⟩, closed_nil hg ha trivial,
        closed_nil hg' ha trivial⟩)
  | cons t ts ih =>
    obtain _ | ⟨hs, hw⟩ := h
    obtain _ | ⟨hs', hw'⟩ := h'
    cases ht : bracketDepth? depth t.text with
    | some depth' =>
      simp only [Place.after, ht, Option.map_some, Option.getD_some] at hw hw'
      obtain ⟨hu, hu'⟩ | ⟨us, vs, rfl, hc, hc'⟩ | ⟨us, a, hp, hc, hc'⟩ :=
        ih (fun u hu => hsound u (by simp [hu])) hw hw'
      · exact .inl ⟨hu.cons hs ht, hu'.cons hs' ht⟩
      · exact .inr (.inl ⟨t :: us, vs, rfl, hc.cons hs ht, hc'.cons hs' ht⟩)
      · exact .inr (.inr ⟨t :: us, a, hp.cons t, hc.cons hs ht, hc'.cons hs' ht⟩)
    | none =>
      simp only [Place.after, ht, Option.map_none, Option.getD_none] at hw hw'
      obtain ⟨a, depth', ha, he | ⟨rfl, b, he⟩⟩ := breaksOff_of_bracketDepth?_eq_none ht
      · exact absurd he ((hsound t (by simp)).text_ne ha)
      have hne : t.text ≠ [] := by simp [he]
      by_cases hc : t = .char ']'
      · subst hc
        obtain ⟨rfl, -⟩ : a = [] ∧ _ := by
          simpa [Token.text, List.singleton_eq_append_iff] using he
        obtain rfl := hs.spells.eq_text hne
        obtain rfl := hs'.spells.eq_text hne
        exact .inr (.inl ⟨[], ts, rfl, closed_nil hs.isGapAt ha hw,
          closed_nil hs'.isGapAt ha hw'⟩)
      · refine .inr (.inr ⟨[], a, ⟨⟨depth, ha⟩, .inl ⟨t, ts, b, rfl, hc, he⟩⟩, ?_⟩)
        rw [hs.spells.eq_text hne, hs'.spells.eq_text hne, he, List.append_assoc, List.append_assoc]
        exact ⟨closed_nil hs.isGapAt ha trivial, closed_nil hs'.isGapAt ha trivial⟩

end Writes

end Typeset
