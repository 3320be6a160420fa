import Typeset.Markup.Definition

/-!
# Replacement texts

A replacement text as segments, each with the text that it is written as and the text that it
stands for.

* `Segment`, `Template`: literal texts, places of arguments, and number signs that mark nothing.
* `Definition.substitute_written`: the scan of a segment puts out its text and goes on behind it.
* `Template.exists_written_eq`: every text is the writing of a template.
* `Template.expand_written`: a definition expands to the texts of its segments.
-/

namespace Typeset

/-- What a number sign in front of the character means something with: another one, or the digit of
an argument. -/
def IsMark (x : Char) : Prop := x = '#' ∨ '1' ≤ x ∧ x ≤ '9'

/-- The digit for an argument. -/
def argumentDigit (i : Fin 9) : Char := Char.ofNat ('1'.toNat + i)

/-- A piece of a replacement text. -/
inductive Segment where
  | literal (text : List Char)
  | argument (i : Fin 9)
  /-- A number sign in front of a character with which it means nothing. -/
  | stray (x : Char) (h : ¬IsMark x)

namespace Segment

/-- A segment as a definition has it: the number signs of a literal text are doubled. -/
def written : Segment → List Char
  | literal text => text.flatMap fun x => if x = '#' then ['#', '#'] else [x]
  | argument i => ['#', argumentDigit i]
  | stray x _ => ['#', x]

/-- What a segment stands for: an argument as it is given, and what is written for an argument that
is not given. -/
def value (args : List (List Char)) : Segment → List Char
  | literal text => text
  | argument i => args[i]?.getD ['#', argumentDigit i]
  | stray x _ => ['#', x]

end Segment

/-- A replacement text as its segments. A last number sign has nothing behind it. -/
structure Template where
  segments : List Segment
  endsInSign : Bool

namespace Template

/-- A text behind those of the segments. -/
def join (t : Template) (text : Segment → List Char) : List Char :=
  t.segments.flatMap text ++ if t.endsInSign then ['#'] else []

/-- A template as a definition has it. -/
def written (t : Template) : List Char := t.join Segment.written

/-- What a template stands for. -/
def value (t : Template) (args : List (List Char)) : List Char := t.join (Segment.value args)

/-- The template with one more segment in front. -/
def cons (s : Segment) (t : Template) : Template := { t with segments := s :: t.segments }

theorem join_cons (s : Segment) (t : Template) (text : Segment → List Char) :
    (t.cons s).join text = text s ++ t.join text := by
  rw [join, cons, List.flatMap_cons, List.append_assoc]
  rfl

end Template

/-! ## Digits -/

theorem argumentDigit_bounds : ∀ i, '1' ≤ argumentDigit i ∧ argumentDigit i ≤ '9' := by decide

theorem argumentDigit_toNat : ∀ i, (argumentDigit i).toNat - '1'.toNat = i := by decide

theorem argumentDigit_ne : ∀ i, argumentDigit i ≠ '#' := by decide

theorem exists_argumentDigit_eq {x : Char} (h : '1' ≤ x ∧ x ≤ '9') : ∃ i, argumentDigit i = x := by
  have hlow : '1'.toNat ≤ x.toNat := h.1
  have hhigh : x.toNat ≤ '9'.toNat := h.2
  have hlt : x.toNat - '1'.toNat < 9 := by
    simp only [show '9'.toNat = 57 by rfl, show '1'.toNat = 49 by rfl] at *
    omega
  refine ⟨⟨x.toNat - '1'.toNat, hlt⟩, ?_⟩
  rw [argumentDigit, Nat.add_sub_cancel' hlow, Char.ofNat_toNat]

namespace Definition

variable (args : List (List Char)) {x : Char}

theorem argument?_argumentDigit (i : Fin 9) : argument? args (argumentDigit i) = args[i]? := by
  rw [argument?, if_pos (argumentDigit_bounds i), argumentDigit_toNat]
  rfl

/-! ## The scan -/

theorem substitute_cons (hx : x ≠ '#') (cs : List Char) :
    substitute args (x :: cs) = x :: substitute args cs := by
  cases cs with
  | nil => rfl
  | cons d cs => rw [substitute, if_neg hx]

theorem substitute_doubled (cs : List Char) :
    substitute args ('#' :: '#' :: cs) = '#' :: substitute args cs := by
  rw [substitute, if_pos rfl, if_pos rfl]

/-- A number sign takes an argument that is there, and is put out in front of anything else. -/
theorem substitute_sign (hx : x ≠ '#') (cs : List Char) :
    substitute args ('#' :: x :: cs) = (argument? args x).getD ['#', x] ++ substitute args cs := by
  rw [substitute, if_pos rfl, if_neg hx]
  cases argument? args x with
  | none => rw [substitute_cons args hx]; rfl
  | some a => rfl

theorem substitute_literal (text cs : List Char) :
    substitute args ((Segment.literal text).written ++ cs) = text ++ substitute args cs := by
  induction text with
  | nil => rfl
  | cons x text ih =>
    rw [Segment.written] at ih
    rw [Segment.written, List.flatMap_cons, List.append_assoc]
    split
    · rename_i hx
      rw [hx]
      exact (substitute_doubled args _).trans (congrArg _ ih)
    · rename_i hx
      exact (substitute_cons args hx _).trans (congrArg _ ih)

/-- The scan of a segment puts out its text and goes on behind it, whatever follows. -/
theorem substitute_written (s : Segment) (cs : List Char) :
    substitute args (s.written ++ cs) = s.value args ++ substitute args cs := by
  cases s with
  | literal text => exact substitute_literal args text cs
  | argument i =>
    rw [Segment.value, ← argument?_argumentDigit]
    exact substitute_sign args (argumentDigit_ne i) cs
  | stray x h =>
    have hnone : argument? args x = none := if_neg fun hx => h (.inr hx)
    exact (substitute_sign args (fun hx => h (.inl hx)) cs).trans (by rw [hnone]; rfl)

end Definition

namespace Template

/-- Every text is the writing of a template. -/
theorem exists_written_eq : ∀ text : List Char, ∃ t : Template, t.written = text
  | [] => ⟨⟨[], false⟩, rfl⟩
  | x :: cs => by
    by_cases hx : x = '#'
    · subst hx
      cases cs with
      | nil => exact ⟨⟨[], true⟩, rfl⟩
      | cons y cs =>
        obtain ⟨t, ht⟩ := exists_written_eq cs
        obtain ⟨s, hs⟩ : ∃ s : Segment, s.written = ['#', y] := by
          by_cases hy : IsMark y
          · obtain rfl | hy := hy
            · exact ⟨.literal ['#'], rfl⟩
            · obtain ⟨i, rfl⟩ := exists_argumentDigit_eq hy
              exact ⟨.argument i, rfl⟩
          · exact ⟨.stray y hy, rfl⟩
        exact ⟨t.cons s, by rw [written, join_cons, hs, ← written, ht]; rfl⟩
    · obtain ⟨t, ht⟩ := exists_written_eq cs
      have hs : (Segment.literal [x]).written = [x] := by simp [Segment.written, hx]
      exact ⟨t.cons (.literal [x]), by rw [written, join_cons, hs, ← written, ht]; rfl⟩

theorem substitute_written (t : Template) (args : List (List Char)) :
    Definition.substitute args t.written = t.value args := by
  obtain ⟨segments, endsInSign⟩ := t
  induction segments with
  | nil => cases endsInSign <;> rfl
  | cons s segments ih =>
    have hcons (text : Segment → List Char) := join_cons s ⟨segments, endsInSign⟩ text
    rw [written, value]
    exact (congrArg _ (hcons _)).trans <| (Definition.substitute_written args s _).trans <|
      (congrArg _ ih).trans (hcons _).symm

/-- The replacement text of a definition is put out segment by segment, with the arguments as they
are given, and every text is the replacement text of such segments. -/
theorem expand_written (d : Definition) :
    (∀ (t : Template) (args : List (List Char)),
      ({ d with body := t.written } : Definition).expand args = t.value args) ∧
    ∀ text : List Char, ∃ t : Template, t.written = text :=
  ⟨substitute_written, exists_written_eq⟩

example : Definition.substitute ["#2".toList] "##1 #1 #2 #x #".toList =
    "#1 #2 #2 #x #".toList := by decide

end Template

end Typeset
