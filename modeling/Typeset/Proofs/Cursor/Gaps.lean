import Typeset.Proofs.Cursor.Before

/-!
# Gaps between tokens

The blanks and comments between the tokens of markup, and the readings that pass over them or count
brackets across them.

* `IsGap`: blanks, and comments with the ends of their lines.
* `Cursor.IsBefore.skipIgnorable_rest`: what passes over blanks and comments passes over a gap.
* `bracketDepth?`: how many brackets are open after a text.
* `balancedLength?_append`: where brackets are closed is found piece by piece.
-/

namespace Typeset

/-- Blanks, and comments with the ends of their lines. -/
inductive IsGap : List Char → Prop where
  | nil : IsGap []
  | blank {x : Char} {g : List Char} : Text.isBlank x = true → IsGap g → IsGap (x :: g)
  | comment {text g : List Char} : (∀ x ∈ text, x ≠ '\n') → IsGap g →
      IsGap ('%' :: (text ++ '\n' :: g))

theorem isGap_of_blanks {g : List Char} (h : ∀ x ∈ g, Text.isBlank x = true) : IsGap g := by
  induction g with
  | nil => exact .nil
  | cons x g ih => exact .blank (h x (by simp)) (ih fun y hy => h y (by simp [hy]))

theorem isGap_of_comment (text : List Char) (h : ∀ x ∈ text, x ≠ '\n') :
    IsGap ('%' :: (text ++ ['\n'])) :=
  .comment h .nil

/-- The text starts with a token, or has ended. -/
def StartsToken (cs : List Char) : Prop := ∀ x ∈ cs.head?, Text.isBlank x = false ∧ x ≠ '%'

theorem startsToken_cons {x : Char} (hx : Text.isBlank x = false ∧ x ≠ '%') (cs : List Char) :
    StartsToken (x :: cs) := by
  rintro _ ⟨⟩
  exact hx

namespace Cursor

variable {c : Cursor} {g cs : List Char}

theorem commentLength_append {text : List Char} (h : ∀ x ∈ text, x ≠ '\n') (cs : List Char) :
    commentLength (text ++ '\n' :: cs) = text.length + 1 + ignorableLength cs := by
  induction text with
  | nil => rw [List.nil_append, commentLength, if_pos rfl, List.length_nil]
  | cons x text ih =>
    rw [List.cons_append, commentLength, if_neg (h x (by simp)), ih fun y hy => h y (by simp [hy]),
      List.length_cons]
    omega

theorem ignorableLength_append (hg : IsGap g) (cs : List Char) :
    ignorableLength (g ++ cs) = g.length + ignorableLength cs := by
  induction hg with
  | nil => rw [List.nil_append, List.length_nil, Nat.zero_add]
  | blank hx _ ih =>
    rw [List.cons_append, ignorableLength, if_pos hx, ih, List.length_cons]
    omega
  | comment htext _ ih =>
    rw [List.cons_append, ignorableLength, if_neg (by decide), if_pos rfl, List.append_assoc,
      List.cons_append, commentLength_append htext, ih]
    simp only [List.length_cons, List.length_append]
    omega

theorem ignorableLength_of_startsToken (h : StartsToken cs) : ignorableLength cs = 0 := by
  cases cs with
  | nil => rfl
  | cons x cs =>
    obtain ⟨hx, hp⟩ := h x rfl
    rw [ignorableLength, if_neg (by simp [hx]), if_neg hp]

/-- It does not matter which reading takes the blanks in front of blanks and comments. -/
theorem drop_ignorableLength_dropWhile (cs : List Char) :
    (cs.dropWhile Text.isBlank).drop (ignorableLength (cs.dropWhile Text.isBlank)) =
      cs.drop (ignorableLength cs) := by
  induction cs with
  | nil => rfl
  | cons x cs ih =>
    by_cases hx : Text.isBlank x = true
    · rw [List.dropWhile_cons_of_pos hx, ih, ignorableLength, if_pos hx, Nat.add_comm,
        List.drop_succ_cons]
    · rw [List.dropWhile_cons_of_neg hx]

/-- Before a gap and a token, what passes over blanks and comments comes to the token. -/
theorem IsBefore.skipIgnorable_rest (h : c.IsBefore (g ++ cs)) (hg : IsGap g)
    (hcs : StartsToken cs) : c.skipIgnorable.rest = cs := by
  rw [skipIgnorable, advance, ← drop_ignorableLength_dropWhile, h, drop_ignorableLength_dropWhile,
    ignorableLength_append hg, ignorableLength_of_startsToken hcs, Nat.add_zero, List.drop_left]

/-- A line with a comment is passed over as a whole. -/
theorem skipLine_rest {text : List Char} (h : ∀ x ∈ text, x ≠ '\n')
    (hc : c.rest = text ++ '\n' :: cs) : c.skipLine.rest = cs := by
  have hline : lineLength (text ++ '\n' :: cs) = (text ++ ['\n']).length := by
    clear hc
    induction text with
    | nil => rfl
    | cons x text ih =>
      rw [List.cons_append, lineLength_cons, if_neg (h x (by simp)),
        ih fun y hy => h y (by simp [hy]), List.cons_append, List.length_cons, Nat.add_comm]
  have hsplit : text ++ '\n' :: cs = text ++ ['\n'] ++ cs := by simp
  rw [skipLine, hc, hline]
  change c.rest.drop _ = cs
  rw [hc, hsplit, List.drop_left]

end Cursor

/-! ## Brackets -/

/-- How many brackets are open after a text before which `depth` are open; none, if the text closes
one more or ends in the midst of an escape. -/
def bracketDepth? : Nat → List Char → Option Nat
  | depth, [] => some depth
  | depth, c :: cs =>
    if c = '\\' then
      match cs with
      | [] => none
      | _ :: rest => bracketDepth? depth rest
    else if c = '[' then bracketDepth? (depth + 1) cs
    else if c = ']' then
      match depth with
      | 0 => none
      | depth + 1 => bracketDepth? depth cs
    else bracketDepth? depth cs

section Brackets

variable {depth depth' : Nat} {x y : List Char}

theorem bracketDepth?_backslash (depth : Nat) (c : Char) (cs : List Char) :
    bracketDepth? depth ('\\' :: c :: cs) = bracketDepth? depth cs := by
  rw [bracketDepth?.eq_def]
  rfl

theorem bracketDepth?_cons {c : Char} (h : c ≠ '\\' ∧ c ≠ '[' ∧ c ≠ ']') (depth : Nat)
    (cs : List Char) : bracketDepth? depth (c :: cs) = bracketDepth? depth cs := by
  rw [bracketDepth?.eq_def]
  simp only [if_neg h.1, if_neg h.2.1, if_neg h.2.2]

theorem bracketDepth?_append (h : bracketDepth? depth x = some depth') (y : List Char) :
    bracketDepth? depth (x ++ y) = bracketDepth? depth' y := by
  fun_induction bracketDepth? depth x with
  | case1 => cases h; rfl
  | case2 | case5 => cases h
  | case3 depth c cs ih => rw [List.cons_append, List.cons_append, bracketDepth?_backslash, ih h]
  | case4 depth cs hb ih => rw [List.cons_append, ← ih h, bracketDepth?.eq_def]; rfl
  | case6 cs depth hb ho ih => rw [List.cons_append, ← ih h, bracketDepth?.eq_def]; rfl
  | case7 depth c cs hb ho hc ih => rw [List.cons_append, bracketDepth?_cons ⟨hb, ho, hc⟩, ih h]

/-- Brackets that are open around a text stay open. -/
theorem bracketDepth?_add (h : bracketDepth? depth x = some depth') (k : Nat) :
    bracketDepth? (depth + k) x = some (depth' + k) := by
  fun_induction bracketDepth? depth x with
  | case1 => cases h; rfl
  | case2 | case5 => cases h
  | case3 depth c cs ih => rw [bracketDepth?_backslash, ih h]
  | case4 depth cs hb ih => rw [← ih h, Nat.add_right_comm, bracketDepth?.eq_def]; rfl
  | case6 cs depth hb ho ih => rw [← ih h, Nat.succ_add, bracketDepth?.eq_def]; rfl
  | case7 depth c cs hb ho hc ih => rw [bracketDepth?_cons ⟨hb, ho, hc⟩, ih h]

/-- Where brackets are closed is found behind a text that closes none. -/
theorem balancedLength?_append (h : bracketDepth? depth x = some depth') (y : List Char) :
    Cursor.balancedLength? '[' ']' depth (x ++ y) =
      (Cursor.balancedLength? '[' ']' depth' y).map (· + x.length) := by
  fun_induction bracketDepth? depth x with
  | case1 => cases h; simp
  | case2 | case5 => cases h
  | case3 depth c cs ih =>
    rw [List.cons_append, List.cons_append, balancedLength?_backslash, ih h, Option.map_map]
    rfl
  | case4 depth cs hb ih =>
    rw [List.cons_append, balancedLength?_cons hb, if_pos ⟨rfl, by decide⟩, ih h, Option.map_map]
    rfl
  | case6 cs depth hb ho ih =>
    rw [List.cons_append, balancedLength?_cons hb, if_neg (by decide), if_pos rfl]
    simp only [ih h, Option.map_map]
    rfl
  | case7 depth c cs hb ho hc ih =>
    rw [List.cons_append, balancedLength?_cons hb, if_neg (by simp [ho]), if_neg hc, ih h,
      Option.map_map]
    rfl

/-- Brackets are closed at the first bracket that closes one more than are open. -/
theorem balancedLength?_of_bracketDepth? (h : bracketDepth? depth x = some 0) (y : List Char) :
    Cursor.balancedLength? '[' ']' depth (x ++ ']' :: y) = some x.length := by
  rw [balancedLength?_append h, balancedLength?_cons (by decide), if_neg (by decide), if_pos rfl]
  simp

/-- The text closes one more bracket than are open, or ends in the midst of an escape. -/
def BreaksOff (depth : Nat) (x : List Char) : Prop :=
  ∃ a depth', bracketDepth? depth a = some depth' ∧
    (x = a ++ ['\\'] ∨ depth' = 0 ∧ ∃ b, x = a ++ ']' :: b)

theorem BreaksOff.append (h : BreaksOff depth' y) (hx : bracketDepth? depth x = some depth') :
    BreaksOff depth (x ++ y) := by
  obtain ⟨a, depth', ha, hy⟩ := h
  refine ⟨x ++ a, depth', by rw [bracketDepth?_append hx, ha], ?_⟩
  obtain rfl | ⟨rfl, b, rfl⟩ := hy
  · exact .inl (by simp)
  · exact .inr ⟨rfl, b, by simp⟩

theorem breaksOff_of_bracketDepth?_eq_none (h : bracketDepth? depth x = none) :
    BreaksOff depth x := by
  fun_induction bracketDepth? depth x with
  | case1 => cases h
  | case2 depth => exact ⟨[], depth, rfl, .inl rfl⟩
  | case3 depth c cs ih => exact (ih h).append (bracketDepth?_backslash depth c [])
  | case4 depth cs hb ih => exact (ih h).append (x := ['[']) rfl
  | case5 cs hb ho => exact ⟨[], 0, rfl, .inr ⟨rfl, cs, rfl⟩⟩
  | case6 cs depth hb ho ih => exact (ih h).append (x := [']']) rfl
  | case7 depth c cs hb ho hc ih => exact (ih h).append (bracketDepth?_cons ⟨hb, ho, hc⟩ depth [])

/-- Brackets are closed at a bracket that closes one more than are open. -/
theorem exists_of_balancedLength?_eq_some {n : Nat}
    (h : Cursor.balancedLength? '[' ']' depth x = some n) :
    ∃ a b, bracketDepth? depth a = some 0 ∧ x = a ++ ']' :: b := by
  have hend {y : List Char} {depth' : Nat} (hy : bracketDepth? depth y = some depth')
      {e : List Char} (he : Cursor.balancedLength? '[' ']' depth' e = none) : x ≠ y ++ e := by
    rintro rfl
    rw [balancedLength?_append hy, he] at h
    cases h
  cases hx : bracketDepth? depth x with
  | some depth' => exact absurd (List.append_nil x).symm (hend hx rfl)
  | none =>
    obtain ⟨a, depth', ha, he | ⟨rfl, b, rfl⟩⟩ := breaksOff_of_bracketDepth?_eq_none hx
    · exact absurd he (hend ha (by simp [Cursor.balancedLength?]))
    · exact ⟨a, b, ha, rfl⟩

end Brackets

end Typeset
