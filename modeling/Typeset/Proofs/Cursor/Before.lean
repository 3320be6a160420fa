import Mathlib.Data.List.DropRight
import Typeset.Proofs.Cursor.Local

/-!
# Cursors before a known text

What a cursor reads when the text before it is known. Blanks in front of the text do not count
(`Cursor.IsBefore`), so that it does not matter which of two readings takes them.

* `Cursor.readName?_letters`: the name of a command ends with its letters.
* `Cursor.readBalanced?_of_forall`: a group without braces inside is its content.
* `Cursor.readOptional?_of_head`: without a bracket there is no option.
-/

namespace Typeset.Cursor

variable {c : Cursor} {cs ds : List Char}

/-- The cursor stands before a text, or before blanks in front of it. -/
def IsBefore (c : Cursor) (cs : List Char) : Prop :=
  c.rest.dropWhile Text.isBlank = cs.dropWhile Text.isBlank

theorem isBefore_of_rest (h : c.rest = cs) : c.IsBefore cs := by rw [IsBefore, h]

theorem dropWhile_replicate_blank (blanks : Nat) (cs : List Char) :
    (List.replicate blanks ' ' ++ cs).dropWhile Text.isBlank = cs.dropWhile Text.isBlank :=
  List.dropWhile_append_of_pos fun x hx => by rw [List.eq_of_mem_replicate hx]; decide

theorem drop_length_takeWhile (p : Char → Bool) (cs : List Char) :
    cs.drop (cs.takeWhile p).length = cs.dropWhile p := by
  conv => lhs; rw [← List.takeWhile_append_dropWhile (p := p) (l := cs)]
  rw [List.drop_left' (by simp)]

theorem skipBlanks_rest (c : Cursor) : c.skipBlanks.rest = c.rest.dropWhile Text.isBlank :=
  drop_length_takeWhile _ _

/-- The next token of a text that starts with none but blanks before it. -/
theorem IsBefore.skipBlanks_rest_eq {x : Char} (h : c.IsBefore (x :: cs))
    (hx : Text.isBlank x = false) : c.skipBlanks.rest = x :: cs := by
  rw [skipBlanks_rest, h, List.dropWhile_cons_of_neg (by simp [hx])]

/-- Blanks that have been passed over do not count either. -/
theorem isBefore_of_rest_eq (h : c.rest = cs.dropWhile Text.isBlank) : c.IsBefore cs := by
  rw [IsBefore, h, List.dropWhile_idempotent]

/-! ## Names -/

/-- A name of letters ends at the first other character, and takes the blanks after it. -/
theorem readName?_letters {name after : List Char} (hne : name ≠ [])
    (hname : ∀ c ∈ name, c.isAlpha = true) (hafter : ∀ c ∈ after.head?, c.isAlpha = false)
    (position : Nat) : ∃ q, ({ rest := name ++ after, position } : Cursor).readName? =
      (some name, { rest := after.dropWhile Text.isBlank, position := q }) := by
  obtain ⟨x, xs, rfl⟩ := List.exists_cons_of_ne_nil hne
  have hafter : after.takeWhile Char.isAlpha = [] := by
    cases after with
    | nil => rfl
    | cons y ys => exact List.takeWhile_cons_of_neg (by simp [hafter y rfl])
  have htake : (x :: xs ++ after).takeWhile Char.isAlpha = x :: xs := by
    rw [List.takeWhile_append_of_pos hname, hafter, List.append_nil]
  have hrest : (advance { rest := x :: xs ++ after, position } (x :: xs).length).rest = after :=
    List.drop_left
  simp only [readName?, List.cons_append, hname x (by simp), if_true]
  rw [← List.cons_append, htake]
  exact ⟨_, Prod.ext rfl (congrArg₂ Cursor.mk
    ((skipBlanks_rest _).trans (congrArg (List.dropWhile Text.isBlank) hrest)) rfl)⟩

/-! ## Groups and options -/

/-- A group without braces and backslashes in it ends at the first closing brace. -/
theorem balancedLength?_of_forall {body : List Char} (rest : List Char)
    (h : ∀ x ∈ body, x ≠ '\\' ∧ x ≠ '{' ∧ x ≠ '}') :
    balancedLength? '{' '}' 0 (body ++ '}' :: rest) = some body.length := by
  induction body with
  | nil =>
    rw [List.nil_append, balancedLength?_cons (by decide), if_neg (by decide), if_pos rfl]
    rfl
  | cons x xs ih =>
    obtain ⟨hb, ho, hc⟩ := h x (by simp)
    rw [List.cons_append, balancedLength?_cons hb, if_neg (by simp [ho]), if_neg hc,
      ih fun y hy => h y (by simp [hy])]
    rfl

theorem readBalanced?_of_forall {body rest : List Char}
    (hc : c.rest = '{' :: (body ++ '}' :: rest))
    (h : ∀ x ∈ body, x ≠ '\\' ∧ x ≠ '{' ∧ x ≠ '}') :
    ∃ d : Cursor, c.readBalanced? '{' '}' = (some body, d) ∧ d.rest = rest := by
  rw [readBalanced?_of_balancedLength? hc (balancedLength?_of_forall rest h)]
  refine ⟨_, by rw [List.take_left], ?_⟩
  simp [advance, hc, List.drop_append]

/-- Where no comment starts, only blanks are passed over. -/
theorem ignorableLength_of_head (h : ∀ x ∈ (cs.dropWhile Text.isBlank).head?, x ≠ '%') :
    ignorableLength cs = (cs.takeWhile Text.isBlank).length := by
  induction cs with
  | nil => rfl
  | cons x xs ih =>
    by_cases hx : Text.isBlank x = true
    · rw [List.dropWhile_cons_of_pos hx] at h
      rw [ignorableLength, if_pos hx, List.takeWhile_cons_of_pos hx, ih h, List.length_cons,
        Nat.add_comm]
    · rw [List.dropWhile_cons_of_neg hx] at h
      rw [ignorableLength, if_neg hx, if_neg (h x rfl), List.takeWhile_cons_of_neg hx]
      rfl

theorem skipIgnorable_of_head (h : ∀ x ∈ (c.rest.dropWhile Text.isBlank).head?, x ≠ '%') :
    c.skipIgnorable = c.skipBlanks := by
  rw [skipIgnorable, skipBlanks, ignorableLength_of_head h]

theorem skipIgnorable_eq_self {x : Char} (hc : c.rest = x :: cs) (hx : Text.isBlank x = false)
    (hp : x ≠ '%') : c.skipIgnorable = c := by
  rw [skipIgnorable, hc, ignorableLength, if_neg (by simp [hx]), if_neg hp]
  simp [advance, byteLength]

/-- Without a bracket there is no option, and nothing is read. -/
theorem readOptional?_of_head
    (h : ∀ x ∈ (c.rest.dropWhile Text.isBlank).head?, x ≠ '%' ∧ x ≠ '[') :
    c.readOptional? = (none, c) := by
  have hskip := skipIgnorable_of_head fun x hx => (h x hx).1
  rw [← skipBlanks_rest] at h
  rw [readOptional?, hskip]
  rcases readBalanced?_cases '[' ']' c.skipBlanks with hb | ⟨n, xs, hr, -, -⟩
  · rw [hb]
  · exact absurd rfl (h '[' (by rw [hr]; rfl)).2

end Typeset.Cursor
