import Typeset.Box.Lines

/-!
# Filling lines

Pieces are put on lines one by one. What a piece can do to the lines is said here once, with the
space that is dropped after each closed line, and every property of broken rows goes by cases over
it.

* `OpenLine.Filling`: pieces as closed lines, each with what is dropped after it, and an open line.
* `OpenLine.exists_filling`: the run over any pieces is such a filling.
* `OpenLine.Filling.width_eq`: the open line knows its width; `OpenLine.Filling.tail`: it knows its
  last space.
* `Filled`: all pieces on lines, the open line closed; `exists_filled` finds the lines of
  `fillLines`.
-/

namespace Typeset

variable {α : Type} [Scalar α]

/-- The width of the pieces side by side, added up from the left. -/
def lineWidth (line : List (Tinted α)) : α := Scalar.sum (line.map fun p => p.box.width)

theorem lineWidth_append_singleton (line : List (Tinted α)) (p : Tinted α) :
    lineWidth (line ++ [p]) = lineWidth line + p.box.width := by
  simp [lineWidth, Scalar.sum]

namespace OpenLine

/-- How pieces come to stand on closed lines, each with the space that is dropped after it, and on
an open line. There is one case for each thing that one more piece can do. -/
inductive Filling (limit : α) :
    List (Tinted α) → List (List (Tinted α) × List (Tinted α)) → OpenLine α → Prop
  | start : Filling limit [] [] .empty
  /-- Space at the start of the first line stays there. -/
  | lead {ps l p} (h : Filling limit ps [] l) (hl : l.pieces = []) (hp : p.box.isBreakable = true) :
      Filling limit (ps ++ [p]) [] (l.addSpace p)
  /-- Space after a break is dropped with the space of the break. -/
  | skip {ps closed line gap l p} (h : Filling limit ps (closed ++ [(line, gap)]) l)
      (hl : l.pieces = []) (hp : p.box.isBreakable = true) :
      Filling limit (ps ++ [p]) (closed ++ [(line, gap ++ [p])]) l
  /-- Space that overflows closes the line. -/
  | close {ps closed l p} (h : Filling limit ps closed l) (hl : l.pieces ≠ [])
      (hp : p.box.isBreakable = true) (ho : limit < l.width + p.box.width) :
      Filling limit (ps ++ [p]) (closed ++ [(l.pieces, [p])]) .empty
  /-- Space that fits is where the line can be broken later on. -/
  | space {ps closed l p} (h : Filling limit ps closed l) (hl : l.pieces ≠ [])
      (hp : p.box.isBreakable = true) (ho : ¬limit < l.width + p.box.width) :
      Filling limit (ps ++ [p]) closed (l.addSpace p)
  /-- Any other piece that overflows takes what follows the last space to a new line. -/
  | carry {ps closed l p before space} (h : Filling limit ps closed l)
      (hp : p.box.isBreakable = false) (ho : limit < l.width + p.box.width)
      (hhead : l.head = some (before, space)) :
      Filling limit (ps ++ [p]) (closed ++ [(before, [space])]) (l.carry p)
  /-- It stays on the line if it fits, or if there is no space before it. -/
  | add {ps closed l p} (h : Filling limit ps closed l) (hp : p.box.isBreakable = false)
      (ho : limit < l.width + p.box.width → l.head = none) :
      Filling limit (ps ++ [p]) closed (l.add p)

variable {limit : α} {ps : List (Tinted α)}
  {closed : List (List (Tinted α) × List (Tinted α))} {l : OpenLine α}

theorem pieces_add (l : OpenLine α) (p : Tinted α) : (l.add p).pieces = l.pieces ++ [p] := by
  unfold add pieces
  cases l.head <;> simp

theorem pieces_addSpace (l : OpenLine α) (p : Tinted α) :
    (l.addSpace p).pieces = l.pieces ++ [p] := rfl

theorem pieces_carry (l : OpenLine α) (p : Tinted α) : (l.carry p).pieces = l.tail ++ [p] := rfl

omit [Scalar α] in
theorem pieces_of_head {before : List (Tinted α)} {space : Tinted α}
    (h : l.head = some (before, space)) : l.pieces = before ++ space :: l.tail := by
  rw [pieces, h]

/-- A step does one of the things that a piece can do. -/
theorem Filling.step (h : Filling limit ps closed l) (p : Tinted α) :
    ∃ closed', closed'.map Prod.fst = (OpenLine.step limit (closed.map Prod.fst) l p).1 ∧
      Filling limit (ps ++ [p]) closed' (OpenLine.step limit (closed.map Prod.fst) l p).2 := by
  unfold OpenLine.step
  simp only
  split
  · rename_i hp
    split
    · rename_i hl
      rw [List.isEmpty_iff] at hl
      split
      · rename_i hc
        obtain rfl : closed = [] := by simpa using hc
        exact ⟨[], rfl, h.lead hl hp⟩
      · rename_i hc
        obtain ⟨init, ⟨line, gap⟩, rfl⟩ : ∃ init last, closed = init ++ [last] :=
          ⟨_, _, (List.dropLast_concat_getLast (by simpa using hc)).symm⟩
        exact ⟨init ++ [(line, gap ++ [p])], by simp, h.skip hl hp⟩
    · rename_i hl
      have hl : l.pieces ≠ [] := by simpa using hl
      split
      · rename_i ho
        exact ⟨_, by simp, h.close hl hp (of_decide_eq_true ho)⟩
      · rename_i ho
        exact ⟨closed, rfl, h.space hl hp (by simpa using ho)⟩
  · rename_i hp
    rw [Bool.not_eq_true] at hp
    split
    · rename_i before space ho hhead
      exact ⟨_, by simp, h.carry hp (of_decide_eq_true ho) hhead⟩
    · rename_i hkeep
      refine ⟨closed, rfl, h.add hp fun ho => ?_⟩
      cases hhead : l.head with
      | none => rfl
      | some head => exact (hkeep head.1 head.2 (decide_eq_true ho) hhead).elim

/-- Putting pieces on lines one by one fills them. -/
theorem exists_filling (limit : α) (ps : List (Tinted α)) :
    ∃ closed l, ps.foldl (fun (lines, l) p => OpenLine.step limit lines l p) ([], .empty) =
      (closed.map Prod.fst, l) ∧ Filling limit ps closed l := by
  have hrun (rest : List (Tinted α)) {ps closed l} (h : Filling limit ps closed l) :
      ∃ closed' l', rest.foldl (fun (lines, l) p => OpenLine.step limit lines l p)
        (closed.map Prod.fst, l) = (closed'.map Prod.fst, l') ∧
        Filling limit (ps ++ rest) closed' l' := by
    induction rest generalizing ps closed l with
    | nil => exact ⟨closed, l, rfl, by simpa using h⟩
    | cons p rest ih =>
      obtain ⟨closed', hlines, h'⟩ := h.step p
      obtain ⟨final, last, hfold, hfinal⟩ := ih h'
      refine ⟨final, last, ?_, by simpa using hfinal⟩
      rw [List.foldl_cons, ← hfold, hlines]
  exact hrun ps .start

/-- The open line knows its width. -/
theorem Filling.width_eq (h : Filling limit ps closed l) : l.width = lineWidth l.pieces := by
  induction h with
  | start => rfl
  | lead _ _ _ ih | space _ _ _ _ ih =>
    rw [pieces_addSpace, lineWidth_append_singleton, ← ih]
    rfl
  | skip _ _ _ ih => exact ih
  | close => rfl
  | carry => exact (lineWidth_append_singleton _ _).symm
  | add _ _ _ ih =>
    rw [pieces_add, lineWidth_append_singleton, ← ih]
    rfl

/-- There is no space after the last one. -/
theorem Filling.tail (h : Filling limit ps closed l) : ∀ p ∈ l.tail, p.box.isBreakable = false := by
  induction h with
  | start | lead | close | space => exact fun _ h => nomatch h
  | skip _ _ _ ih => exact ih
  | carry _ hp _ _ ih | add _ hp _ ih =>
    exact List.forall_mem_append.mpr ⟨ih, List.forall_mem_singleton.mpr hp⟩

/-- A line with no space on it to be broken at has none at all. -/
theorem Filling.pieces_of_head_eq_none (h : Filling limit ps closed l) (hhead : l.head = none) :
    ∀ p ∈ l.pieces, p.box.isBreakable = false := by
  rw [pieces, hhead]
  exact h.tail

end OpenLine

/-- The pieces are on lines, each with the space that is dropped after it. The open line is one of
them if there is anything on it. -/
def Filled (limit : α) (ps : List (Tinted α))
    (broken : List (List (Tinted α) × List (Tinted α))) : Prop :=
  ∃ closed l, OpenLine.Filling limit ps closed l ∧
    broken = if l.pieces = [] then closed else closed ++ [(l.pieces, [])]

/-- The lines of pieces are what filling them gives. -/
theorem exists_filled (limit : α) (ps : List (Tinted α)) :
    ∃ broken, broken.map Prod.fst = fillLines limit ps ∧ Filled limit ps broken := by
  obtain ⟨closed, l, hrun, h⟩ := OpenLine.exists_filling limit ps
  refine ⟨_, ?_, closed, l, h, rfl⟩
  simp only [fillLines, hrun, List.isEmpty_iff]
  split <;> simp

end Typeset
