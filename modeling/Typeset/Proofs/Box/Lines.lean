import Mathlib.Data.List.Basic
import Typeset.Proofs.Box.Filling
import Typeset.Proofs.Box.Paint

/-!
# Breaking lines keeps what is drawn

A line is closed at breakable space, and only that space is dropped. The lines of a row are wrapped
in the colors that their pieces had, so the pieces are drawn as before.

* `OpenLine.BreaksInto`: pieces as closed lines, each with the space that is dropped after it, and
  an open line. Filling keeps it (`OpenLine.Filling.breaksInto`).
* `Filled.breaks`: pieces as lines with the space that is dropped after each.
* `Box.breakLines_cases`: a row stays as it is, or it becomes the boxes of its lines.
* `breakLines_keeps_pieces`: a broken row has the pieces of the row but for breakable space.
-/

namespace Typeset

variable {α : Type} [Scalar α]

/-! ## The line being filled -/

namespace OpenLine

/-- The pieces are the closed lines, each with breakable space after it, and the open line, which
can be closed at breakable space. -/
structure BreaksInto (ps : List (Tinted α)) (closed : List (List (Tinted α) × List (Tinted α)))
    (l : OpenLine α) : Prop where
  eq : ps = closed.flatMap (fun c => c.1 ++ c.2) ++ l.pieces
  breakable : ∀ c ∈ closed, ∀ p ∈ c.2, p.box.isBreakable = true
  ne_nil : ∀ c ∈ closed, c.2 ≠ []
  head : ∀ before space, l.head = some (before, space) → space.box.isBreakable = true

variable {ps : List (Tinted α)} {closed : List (List (Tinted α) × List (Tinted α))}
  {l : OpenLine α} {p : Tinted α}

theorem BreaksInto.add (h : BreaksInto ps closed l) (p : Tinted α) :
    BreaksInto (ps ++ [p]) closed (l.add p) where
  eq := by rw [pieces_add, h.eq, List.append_assoc]
  breakable := h.breakable
  ne_nil := h.ne_nil
  head := h.head

theorem BreaksInto.addSpace (h : BreaksInto ps closed l) (hp : p.box.isBreakable = true) :
    BreaksInto (ps ++ [p]) closed (l.addSpace p) where
  eq := by rw [pieces_addSpace, h.eq, List.append_assoc]
  breakable := h.breakable
  ne_nil := h.ne_nil
  head := by
    rintro before space ⟨⟩
    exact hp

omit [Scalar α] in
/-- The line is closed at its last space, and what follows goes to a new line. -/
theorem BreaksInto.close (h : BreaksInto ps closed l) {before : List (Tinted α)} {space : Tinted α}
    (hhead : l.head = some (before, space)) (width : α) :
    BreaksInto ps (closed ++ [(before, [space])]) { head := none, tail := l.tail, width } where
  eq := by simp [h.eq, pieces, hhead]
  breakable := by
    intro c hc p hp
    rcases List.mem_append.mp hc with hc | hc
    · exact h.breakable c hc p hp
    · obtain rfl := List.mem_singleton.mp hc
      obtain rfl := List.mem_singleton.mp hp
      exact h.head before _ hhead
  ne_nil := by
    intro c hc
    rcases List.mem_append.mp hc with hc | hc
    · exact h.ne_nil c hc
    · obtain rfl := List.mem_singleton.mp hc
      exact List.cons_ne_nil _ _
  head := by rintro _ _ ⟨⟩

omit [Scalar α] in
/-- A space after a closed line is dropped with the space that closed it. -/
theorem BreaksInto.skip {line gap : List (Tinted α)} (h : BreaksInto ps (closed ++ [(line, gap)]) l)
    (hl : l.pieces = []) (hp : p.box.isBreakable = true) :
    BreaksInto (ps ++ [p]) (closed ++ [(line, gap ++ [p])]) l where
  eq := by simp [h.eq, hl]
  breakable := by
    intro c hc q hq
    rcases List.mem_append.mp hc with hc | hc
    · exact h.breakable c (by simp [hc]) q hq
    · obtain rfl := List.mem_singleton.mp hc
      rcases List.mem_append.mp hq with hq | hq
      · exact h.breakable (line, gap) (by simp) q hq
      · obtain rfl := List.mem_singleton.mp hq
        exact hp
  ne_nil := by
    intro c hc
    rcases List.mem_append.mp hc with hc | hc
    · exact h.ne_nil c (by simp [hc])
    · obtain rfl := List.mem_singleton.mp hc
      simp
  head := h.head

/-- Filling lines drops nothing but the space at their ends, whatever the widths compare to. -/
theorem Filling.breaksInto {limit : α} (h : Filling limit ps closed l) :
    BreaksInto ps closed l := by
  induction h with
  | start => exact ⟨rfl, by simp, by simp, by rintro _ _ ⟨⟩⟩
  | lead _ _ hp ih | space _ _ hp _ ih => exact ih.addSpace hp
  | skip _ hl hp ih => exact ih.skip hl hp
  | close _ _ hp _ ih => exact (ih.addSpace hp).close rfl 0.0
  | carry _ _ _ hhead ih => exact (ih.close hhead _).add _
  | add _ _ _ ih => exact ih.add _

end OpenLine

/-- Pieces are the lines they are filled into, each with breakable space after it; there is some
after every line but the last one. -/
theorem Filled.breaks {limit : α} {ps : List (Tinted α)}
    {broken : List (List (Tinted α) × List (Tinted α))} (h : Filled limit ps broken) :
    ps = broken.flatMap (fun c => c.1 ++ c.2) ∧
      (∀ c ∈ broken, ∀ p ∈ c.2, p.box.isBreakable = true) ∧ ∀ c ∈ broken.dropLast, c.2 ≠ [] := by
  obtain ⟨closed, l, hfill, rfl⟩ := h
  have h := hfill.breaksInto
  split
  · rename_i hl
    exact ⟨by simpa [hl] using h.eq, h.breakable,
      fun c hc => h.ne_nil c (List.dropLast_subset _ hc)⟩
  · refine ⟨by simpa using h.eq, ?_, ?_⟩
    · intro c hc
      rcases List.mem_append.mp hc with hc | hc
      · exact h.breakable c hc
      · obtain rfl := List.mem_singleton.mp hc
        simp
    · rw [List.dropLast_concat]
      exact h.ne_nil

/-! ## The broken row -/

namespace Box

/-- A line has the pieces that are put on it. -/
theorem tintedPieces_line (hz : Scalar.isZero (0.0 : α) = true) {line : List (Tinted α)}
    (h : Tinted.Coherent line) :
    (hbox (wrapTinted line)).tintedPieces = line.map fun p => (p.box, p.chain) := by
  rw [tintedPieces_eq_opened, ← h.opened_wrapTinted hz]
  rfl

/-- Space between lines draws nothing. -/
theorem inkAll_intersperse_vkern (fg : Color) (interline : α) (lines : List (Box α)) :
    inkAll fg (lines.intersperse (vkern interline)) = inkAll fg lines := by
  have hkern : ink fg (vkern interline) = [] := by rw [vkern, strut, unshifted, ink]
  induction lines with
  | nil => rfl
  | cons line lines ih =>
    cases lines with
    | nil => rfl
    | cons next rest =>
      rw [List.intersperse_cons_cons, inkAll, inkAll, ih, hkern, List.nil_append, ← inkAll]

/-- The lines are those of the row, each with the breakable space that is dropped after it. -/
structure SplitsInto (b : Box α) (lines : List (Box α × List (Box α × List Tint))) : Prop where
  two_le_length : 2 ≤ lines.length
  isHBox : ∀ c ∈ lines, c.1.isHBox = true
  /-- The pieces of the row are those of the lines and what is dropped after each of them. -/
  pieces : b.tintedPieces = lines.flatMap fun c => c.1.tintedPieces ++ c.2
  /-- Only breakable space is dropped. -/
  breakable : ∀ c ∈ lines, ∀ p ∈ c.2, p.1.isBreakable = true
  /-- Some space is dropped between any two lines. -/
  ne_nil : ∀ c ∈ lines.dropLast, c.2 ≠ []

/-- A line as a box, and the space that is dropped after it. -/
def lineBox (c : List (Tinted α) × List (Tinted α)) : Box α × List (Box α × List Tint) :=
  (hbox (wrapTinted c.1), c.2.map fun p => (p.box, p.chain))

/-- The box of a line has the pieces of the line. -/
theorem tintedPieces_lineBox (hz : Scalar.isZero (0.0 : α) = true) {b : Box α} {width : α}
    {broken : List (List (Tinted α) × List (Tinted α))} (h : Filled width b.pieces broken)
    {c : List (Tinted α) × List (Tinted α)} (hc : c ∈ broken) :
    (lineBox c).1.tintedPieces = c.1.map fun p => (p.box, p.chain) := by
  refine tintedPieces_line hz (b.coherent_pieces.of_subset fun p hp => ?_)
  rw [h.breaks.1]
  exact List.mem_flatMap.mpr ⟨c, hc, List.mem_append_left _ hp⟩

/-- The boxes of the lines are those of the row. -/
theorem splitsInto_of_filled (hz : Scalar.isZero (0.0 : α) = true) {b : Box α} {width : α}
    {broken : List (List (Tinted α) × List (Tinted α))} (h : Filled width b.pieces broken)
    (hlength : 2 ≤ broken.length) : b.SplitsInto (broken.map lineBox) where
  two_le_length := by simpa using hlength
  isHBox := by
    simp only [List.forall_mem_map]
    exact fun _ _ => rfl
  pieces := by
    rw [tintedPieces, h.breaks.1, List.map_flatMap, List.flatMap_map]
    refine List.flatMap_congr fun c hc => ?_
    rw [List.map_append, tintedPieces_lineBox hz h hc]
    rfl
  breakable := by
    simp only [List.forall_mem_map, lineBox]
    exact h.breaks.2.1
  ne_nil := by
    rw [← List.map_dropLast]
    simp only [List.forall_mem_map, lineBox, ne_eq, List.map_eq_nil_iff]
    exact h.breaks.2.2

/-- A row stays as it is if it fits or if its pieces make one line; else its lines are stacked. -/
theorem breakLines_cases (hz : Scalar.isZero (0.0 : α) = true) (b : Box α) (width interline : α) :
    (b.breakLines width interline = b ∧ (b.width ≤ width ∨ b.isHBox = false ∨
      ∃ broken, Filled width b.pieces broken ∧ broken.length ≤ 1)) ∨
    ∃ broken, Filled width b.pieces broken ∧ b.SplitsInto (broken.map lineBox) ∧
      b.breakLines width interline =
        .vbox (((broken.map lineBox).map Prod.fst).intersperse (.vkern interline)) 0 := by
  obtain ⟨broken, hlines, hfilled⟩ := exists_filled width b.pieces
  unfold breakLines
  split
  · rename_i hfits
    exact .inl ⟨rfl, hfits.imp_right .inl⟩
  · simp only [← hlines, List.length_map]
    split
    · rename_i hlength
      exact .inl ⟨rfl, .inr (.inr ⟨broken, hfilled, hlength⟩)⟩
    · exact .inr ⟨broken, hfilled, splitsInto_of_filled hz hfilled (by omega), by
        rw [List.map_map, List.map_map]
        rfl⟩

/-- A row stays as it is, or its lines are stacked. -/
theorem breakLines_eq_or (hz : Scalar.isZero (0.0 : α) = true) (b : Box α) (width interline : α) :
    b.breakLines width interline = b ∨ ∃ lines, b.SplitsInto lines ∧
      b.breakLines width interline =
        .vbox ((lines.map Prod.fst).intersperse (.vkern interline)) 0 := by
  rcases breakLines_cases hz b width interline with ⟨heq, -⟩ | ⟨broken, -, hsplit, heq⟩
  · exact .inl heq
  · exact .inr ⟨_, hsplit, heq⟩

/-- Lines below each other have the ink of the row. -/
theorem SplitsInto.ink_eq {b : Box α} (hb : b.isHBox = true)
    {lines : List (Box α × List (Box α × List Tint))} (h : b.SplitsInto lines) (fg : Color)
    (interline : α) :
    (vbox ((lines.map Prod.fst).intersperse (vkern interline)) 0).ink fg = b.ink fg := by
  have hgap (c) (hc : c ∈ lines) : c.2.flatMap (pieceInk fg) = [] :=
    List.flatMap_eq_nil_iff.mpr fun p hp => pieceInk_of_isBreakable fg (h.breakable c hc p hp)
  rw [vbox, unshifted, ink, inkAll_intersperse_vkern, inkAll_eq_flatMap,
    ink_eq_flatMap_tintedPieces fg hb, h.pieces, List.flatMap_map, List.flatMap_assoc]
  refine List.flatMap_congr fun c hc => ?_
  rw [ink_eq_flatMap_tintedPieces fg (h.isHBox c hc), List.flatMap_append, hgap c hc,
    List.append_nil]

/-- **Breaking a row keeps its pieces.** Whatever the widths compare to, the row stays as it is, or
it becomes lines with space between them. Those have the pieces of the row in their order and their
tints, but for breakable space that is dropped after lines, and some is dropped between any two.
Characters and delimiters are drawn in the same order, sizes and colors. -/
theorem breakLines_keeps_pieces (hz : Scalar.isZero (0.0 : α) = true) (b : Box α)
    (hb : b.isHBox = true) (width interline : α) :
    (b.breakLines width interline = b ∨ ∃ lines, b.SplitsInto lines ∧
      b.breakLines width interline =
        .vbox ((lines.map Prod.fst).intersperse (.vkern interline)) 0) ∧
    ∀ fg x y x' y', ((b.breakLines width interline).draw fg x y).filterMap DrawCall.ink? =
      (b.draw fg x' y').filterMap DrawCall.ink? := by
  have hbreak := breakLines_eq_or hz b width interline
  refine ⟨hbreak, fun fg x y x' y' => ?_⟩
  rw [filterMap_draw, filterMap_draw]
  rcases hbreak with heq | ⟨lines, hlines, heq⟩
  · rw [heq]
  · rw [heq, hlines.ink_eq hb]

/-- A colored row of two characters becomes two lines of the color. -/
theorem breakLines_keeps_pieces_colored :
    let red : Option Color := some ⟨255, 0, 0, 255⟩
    let x : Box Float := .glyph 'x' .math 10.0 2.0 1.0 0.0
    let line : Box Float := .hbox [.colored (.hbox [x]) red none]
    let b : Box Float := .hbox [.colored (.hbox [x, .glue 1.0 true, x]) red none]
    b.isHBox = true ∧ b.breakLines 3.0 2.0 = .vbox [line, .vkern 2.0, line] 0 ∧
      ∃ lines, b.SplitsInto lines ∧
        Box.vbox [line, .vkern 2.0, line] 0 =
          .vbox ((lines.map Prod.fst).intersperse (.vkern 2.0)) 0 := by
  intro red x line b
  have hz : Scalar.isZero (0.0 : Float) = true := by decide
  let m : List TintMark := [⟨0, ⟨red, none⟩⟩]
  have hpieces : b.pieces = [⟨x, m⟩, ⟨.glue 1.0 true, m⟩, ⟨x, m⟩] := by
    simp [pieces, b, hbox, children, unshifted, BoxContent.children, colored, openRuns, hz, x,
      glue, glyph, m]
  have hx : ¬(3.0 : Float) < 0.0 + 2.0 := by decide
  have hglue : ¬(3.0 : Float) < 0.0 + 2.0 + 1.0 := by decide
  have hover : (3.0 : Float) < 0.0 + 2.0 + 1.0 + 2.0 := by decide
  have hfill : fillLines 3.0 [⟨x, m⟩, ⟨.glue 1.0 true, m⟩, ⟨x, m⟩] = [[⟨x, m⟩], [⟨x, m⟩]] := by
    simp [fillLines, OpenLine.step, OpenLine.empty, OpenLine.pieces, OpenLine.add,
      OpenLine.addSpace, OpenLine.carry, isBreakable, x, glue, glyph, unshifted, hx, hglue, hover]
  have hsplit : b.breakLines 3.0 2.0 = .vbox [line, .vkern 2.0, line] 0 := by
    rw [breakLines, if_neg (by decide), hpieces, hfill]
    rfl
  have h := (breakLines_keeps_pieces hz b rfl 3.0 2.0).1
  rw [hsplit] at h
  refine ⟨rfl, hsplit, h.resolve_left fun heq => ?_⟩
  have hrow := congrArg isHBox heq
  cases hrow

end Box

end Typeset
