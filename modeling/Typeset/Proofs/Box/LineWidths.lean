import Mathlib.Algebra.Order.Field.Rat
import Mathlib.Data.List.Chain
import Mathlib.Data.List.TakeWhile
import Mathlib.Tactic.Linarith
import Typeset.Proofs.Box.Measured
import Typeset.Proofs.Box.Opened

/-!
# Widths of lines

How wide the lines of a broken row are, with exact lengths.

* `Box.HasRowWidths`: rows are as wide as their children together, and colored boxes as their child.
  Measured boxes are (`Box.Measured.hasRowWidths`), so every box of layout is.
* `Box.lines_fit`: a line is no wider than the limit, or there is no breakable space on it.
* `Box.lines_break_late`: a line is not broken before it has to be. With the space after it and the
  next pieces up to a space it would be too wide.
-/

namespace Typeset

/-! ## Exact widths -/

theorem lineWidth_rat (line : List (Tinted Rat)) :
    lineWidth line = (line.map fun p => p.box.width).sum := Scalar.sum_rat _

@[simp] theorem lineWidth_nil : lineWidth ([] : List (Tinted Rat)) = 0 := by simp [lineWidth_rat]

@[simp] theorem lineWidth_append (line more : List (Tinted Rat)) :
    lineWidth (line ++ more) = lineWidth line + lineWidth more := by simp [lineWidth_rat]

@[simp] theorem lineWidth_cons (p : Tinted Rat) (line : List (Tinted Rat)) :
    lineWidth (p :: line) = p.box.width + lineWidth line := by simp [lineWidth_rat]

namespace Box

/-- A line is as wide as its pieces together. -/
theorem width_lineBox (c : List (Tinted Rat) × List (Tinted Rat)) :
    (lineBox c).1.width = lineWidth c.1 := by
  rw [lineBox, (measures_hbox_wrapTinted c.1).1, hbox, unshifted, List.map_map]
  rfl

/-- Rows are as wide as their children together, and colored boxes as their child. -/
inductive HasRowWidths : Box Rat → Prop
  | node {b : Box Rat}
    (row : ∀ children, b.content = .hbox children → b.width = Scalar.sum (children.map width))
    (colored : ∀ fg bg child, b.content = .colored fg bg child → b.width = child.width)
    (children : ∀ c ∈ b.children, HasRowWidths c) : HasRowWidths b

theorem Measured.hasRowWidths {b : Box Rat} (h : b.Measured) : b.HasRowWidths := by
  induction h with
  | @node b rules _ ih =>
    refine .node (fun children hb => ?_) (fun fg bg child hb => ?_) ih
    · rw [FollowsRules, hb] at rules
      exact rules.1
    · rw [FollowsRules, hb] at rules
      exact rules.2.1

/-- Opening the colored rows among boxes keeps the width of the boxes together. -/
theorem lineWidth_openRuns {path : List TintMark} {next : Nat} {bs : List (Box Rat)}
    (h : ∀ b ∈ bs, b.HasRowWidths) :
    lineWidth (openRuns path next bs).1 = (bs.map width).sum := by
  fun_induction openRuns path next bs with
  | case1 => simp
  | case2 path next bs _ _ _ _ fg bg _ _ _ _ children hz mark o n ho r n' hr iho ihr =>
    rw [ho] at iho
    rw [hr] at ihr
    cases h _ (List.mem_cons_self ..) with
    | node _ hcolored hchild =>
      cases hchild _ (List.mem_singleton_self _) with
      | node hrow _ hchildren =>
        rw [lineWidth_append, iho hchildren, ihr fun b hb => h b (by simp [hb]), List.map_cons,
          List.sum_cons, hcolored _ _ _ rfl, hrow _ rfl, Scalar.sum_rat]
  | case3 path next bs _ _ _ _ fg bg _ _ _ _ children hz r n hr ihr
  | case4 path next b bs r n hr _ ihr =>
    rw [hr] at ihr
    rw [lineWidth_cons, ihr fun b hb => h b (by simp [hb]), List.map_cons, List.sum_cons]

/-- A row is as wide as its pieces together. -/
theorem HasRowWidths.width_eq {b : Box Rat} (h : b.HasRowWidths) (hb : b.isHBox = true) :
    b.width = lineWidth b.pieces := by
  obtain ⟨w, ht, d, s, content⟩ := b
  cases content with
  | hbox children =>
    cases h with
    | node hrow _ hchildren =>
      rw [hrow _ rfl, Scalar.sum_rat, pieces, lineWidth_openRuns hchildren]
      rfl
  | _ => cases hb

end Box

/-! ## Lines that fit -/

/-- The line is no wider than the limit, or there is no space on it to break it at. -/
def LineFits (limit : Rat) (line : List (Tinted Rat)) : Prop :=
  lineWidth line ≤ limit ∨ ∀ p ∈ line, p.box.isBreakable = false

theorem lineFits_nil (limit : Rat) : LineFits limit [] := .inr fun _ h => nomatch h

/-- The pieces do not start with space, and no space among them is negative. -/
structure WellSpaced (ps : List (Tinted Rat)) : Prop where
  first : ∀ p ∈ ps.head?, p.box.isBreakable = false
  nonneg : ∀ p ∈ ps, p.box.isBreakable = true → 0 ≤ p.box.width

theorem WellSpaced.of_concat {ps : List (Tinted Rat)} {p : Tinted Rat}
    (h : WellSpaced (ps ++ [p])) : WellSpaced ps where
  first := fun q hq => h.first q (List.mem_head?_append_of_mem_head? hq)
  nonneg := fun q hq => h.nonneg q (List.mem_append_left _ hq)

namespace OpenLine

variable {limit : Rat} {ps : List (Tinted Rat)}
  {closed : List (List (Tinted Rat) × List (Tinted Rat))} {l : OpenLine Rat}

/-- What is on lines so far fits, also what stands before the last space on the open line. -/
structure Fits (limit : Rat) (closed : List (List (Tinted Rat) × List (Tinted Rat)))
    (l : OpenLine Rat) : Prop where
  closed : ∀ line ∈ closed.map Prod.fst, LineFits limit line
  pieces : LineFits limit l.pieces
  head : ∀ before space, l.head = some (before, space) → lineWidth before ≤ limit

/-- A line that fits joins the closed ones. -/
theorem Fits.closed_append (h : Fits limit closed l) {line gap : List (Tinted Rat)}
    (hline : LineFits limit line) :
    ∀ other ∈ (closed ++ [(line, gap)]).map Prod.fst, LineFits limit other := by
  rw [List.map_append]
  exact List.forall_mem_append.mpr ⟨h.closed, List.forall_mem_singleton.mpr hline⟩

/-- **Filling keeps to the limit.** Every line fits, or there is no space on it. -/
theorem Filling.fits (h : Filling limit ps closed l) (hps : WellSpaced ps) :
    Fits limit closed l := by
  induction h with
  | start => exact ⟨by simp, lineFits_nil limit, by rintro _ _ ⟨⟩⟩
  | @lead ps _ p h hl hp =>
    obtain rfl : ps = [] := by simpa [hl] using h.breaksInto.eq
    rw [hps.first p rfl] at hp
    cases hp
  | skip _ _ _ ih =>
    have hfits := ih hps.of_concat
    exact ⟨by simpa using hfits.closed, hfits.pieces, hfits.head⟩
  | close _ _ _ _ ih =>
    have hfits := ih hps.of_concat
    exact ⟨hfits.closed_append hfits.pieces, lineFits_nil limit, by rintro _ _ ⟨⟩⟩
  | @space _ _ l p h _ hp ho ih =>
    have hnonneg := hps.nonneg p (by simp) hp
    have hwidth : lineWidth l.pieces + p.box.width ≤ limit := by
      rw [← h.width_eq]
      exact not_lt.mp ho
    refine ⟨(ih hps.of_concat).closed, .inl ?_, ?_⟩
    · rwa [pieces_addSpace, lineWidth_append_singleton]
    · rintro _ _ ⟨⟩
      linarith
  | carry h hp _ hhead ih =>
    have hfits := ih hps.of_concat
    refine ⟨hfits.closed_append (.inl (hfits.head _ _ hhead)), .inr ?_, by rintro _ _ ⟨⟩⟩
    rw [pieces_carry]
    simpa [or_imp, forall_and, hp] using h.tail
  | @add _ _ l p h hp ho ih =>
    have hfits := ih hps.of_concat
    refine ⟨hfits.closed, ?_, hfits.head⟩
    rw [pieces_add]
    by_cases hover : limit < l.width + p.box.width
    · refine .inr ?_
      simpa [or_imp, forall_and, hp] using h.pieces_of_head_eq_none (ho hover)
    · refine .inl ?_
      rw [lineWidth_append_singleton, ← h.width_eq]
      exact not_lt.mp hover

end OpenLine

/-- The lines of pieces fit. -/
theorem Filled.fits {limit : Rat} {ps : List (Tinted Rat)}
    {broken : List (List (Tinted Rat) × List (Tinted Rat))} (h : Filled limit ps broken)
    (hps : WellSpaced ps) : ∀ c ∈ broken, LineFits limit c.1 := by
  obtain ⟨closed, l, hfill, rfl⟩ := h
  have hfits := hfill.fits hps
  have hclosed : ∀ c ∈ closed, LineFits limit c.1 := by simpa using hfits.closed
  split
  · exact hclosed
  · exact List.forall_mem_append.mpr ⟨hclosed, List.forall_mem_singleton.mpr hfits.pieces⟩

namespace Box

/-- The row is no wider than the limit, or there is no breakable space in it. -/
def Fits (b : Box Rat) (limit : Rat) : Prop :=
  b.width ≤ limit ∨ ∀ p ∈ openedBoxes b.children, p.isBreakable = false

/-- The boxes of a line are those of its pieces. -/
theorem openedBoxes_lineBox {b : Box Rat} {width : Rat}
    {broken : List (List (Tinted Rat) × List (Tinted Rat))} (h : Filled width b.pieces broken)
    {c : List (Tinted Rat) × List (Tinted Rat)} (hc : c ∈ broken) :
    openedBoxes (lineBox c).1.children = c.1.map Tinted.box := by
  rw [openedBoxes, ← tintedPieces_eq_opened, tintedPieces_lineBox Scalar.isZero_zero_rat h hc,
    List.map_map]
  rfl

/-- A row whose pieces make one line fits, if they do not end with space. -/
theorem fits_of_filled {b : Box Rat} {limit : Rat}
    {broken : List (List (Tinted Rat) × List (Tinted Rat))} (h : Filled limit b.pieces broken)
    (hlength : broken.length ≤ 1) (hwidth : b.width = lineWidth b.pieces)
    (hps : WellSpaced b.pieces) (hlast : ∀ p ∈ b.pieces.getLast?, p.box.isBreakable = false) :
    b.Fits limit := by
  have hfits : LineFits limit b.pieces := by
    obtain ⟨hpieces, hspace, -⟩ := h.breaks
    match broken, hlength with
    | [], _ => exact hpieces ▸ lineFits_nil limit
    | [(line, gap)], _ =>
      have hgap : gap = [] := by
        by_contra hne
        have hmem := List.getLast_mem hne
        have hend : b.pieces.getLast? = some (gap.getLast hne) := by
          simp [hpieces, List.getLast?_append, List.getLast?_eq_some_getLast hne]
        have hbreak := hspace _ (List.mem_singleton_self _) _ hmem
        rw [hlast _ hend] at hbreak
        cases hbreak
      have hline : b.pieces = line := by simpa [hgap] using hpieces
      exact hline ▸ h.fits hps (line, gap) (List.mem_singleton_self _)
  rw [Fits, hwidth, ← map_box_pieces, List.forall_mem_map]
  exact hfits

/-- **Broken rows keep to the limit.** Take a row of consistent widths whose pieces neither start
nor end with breakable space, and whose breakable space is not negative. Whatever the limit, the row
stays as it is and fits, or each of its lines does: it is no wider than the limit, or there is no
breakable space in it. -/
theorem lines_fit {b : Box Rat} (hb : b.isHBox = true) (hwidths : b.HasRowWidths)
    (hfirst : ∀ p ∈ (openedBoxes b.children).head?, p.isBreakable = false)
    (hlast : ∀ p ∈ (openedBoxes b.children).getLast?, p.isBreakable = false)
    (hspace : ∀ p ∈ openedBoxes b.children, p.isBreakable = true → 0 ≤ p.width)
    (limit interline : Rat) :
    b.breakLines limit interline = b ∧ b.Fits limit ∨ ∃ lines, b.SplitsInto lines ∧
      b.breakLines limit interline =
        .vbox ((lines.map Prod.fst).intersperse (.vkern interline)) 0 ∧
      ∀ c ∈ lines, c.1.Fits limit := by
  have hwidth := hwidths.width_eq hb
  simp only [← map_box_pieces, List.head?_map, List.getLast?_map, Option.mem_map,
    List.forall_mem_map, forall_exists_index, and_imp, forall_apply_eq_imp_iff₂]
    at hfirst hlast hspace
  rcases breakLines_cases Scalar.isZero_zero_rat b limit interline with
    ⟨heq, hfits | hrow | ⟨broken, h, hlength⟩⟩ | ⟨broken, h, hsplit, heq⟩
  · exact .inl ⟨heq, .inl hfits⟩
  · rw [hb] at hrow
    cases hrow
  · exact .inl ⟨heq, fits_of_filled h hlength hwidth ⟨hfirst, hspace⟩ hlast⟩
  · refine .inr ⟨_, hsplit, heq, ?_⟩
    simp only [List.forall_mem_map]
    intro c hc
    have hfits := h.fits ⟨hfirst, hspace⟩ c hc
    rwa [Fits, width_lineBox, openedBoxes_lineBox h hc, List.forall_mem_map]

/-- Three letters with space between them, two of them in red: the third one goes to a new line,
whether there is room for the second space or not. -/
theorem breakLines_letters {limit : Rat} (hlimit : limit = 5 ∨ limit = 7) :
    let x : Box Rat := .glyph 'x' .math 10 2 1 0
    let space : Box Rat := .glue 1 true
    let red : Box Rat := .colored (.hbox [x, space, x]) (some ⟨255, 0, 0, 255⟩) none
    let b : Box Rat := .hbox [red, space, x]
    b.breakLines limit 3 = .vbox [.hbox [red], .vkern 3, .hbox [x]] 0 := by
  intro x space red b
  let m : List TintMark := [⟨0, ⟨some ⟨255, 0, 0, 255⟩, none⟩⟩]
  have hpieces : b.pieces = [⟨x, m⟩, ⟨space, m⟩, ⟨x, m⟩, ⟨space, []⟩, ⟨x, []⟩] := by
    simp [pieces, b, red, hbox, children, unshifted, BoxContent.children, colored, openRuns,
      Scalar.isZero, x, space, glue, glyph, m]
  have hfill : fillLines limit [⟨x, m⟩, ⟨space, m⟩, ⟨x, m⟩, ⟨space, []⟩, ⟨x, []⟩] =
      [[⟨x, m⟩, ⟨space, m⟩, ⟨x, m⟩], [⟨x, []⟩]] := by
    rcases hlimit with rfl | rfl <;>
      norm_num [fillLines, OpenLine.step, OpenLine.empty, OpenLine.pieces, OpenLine.add,
        OpenLine.addSpace, OpenLine.carry, isBreakable, x, space, glue, glyph, unshifted,
        List.isEmpty]
  have hwide : ¬(b.width ≤ limit ∨ b.isHBox = false) := by
    rcases hlimit with rfl | rfl <;> decide +kernel
  rw [breakLines, if_neg hwide, hpieces, hfill]
  rfl

/-- Three letters with space between them, two of them in red: the third one goes to a new line. -/
theorem lines_fit_letters :
    let x : Box Rat := .glyph 'x' .math 10 2 1 0
    let space : Box Rat := .glue 1 true
    let red : Box Rat := .colored (.hbox [x, space, x]) (some ⟨255, 0, 0, 255⟩) none
    let b : Box Rat := .hbox [red, space, x]
    let broken : Box Rat := .vbox [.hbox [red], .vkern 3, .hbox [x]] 0
    b.isHBox = true ∧ b.HasRowWidths ∧ openedBoxes b.children = [x, space, x, space, x] ∧
      b.breakLines 5 3 = broken ∧ ∃ lines, b.SplitsInto lines ∧
        broken = .vbox ((lines.map Prod.fst).intersperse (.vkern 3)) 0 ∧
        ∀ c ∈ lines, c.1.Fits 5 := by
  intro x space red b broken
  have hwidths : b.HasRowWidths := by
    have hred : red.Sound := (sound_hbox (by simp [x, space])).colored _ _
    exact (sound_hbox (by simp [hred, x, space])).measured.hasRowWidths
  have hopened : openedBoxes b.children = [x, space, x, space, x] := by
    simp [openedBoxes, opened, b, red, hbox, colored, children, unshifted, BoxContent.children, x,
      space, glue, glyph, Scalar.isZero]
  have hbroken : b.breakLines 5 3 = broken := breakLines_letters (.inl rfl)
  have h := lines_fit (b := b) rfl hwidths (by rw [hopened]; rintro _ ⟨rfl⟩; rfl)
    (by rw [hopened]; rintro _ ⟨rfl⟩; rfl) (by simp [hopened, x, space, glue, glyph, unshifted]) 5 3
  rw [hbroken] at h
  refine ⟨rfl, hwidths, hopened, hbroken, h.resolve_left fun heq => ?_⟩
  have hrow := congrArg isHBox heq.1
  cases hrow

end Box

/-! ## Lines that are broken late -/

/-- The width of boxes up to the first breakable space. -/
def leadWidth (bs : List (Box Rat)) : Rat :=
  ((bs.takeWhile fun b => !b.isBreakable).map Box.width).sum

/-- With the first space that is dropped after it and the boxes of the next line up to a space, a
line is wider than the limit. -/
def BreaksLate (limit line : Rat) (gap next : List (Box Rat)) : Prop :=
  ∃ space rest, gap = space :: rest ∧ limit < line + space.width + leadWidth next

/-- Nothing counts from the first space on. -/
theorem leadWidth_append_space (bs : List (Box Rat)) {space : Box Rat}
    (hspace : space.isBreakable = true) (rest : List (Box Rat)) :
    leadWidth (bs ++ space :: rest) = leadWidth bs := by
  rw [leadWidth, leadWidth, List.takeWhile_append, List.takeWhile_cons_of_neg (by simp [hspace])]
  split
  · rename_i hlength
    rw [List.append_nil, (List.takeWhile_prefix _).eq_of_length hlength]
  · rfl

/-- A further box that is not negative makes the width no smaller. -/
theorem leadWidth_le_concat (bs : List (Box Rat)) {b : Box Rat} (hb : 0 ≤ b.width) :
    leadWidth bs ≤ leadWidth (bs ++ [b]) := by
  rw [leadWidth, leadWidth, List.takeWhile_append]
  split
  · rename_i hlength
    rw [(List.takeWhile_prefix _).eq_of_length hlength, List.map_append, List.sum_append]
    by_cases hbreak : b.isBreakable = true
    · simp [hbreak]
    · simpa [hbreak] using hb
  · rfl

/-- Without space all boxes count. -/
theorem leadWidth_of_forall {line : List (Tinted Rat)}
    (h : ∀ p ∈ line, p.box.isBreakable = false) :
    leadWidth (line.map Tinted.box) = lineWidth line := by
  rw [leadWidth, List.takeWhile_eq_self_iff.mpr (by simpa using h), lineWidth_rat, List.map_map]
  rfl

namespace OpenLine

variable {limit : Rat} {ps : List (Tinted Rat)}
  {closed : List (List (Tinted Rat) × List (Tinted Rat))} {l : OpenLine Rat}

/-- A closed line breaks late before another one. -/
def LateBefore (limit : Rat) (c : List (Tinted Rat) × List (Tinted Rat))
    (next : List (Tinted Rat)) : Prop :=
  BreaksLate limit (lineWidth c.1) (c.2.map Tinted.box) (next.map Tinted.box)

/-- Every closed line breaks late before the next one, and the last one before the open line. -/
structure Late (limit : Rat) (closed : List (List (Tinted Rat) × List (Tinted Rat)))
    (l : OpenLine Rat) : Prop where
  chain : closed.IsChain fun c d => LateBefore limit c d.1
  last : ∀ c ∈ closed.getLast?, LateBefore limit c l.pieces

/-- What stands on the open line up to a space becomes no narrower. -/
theorem Late.keep (h : Late limit closed l) {l' : OpenLine Rat}
    (hlead : leadWidth (l.pieces.map Tinted.box) ≤ leadWidth (l'.pieces.map Tinted.box)) :
    Late limit closed l' where
  chain := h.chain
  last := by
    intro c hc
    obtain ⟨space, rest, hgap, hover⟩ := h.last c hc
    exact ⟨space, rest, hgap, by linarith⟩

/-- The open line is closed, at its end or at a space on it. -/
theorem Late.close (h : Late limit closed l) {l' : OpenLine Rat} {line gap : List (Tinted Rat)}
    (hlead : leadWidth (line.map Tinted.box) = leadWidth (l.pieces.map Tinted.box))
    (hlate : LateBefore limit (line, gap) l'.pieces) : Late limit (closed ++ [(line, gap)]) l' where
  chain := by
    refine h.chain.append (.singleton _) ?_
    rintro c hc _ ⟨rfl⟩
    obtain ⟨space, rest, hgap, hover⟩ := h.last c hc
    exact ⟨space, rest, hgap, by rwa [hlead]⟩
  last := by
    rw [List.getLast?_concat]
    rintro _ ⟨rfl⟩
    exact hlate

/-- **Filling breaks late**, if no piece is negative. -/
theorem Filling.late (h : Filling limit ps closed l) (hps : ∀ p ∈ ps, 0 ≤ p.box.width) :
    Late limit closed l := by
  induction h with
  | start | lead => exact ⟨.nil, by simp⟩
  | @skip _ closed line gap _ p _ _ _ ih =>
    have hlate := ih fun q hq => hps q (List.mem_append_left _ hq)
    refine ⟨?_, ?_⟩
    · simpa [List.isChain_append] using hlate.chain
    · rw [List.getLast?_concat]
      rintro _ ⟨rfl⟩
      obtain ⟨space, rest, hgap, hover⟩ := hlate.last (line, gap) (by simp)
      exact ⟨space, rest ++ [p.box], by simpa using congrArg (· ++ [p.box]) hgap, hover⟩
  | @close _ _ l p h _ _ ho ih =>
    refine (ih fun q hq => hps q (List.mem_append_left _ hq)).close rfl ⟨p.box, [], rfl, ?_⟩
    rw [h.width_eq] at ho
    simpa [OpenLine.pieces, empty, leadWidth] using ho
  | @space _ _ l p _ _ hp _ ih =>
    refine (ih fun q hq => hps q (List.mem_append_left _ hq)).keep (le_of_eq ?_)
    rw [pieces_addSpace, List.map_append]
    exact (leadWidth_append_space _ hp []).symm
  | @carry _ _ l p before space h hp ho hhead ih =>
    have hpieces := pieces_of_head hhead
    have hspace := h.breaksInto.head _ _ hhead
    refine (ih fun q hq => hps q (List.mem_append_left _ hq)).close ?_ ⟨space.box, [], rfl, ?_⟩
    · rw [hpieces, List.map_append, List.map_cons, leadWidth_append_space _ hspace]
    · have hsolid : ∀ q ∈ l.tail ++ [p], q.box.isBreakable = false := by
        simpa [or_imp, forall_and, hp] using h.tail
      rw [pieces_carry, leadWidth_of_forall hsolid]
      rw [h.width_eq, hpieces] at ho
      simp only [lineWidth_append, lineWidth_cons, lineWidth_nil] at ho ⊢
      linarith
  | @add _ _ l p _ _ _ ih =>
    refine (ih fun q hq => hps q (List.mem_append_left _ hq)).keep ?_
    rw [pieces_add, List.map_append]
    exact leadWidth_le_concat _ (hps p (by simp))

end OpenLine

/-- The lines of pieces break late. -/
theorem Filled.late {limit : Rat} {ps : List (Tinted Rat)}
    {broken : List (List (Tinted Rat) × List (Tinted Rat))} (h : Filled limit ps broken)
    (hps : ∀ p ∈ ps, 0 ≤ p.box.width) :
    broken.IsChain fun c d => OpenLine.LateBefore limit c d.1 := by
  obtain ⟨closed, l, hfill, rfl⟩ := h
  have hlate := hfill.late hps
  split
  · exact hlate.chain
  · refine hlate.chain.append (.singleton _) ?_
    rintro c hc _ ⟨rfl⟩
    exact hlate.last c hc

namespace Box

/-- **Rows are broken late.** Take a row in whose pieces nothing is negative. Whatever the limit,
the row stays as it is, or any two lines that follow each other are together too wide: the first
one, the first space that is dropped after it, and the boxes of the second one up to a space. -/
theorem lines_break_late {b : Box Rat} (hb : ∀ p ∈ openedBoxes b.children, 0 ≤ p.width)
    (limit interline : Rat) :
    b.breakLines limit interline = b ∨ ∃ lines, b.SplitsInto lines ∧
      b.breakLines limit interline =
        .vbox ((lines.map Prod.fst).intersperse (.vkern interline)) 0 ∧
      lines.IsChain fun c d =>
        BreaksLate limit c.1.width (c.2.map Prod.fst) (openedBoxes d.1.children) := by
  rw [← map_box_pieces, List.forall_mem_map] at hb
  rcases breakLines_cases Scalar.isZero_zero_rat b limit interline with
    ⟨heq, -⟩ | ⟨broken, h, hsplit, heq⟩
  · exact .inl heq
  · refine .inr ⟨_, hsplit, heq, ?_⟩
    rw [List.isChain_map]
    refine (h.late hb).imp_of_mem_imp fun c d _ hd hlate => ?_
    rw [width_lineBox, openedBoxes_lineBox h hd, lineBox, List.map_map]
    exact hlate

/-- Three letters with space between them, two of them in red: the third one did not fit. -/
theorem lines_break_late_letters :
    let x : Box Rat := .glyph 'x' .math 10 2 1 0
    let space : Box Rat := .glue 1 true
    let red : Box Rat := .colored (.hbox [x, space, x]) (some ⟨255, 0, 0, 255⟩) none
    let b : Box Rat := .hbox [red, space, x]
    let broken : Box Rat := .vbox [.hbox [red], .vkern 3, .hbox [x]] 0
    (∀ p ∈ openedBoxes b.children, 0 ≤ p.width) ∧ b.breakLines 7 3 = broken ∧
      ∃ lines, b.SplitsInto lines ∧
        broken = .vbox ((lines.map Prod.fst).intersperse (.vkern 3)) 0 ∧
        lines.IsChain fun c d =>
          BreaksLate 7 c.1.width (c.2.map Prod.fst) (openedBoxes d.1.children) := by
  intro x space red b broken
  have hopened : ∀ p ∈ openedBoxes b.children, 0 ≤ p.width := by
    simp [openedBoxes, opened, b, red, hbox, colored, children, unshifted, BoxContent.children, x,
      space, glue, glyph, Scalar.isZero]
  have hbroken : b.breakLines 7 3 = broken := breakLines_letters (.inr rfl)
  have h := lines_break_late hopened 7 3
  rw [hbroken] at h
  refine ⟨hopened, hbroken, h.resolve_left fun heq => ?_⟩
  have hrow := congrArg isHBox heq
  cases hrow

end Box

end Typeset
