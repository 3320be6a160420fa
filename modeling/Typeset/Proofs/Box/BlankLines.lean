import Mathlib.Data.List.Infix
import Typeset.Proofs.Box.Lines

/-!
# Blank lines

A line is blank if there is nothing but breakable space on it. Only the first line of a broken row
can be: every other one starts with a piece that is no space. The first line is blank exactly if the
row starts with space and overflows before the pieces after that space are over.

* `IsLead`: space, and pieces after it between which no line can be broken.
* `LeadOverflows`: a lead at the start of the pieces is wider than the limit.
* `OpenLine.Filling.firstLine`, `OpenLine.Filling.startsSolid`: what that says of the first line,
  and how the other lines start.
* `Box.blank_line_iff`: the same of a broken row.
-/

namespace Typeset

variable {α : Type} [Scalar α]

/-- The line starts with a piece that is no breakable space. -/
def StartsSolid (line : List (Tinted α)) : Prop :=
  ∃ p rest, line = p :: rest ∧ p.box.isBreakable = false

/-- Breakable space and pieces after it between which no line can be broken, two or more in all. -/
def IsLead (ps : List (Tinted α)) : Prop :=
  2 ≤ ps.length ∧ ∃ space solid, ps = space ++ solid ∧ space ≠ [] ∧
    (∀ p ∈ space, p.box.isBreakable = true) ∧ ∀ p ∈ solid, p.box.isBreakable = false

/-- A lead at the start of the pieces is wider than the limit. -/
def LeadOverflows (limit : α) (ps : List (Tinted α)) : Prop :=
  ∃ lead, lead <+: ps ∧ IsLead lead ∧ limit < lineWidth lead

omit [Scalar α] in
theorem StartsSolid.append {line : List (Tinted α)} (h : StartsSolid line)
    (more : List (Tinted α)) : StartsSolid (line ++ more) := by
  obtain ⟨p, rest, rfl, hp⟩ := h
  exact ⟨p, rest ++ more, rfl, hp⟩

omit [Scalar α] in
/-- What stands before a space starts as the line does. -/
theorem StartsSolid.of_space {before after : List (Tinted α)} {space : Tinted α}
    (h : StartsSolid (before ++ space :: after)) (hspace : space.box.isBreakable = true) :
    StartsSolid before := by
  obtain ⟨p, rest, heq, hp⟩ := h
  cases before with
  | nil =>
    obtain rfl : space = p := by simpa using congrArg List.head? heq
    rw [hspace] at hp
    cases hp
  | cons q before =>
    obtain rfl : q = p := by simpa using congrArg List.head? heq
    exact ⟨q, before, rfl, hp⟩

omit [Scalar α] in
/-- Pieces without space are solid at their start. -/
theorem startsSolid_concat {line : List (Tinted α)} {p : Tinted α}
    (h : ∀ q ∈ line, q.box.isBreakable = false) (hp : p.box.isBreakable = false) :
    StartsSolid (line ++ [p]) := by
  cases line with
  | nil => exact ⟨p, [], rfl, hp⟩
  | cons q line => exact ⟨q, line ++ [p], rfl, h q (List.mem_cons_self ..)⟩

omit [Scalar α] in
/-- In a lead there is only space before a space. -/
theorem IsLead.before {before after : List (Tinted α)} {p : Tinted α}
    (h : IsLead (before ++ p :: after)) (hp : p.box.isBreakable = true) :
    ∀ q ∈ before, q.box.isBreakable = true := by
  obtain ⟨-, space, solid, heq, -, hspace, hsolid⟩ := h
  rcases List.append_eq_append_iff.mp heq with ⟨mid, hmid, -⟩ | ⟨mid, -, hmid⟩
  · exact fun q hq => hspace q (by simp [hmid, hq])
  · rw [hsolid p (by simp [hmid])] at hp
    cases hp

omit [Scalar α] in
/-- Pieces are a lead by their last space if there is only space before it. -/
theorem isLead_iff {before after : List (Tinted α)} {p : Tinted α} (hp : p.box.isBreakable = true)
    (hafter : ∀ q ∈ after, q.box.isBreakable = false)
    (hlength : 2 ≤ (before ++ p :: after).length) :
    IsLead (before ++ p :: after) ↔ ∀ q ∈ before, q.box.isBreakable = true := by
  refine ⟨fun h => h.before hp, fun h => ?_⟩
  exact ⟨hlength, before ++ [p], after, by simp, by simp,
    List.forall_mem_append.mpr ⟨h, List.forall_mem_singleton.mpr hp⟩, hafter⟩

omit [Scalar α] in
/-- Pieces without space are no lead. -/
theorem not_isLead_of_forall {ps : List (Tinted α)} (h : ∀ p ∈ ps, p.box.isBreakable = false) :
    ¬IsLead ps := by
  rintro ⟨-, space, solid, rfl, hne, hspace, -⟩
  obtain ⟨p, hp⟩ := List.exists_mem_of_ne_nil space hne
  have := h p (by simp [hp])
  rw [hspace p hp] at this
  cases this

theorem not_leadOverflows_nil (limit : α) : ¬LeadOverflows limit [] := by
  rintro ⟨lead, hlead, ⟨hlength, -⟩, -⟩
  rw [List.prefix_nil.mp hlead] at hlength
  cases hlength

/-- A lead of one piece more overflows if a lead before did, or if the pieces are one. -/
theorem leadOverflows_concat {limit : α} {ps : List (Tinted α)} {p : Tinted α} :
    LeadOverflows limit (ps ++ [p]) ↔
      LeadOverflows limit ps ∨ IsLead (ps ++ [p]) ∧ limit < lineWidth (ps ++ [p]) := by
  constructor
  · rintro ⟨lead, hlead, his, ho⟩
    rcases List.prefix_concat_iff.mp hlead with rfl | hlead
    · exact .inr ⟨his, ho⟩
    · exact .inl ⟨lead, hlead, his, ho⟩
  · rintro (⟨lead, hlead, his, ho⟩ | ⟨his, ho⟩)
    · exact ⟨lead, hlead.trans (List.prefix_append _ _), his, ho⟩
    · exact ⟨_, List.prefix_rfl, his, ho⟩

namespace OpenLine

variable {limit : α} {ps : List (Tinted α)}
  {closed : List (List (Tinted α) × List (Tinted α))} {l : OpenLine α}

omit [Scalar α] in
/-- After the first line there is a space, which is dropped. -/
theorem BreaksInto.exists_space (h : BreaksInto ps closed l) {line : List (Tinted α)}
    (hline : (closed.map Prod.fst).head? = some line) :
    ∃ space rest, space.box.isBreakable = true ∧ ps = line ++ space :: rest := by
  match closed, hline with
  | (_, gap) :: closed, rfl =>
    cases gap with
    | nil => exact (h.ne_nil _ (List.mem_cons_self ..) rfl).elim
    | cons space gap =>
      exact ⟨space, _, h.breakable _ (List.mem_cons_self ..) space (List.mem_cons_self ..),
        by rw [h.eq, List.flatMap_cons, List.append_assoc, List.append_assoc, List.cons_append]⟩

/-- **Later lines.** Every line after the first starts with a piece that is no space, also the open
one, once there is something on it. -/
theorem Filling.startsSolid (h : Filling limit ps closed l) :
    (∀ line ∈ (closed.map Prod.fst).tail, StartsSolid line) ∧
      (closed ≠ [] → l.pieces ≠ [] → StartsSolid l.pieces) := by
  -- A line that is closed is the first one, or it starts so.
  have hclosed {closed : List (List (Tinted α) × List (Tinted α))} {line gap : List (Tinted α)}
      (h : ∀ line ∈ (closed.map Prod.fst).tail, StartsSolid line)
      (hline : closed ≠ [] → StartsSolid line) :
      ∀ other ∈ ((closed ++ [(line, gap)]).map Prod.fst).tail, StartsSolid other := by
    cases closed with
    | nil => simp
    | cons first rest =>
      simp only [List.cons_append, List.map_cons, List.tail_cons, List.map_append, List.map_nil,
        List.mem_append, List.mem_singleton] at h ⊢
      rintro other (hother | rfl)
      · exact h other hother
      · exact hline (List.cons_ne_nil _ _)
  induction h with
  | start | lead => simp
  | skip _ hl _ ih => exact ⟨by simpa using ih.1, fun _ hne => (hne hl).elim⟩
  | close _ hl _ _ ih => exact ⟨hclosed ih.1 fun hc => ih.2 hc hl, fun _ hne => (hne rfl).elim⟩
  | space _ hl _ _ ih => exact ⟨ih.1, fun hc _ => (ih.2 hc hl).append _⟩
  | carry h hp _ hhead ih =>
    refine ⟨hclosed ih.1 fun hc => ?_, fun _ _ => startsSolid_concat h.tail hp⟩
    have hpieces := pieces_of_head hhead
    exact (hpieces ▸ ih.2 hc (by simp [hpieces])).of_space (h.breaksInto.head _ _ hhead)
  | @add _ _ l p h hp _ ih =>
    refine ⟨ih.1, fun hc _ => ?_⟩
    rw [pieces_add]
    by_cases hl : l.pieces = []
    · exact ⟨p, [], by rw [hl]; rfl, hp⟩
    · exact (ih.2 hc hl).append _

/-- What filling says of the first line: as long as no line is closed, no lead overflows, and the
first line that is closed is blank exactly if one does. -/
structure FirstLine (limit : α) (ps : List (Tinted α))
    (closed : List (List (Tinted α) × List (Tinted α))) : Prop where
  fits : closed = [] → ¬LeadOverflows limit ps
  blank_iff : ∀ line, (closed.map Prod.fst).head? = some line →
    ((∀ p ∈ line, p.box.isBreakable = true) ↔ LeadOverflows limit ps)

variable {p : Tinted α}

/-- Once the first line is closed, further pieces change nothing. -/
theorem FirstLine.blank_iff_concat (h : FirstLine limit ps closed) (hb : BreaksInto ps closed l)
    {line : List (Tinted α)} (hline : (closed.map Prod.fst).head? = some line) :
    (∀ p ∈ line, p.box.isBreakable = true) ↔ LeadOverflows limit (ps ++ [p]) := by
  have hiff := h.blank_iff line hline
  obtain ⟨space, rest, hspace, rfl⟩ := hb.exists_space hline
  rw [leadOverflows_concat, ← hiff, or_iff_left_of_imp]
  rintro ⟨his, -⟩
  rw [List.append_assoc, List.cons_append] at his
  exact his.before hspace

/-- A piece that closes no line, and with which the open line does not overflow as a lead. -/
theorem FirstLine.concat (h : FirstLine limit ps closed) (hb : BreaksInto ps closed l)
    (ho : IsLead (l.pieces ++ [p]) → ¬limit < lineWidth (l.pieces ++ [p])) :
    FirstLine limit (ps ++ [p]) closed where
  fits := by
    rintro rfl hlead
    obtain rfl : ps = l.pieces := hb.eq
    rcases leadOverflows_concat.mp hlead with hlead | ⟨his, hover⟩
    · exact h.fits rfl hlead
    · exact ho his hover
  blank_iff := fun _ hline => h.blank_iff_concat hb hline

/-- A piece with which the open line overflows, so that it is closed at its last space. -/
theorem FirstLine.close (h : FirstLine limit ps closed) (hb : BreaksInto ps closed l)
    (hl : l.pieces ≠ []) (ho : limit < lineWidth (l.pieces ++ [p]))
    {before after gap : List (Tinted α)} {space : Tinted α}
    (heq : l.pieces ++ [p] = before ++ space :: after) (hspace : space.box.isBreakable = true)
    (hafter : ∀ q ∈ after, q.box.isBreakable = false) :
    FirstLine limit (ps ++ [p]) (closed ++ [(before, gap)]) where
  fits := fun hnil => by simp at hnil
  blank_iff := by
    cases closed with
    | cons first rest => exact fun line hline => h.blank_iff_concat hb hline
    | nil =>
      rintro line ⟨rfl⟩
      obtain rfl : ps = l.pieces := hb.eq
      have hlength : 2 ≤ (l.pieces ++ [p]).length := by
        simpa using Nat.succ_le_succ (List.length_pos_iff.mpr hl)
      rw [leadOverflows_concat, or_iff_right (h.fits rfl), and_iff_left ho]
      rw [heq] at hlength ⊢
      exact (isLead_iff hspace hafter hlength).symm

/-- **The first line** of a filling is blank exactly if a lead overflows. -/
theorem Filling.firstLine (h : Filling limit ps closed l) : FirstLine limit ps closed := by
  induction h with
  | start => exact ⟨fun _ => not_leadOverflows_nil limit, fun _ h => nomatch h⟩
  | lead h hl _ ih =>
    refine ih.concat h.breaksInto fun his => ?_
    have hlength := his.1
    simp [hl] at hlength
  | @skip _ closed line gap _ p h _ _ ih =>
    have hlines : (closed ++ [(line, gap ++ [p])]).map Prod.fst =
        (closed ++ [(line, gap)]).map Prod.fst := by simp
    refine ⟨fun h => by simp at h, ?_⟩
    rw [hlines]
    exact fun first hfirst => ih.blank_iff_concat h.breaksInto hfirst
  | close h hl hp ho ih =>
    refine ih.close h.breaksInto hl ?_ rfl hp fun _ h => nomatch h
    rwa [lineWidth_append_singleton, ← h.width_eq]
  | space h _ _ ho ih =>
    refine ih.concat h.breaksInto fun _ => ?_
    rwa [lineWidth_append_singleton, ← h.width_eq]
  | carry h hp ho hhead ih =>
    have hpieces := pieces_of_head hhead
    refine ih.close h.breaksInto (by simp [hpieces]) ?_
      (by rw [hpieces, List.append_assoc]; rfl) (h.breaksInto.head _ _ hhead) ?_
    · rwa [lineWidth_append_singleton, ← h.width_eq]
    · simpa [or_imp, forall_and, hp] using h.tail
  | add h hp ho ih =>
    refine ih.concat h.breaksInto fun his hover => not_isLead_of_forall ?_ his
    rw [lineWidth_append_singleton, ← h.width_eq] at hover
    simpa [or_imp, forall_and, hp] using h.pieces_of_head_eq_none (ho hover)

end OpenLine

section

variable {limit : α} {ps : List (Tinted α)} {first : List (Tinted α) × List (Tinted α)}
  {rest : List (List (Tinted α) × List (Tinted α))}

/-- The lines are the closed ones of a filling, and perhaps the open one after them. -/
theorem Filled.exists_closed (h : Filled limit ps (first :: rest)) (hrest : rest ≠ []) :
    ∃ closed l, OpenLine.Filling limit ps (first :: closed) l ∧
      (rest = closed ∨ l.pieces ≠ [] ∧ rest = closed ++ [(l.pieces, [])]) := by
  obtain ⟨closed, l, hfill, heq⟩ := h
  split at heq
  · subst heq
    exact ⟨rest, l, hfill, .inl rfl⟩
  · rename_i hl
    cases closed with
    | nil => exact (hrest (List.cons.inj heq).2).elim
    | cons c closed =>
      obtain ⟨rfl, rfl⟩ := List.cons.inj heq
      exact ⟨closed, l, hfill, .inr ⟨hl, rfl⟩⟩

theorem Filled.first_blank_iff (h : Filled limit ps (first :: rest)) (hrest : rest ≠ []) :
    (∀ p ∈ first.1, p.box.isBreakable = true) ↔ LeadOverflows limit ps := by
  obtain ⟨closed, l, hfill, -⟩ := h.exists_closed hrest
  exact hfill.firstLine.blank_iff first.1 rfl

theorem Filled.startsSolid (h : Filled limit ps (first :: rest)) :
    ∀ c ∈ rest, StartsSolid c.1 := by
  by_cases hrest : rest = []
  · simp [hrest]
  · obtain ⟨closed, l, hfill, heq⟩ := h.exists_closed hrest
    have hclosed : ∀ c ∈ closed, StartsSolid c.1 := by simpa using hfill.startsSolid.1
    rcases heq with rfl | ⟨hl, rfl⟩
    · exact hclosed
    · exact List.forall_mem_append.mpr ⟨hclosed, List.forall_mem_singleton.mpr
        (hfill.startsSolid.2 (List.cons_ne_nil _ _) hl)⟩

end

namespace Box

/-- **Blank lines.** When a row is broken, every line after the first starts with a piece that is no
breakable space. The first line holds nothing but breakable space exactly if the row starts with
such space and, with two or more pieces, is wider than the limit before the line could be broken
after it. -/
theorem blank_line_iff (hz : Scalar.isZero (0.0 : α) = true) (b : Box α) (width interline : α) :
    b.breakLines width interline = b ∨ ∃ first rest, b.SplitsInto (first :: rest) ∧
      b.breakLines width interline =
        .vbox (((first :: rest).map Prod.fst).intersperse (.vkern interline)) 0 ∧
      (∀ c ∈ rest, ∃ p ps, c.1.tintedPieces = p :: ps ∧ p.1.isBreakable = false) ∧
      ((∀ p ∈ first.1.tintedPieces, p.1.isBreakable = true) ↔ LeadOverflows width b.pieces) := by
  rcases breakLines_cases hz b width interline with ⟨heq, -⟩ | ⟨broken, h, hsplit, heq⟩
  · exact .inl heq
  · have hlength := hsplit.two_le_length
    match broken, hlength with
    | first :: next :: rest, _ =>
      refine .inr ⟨lineBox first, (next :: rest).map lineBox, hsplit, heq, ?_, ?_⟩
      · simp only [List.forall_mem_map]
        intro c hc
        obtain ⟨p, ps, hline, hp⟩ := h.startsSolid c hc
        exact ⟨(p.box, p.chain), _, by rw [tintedPieces_lineBox hz h (by simp_all), hline]; rfl, hp⟩
      · rw [tintedPieces_lineBox hz h (List.mem_cons_self ..),
          ← h.first_blank_iff (List.cons_ne_nil _ _)]
        simp only [List.forall_mem_map]

/-- A letter after a space, where the letter alone is too wide: the first line is blank. -/
theorem blank_line_iff_leading_space :
    let x : Box Float := .glyph 'x' .math 10.0 10.0 1.0 0.0
    let b : Box Float := .hbox [.glue 1.0 true, x]
    b.breakLines 5.0 2.0 = .vbox [.hbox [], .vkern 2.0, .hbox [x]] 0 ∧
      ∃ first rest, b.SplitsInto (first :: rest) ∧
        Box.vbox [.hbox [], .vkern 2.0, .hbox [x]] 0 =
          .vbox (((first :: rest).map Prod.fst).intersperse (.vkern 2.0)) 0 ∧
        (∀ c ∈ rest, ∃ p ps, c.1.tintedPieces = p :: ps ∧ p.1.isBreakable = false) ∧
        ∀ p ∈ first.1.tintedPieces, p.1.isBreakable = true := by
  intro x b
  have hz : Scalar.isZero (0.0 : Float) = true := by decide
  have hpieces : b.pieces = [⟨.glue 1.0 true, []⟩, ⟨x, []⟩] := by
    simp [pieces, b, hbox, children, unshifted, BoxContent.children, openRuns, x, glue, glyph]
  have hover : (5.0 : Float) < 0.0 + 1.0 + 10.0 := by decide
  have hfill : fillLines 5.0 [⟨.glue 1.0 true, []⟩, ⟨x, []⟩] = [[], [⟨x, []⟩]] := by
    simp [fillLines, OpenLine.step, OpenLine.empty, OpenLine.pieces, OpenLine.addSpace,
      OpenLine.carry, isBreakable, x, glue, glyph, unshifted, hover]
  have hsplit : b.breakLines 5.0 2.0 = .vbox [.hbox [], .vkern 2.0, .hbox [x]] 0 := by
    rw [breakLines, if_neg (by decide), hpieces, hfill]
    rfl
  have hlead : LeadOverflows 5.0 b.pieces := by
    rw [hpieces]
    exact ⟨_, List.prefix_rfl, ⟨by decide, [_], [_], rfl, by simp,
      by simp [isBreakable, glue, unshifted],
      by simp [isBreakable, x, glyph, unshifted]⟩, hover⟩
  have h := blank_line_iff hz b 5.0 2.0
  rw [hsplit] at h
  obtain ⟨first, rest, hlines, heq, hrest, hfirst⟩ := h.resolve_left fun heq => by
    have hrow := congrArg isHBox heq
    cases hrow
  exact ⟨hsplit, first, rest, hlines, heq, hrest, hfirst.mpr hlead⟩

end Box

end Typeset
