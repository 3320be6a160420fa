import Typeset.Proofs.Box.Glyphs
import Typeset.Proofs.Layout.Characters

/-!
# Font sizes of glyphs

Every glyph of the box of an atom is a character of one part of the atom, in the font size of the
style that this part is set in.

* `Atom.placed`: the children of an atom, each with its style.
* `Atom.Sets`: the parts of an atom, each with the style that it is set in.
* `Atom.glyphSize`: the font size of the characters of a part.
* `glyphs_fractionBox`, `glyphs_scriptsBox`, `mem_glyphs_fencedBox` and their like: the
  constructions have the glyphs of the boxes that they are given, and delimiters of their own.
* `Atom.draws_of_mem_glyphs`: the glyphs of the box of an atom, by induction over the atom.
-/

namespace Typeset

open Box

/-- The style of the atoms after a declaration. -/
def SwitchKind.styleIn (s : Style) : SwitchKind → Style
  | .style t => t
  | .font _ | .color _ => s

namespace Atom

/-! ## Parts and their styles -/

/-- The children of an atom that is set in style `s`, each with its style. -/
def placed (s : Style) : Atom → List (Atom × Style)
  | .scripts base sup sub =>
    (base, s) :: (sup.toList.map (·, s.sup) ++ sub.toList.map (·, s.sub))
  | .fraction num den _ => [(num, s.num), (den, s.den)]
  | .radical body degree => (body, s.cramp) :: degree.toList.map (·, .scriptScript)
  | .decorated body .overline => [(body, s.cramp)]
  | .styled t body => [(body, t)]
  | .switch kind atoms => atoms.map (·, kind.styleIn s)
  | .array table options => table.contents.map (·, options.style)
  | a => a.children.map (·, s)

theorem map_fst_placed (s : Style) (a : Atom) : (a.placed s).map Prod.fst = a.children := by
  unfold placed
  split <;> simp [children, Function.comp_def]

/-- In an atom that is set in style `s`, the part `b` is set in style `t`. -/
inductive Sets : Atom → Style → Atom → Style → Prop
  | self (a : Atom) (s : Style) : Sets a s a s
  | inside {a b c : Atom} {s t u : Style} (h : (b, t) ∈ a.placed s) (hc : Sets b t c u) :
    Sets a s c u

variable {α : Type} [Scalar α]

/-- The font size of the characters of an atom in style `s`: large operators are enlarged in
display style. -/
def glyphSize (a : Atom) (s : Style) (size : α) : α :=
  if a.isLargeOperator && s.isDisplay then size * s.scale * displayOperatorScale
  else size * s.scale

/-- A part of the atom has the glyph: its character, in the font size of the style that the part is
set in. -/
def Draws (a : Atom) (s : Style) (size : α) (g : Char × α) : Prop :=
  ∃ b t, a.Sets s b t ∧ g.1 ∈ b.ownCharacters ∧ g.2 = b.glyphSize t size

variable {a b : Atom} {s t : Style} {size : α} {g : Char × α}

theorem draws_self {c : Char} (h : c ∈ a.ownCharacters) : a.Draws s size (c, a.glyphSize s size) :=
  ⟨a, s, .self a s, h, rfl⟩

theorem Draws.of_placed (hg : b.Draws t size g) (h : (b, t) ∈ a.placed s) : a.Draws s size g := by
  obtain ⟨c, u, hc, hg⟩ := hg
  exact ⟨c, u, .inside h hc, hg⟩

end Atom

variable {α : Type} [Scalar α]

/-! ## Characters and texts -/

@[simp] theorem glyphs_charBox (c : Char) (env : Environment α) (withItalic : Bool) :
    (charBox c env withItalic).glyphs = [(c, env.em)] := by
  rw [charBox, glyphs_glyph]

@[simp] theorem glyphs_centeredOnAxis (b : Box α) (env : Environment α) :
    (centeredOnAxis b env).glyphs = b.glyphs := by
  simp [centeredOnAxis]

@[simp] theorem glyphs_largeOperatorBox (c : Char) (env : Environment α) :
    (largeOperatorBox c env).glyphs =
      [(c, if env.style.isDisplay then env.em * displayOperatorScale else env.em)] := by
  simp [largeOperatorBox]

theorem mem_glyphs_textBox {text : String} {font : Font} {env : Environment α} {g : Char × α}
    (h : g ∈ (textBox text font env).glyphs) :
    g.1 ∈ writtenCharacters text ∧ g.2 = env.em := by
  rw [textBox, glyphs_hbox, List.mem_flatMap] at h
  obtain ⟨b, hb, hg⟩ := h
  obtain ⟨c, hc, rfl⟩ := List.mem_map.mp hb
  unfold textCharBox at hg
  split at hg
  · simp [wordSpace] at hg
  · rename_i hne
    simp only [glyphs_glyph, List.mem_singleton] at hg
    subst hg
    exact ⟨Multiset.mem_coe.mpr (List.mem_filter.mpr ⟨hc, by simpa using hne⟩), rfl⟩

/-! ## Scripts -/

theorem glyphs_scriptsBox (n : Nucleus α) (sup sub : Option (Box α)) (env : Environment α) :
    (scriptsBox n sup sub env).glyphs =
      n.box.glyphs ++ (sup.toList.flatMap glyphs ++ sub.toList.flatMap glyphs) := by
  cases sup with
  | none => cases sub <;> simp [scriptsBox]
  | some sup =>
    cases sub with
    | none => simp [scriptsBox]
    | some sub =>
      unfold scriptsBox
      generalize bothShifts n sup sub env = shifts
      simp

theorem glyphs_limitsBox (op : Box α) (sup sub : Option (Box α)) (env : Environment α) :
    (limitsBox op sup sub env).glyphs =
      sup.toList.flatMap glyphs ++ (op.glyphs ++ sub.toList.flatMap glyphs) := by
  cases sup <;> cases sub <;> simp [limitsBox]

/-! ## Fractions, radicals and decorations -/

theorem glyphs_fractionBox (num den : Box α) (rule : Bool) (env : Environment α) :
    (fractionBox num den rule env).glyphs = num.glyphs ++ den.glyphs := by
  have hbar (w t : α) : (if rule = true then Box.rule w t t else strut w 0.0 0.0).glyphs = [] := by
    split <;> simp
  simp [fractionBox, hbar]

/-- The sign of a radical is stretched, and no glyph. -/
theorem glyphs_radicalBox (body : Box α) (degree : Option (Box α)) (env : Environment α) :
    (radicalBox body degree env).glyphs = degree.toList.flatMap glyphs ++ body.glyphs := by
  cases degree <;> simp [radicalBox]

theorem glyphs_overlineBox (body : Box α) (env : Environment α) :
    (overlineBox body env).glyphs = body.glyphs := by
  simp [overlineBox]

theorem glyphs_underlineBox (body : Box α) (env : Environment α) :
    (underlineBox body env).glyphs = body.glyphs := by
  simp [underlineBox]

/-! ## Fences -/

/-- A delimiter is a glyph only in the size of the environment. -/
theorem mem_glyphs_delimiterBox {d : Delimiter} {target : α} {env : Environment α} {g : Char × α}
    (h : g ∈ (delimiterBox d target env).glyphs) :
    g.1 ∈ delimiterCharacter d ∧ g.2 = env.em := by
  cases d with
  | none => simp [delimiterBox] at h
  | some c =>
    unfold delimiterBox at h
    simp only at h
    split at h
    · rw [glyphs_charBox, List.mem_singleton] at h
      subst h
      exact ⟨by simp [delimiterCharacter], rfl⟩
    · simp at h

theorem mem_glyphs_withMiddles {bs : List (Box α)} {ds : List Delimiter} {target : α}
    {env : Environment α} {g : Char × α}
    (h : g ∈ (withMiddles target env bs ds).flatMap glyphs) :
    g ∈ bs.flatMap glyphs ∨ g.1 ∈ delimiterCharacters ds ∧ g.2 = env.em := by
  fun_induction withMiddles target env bs ds with
  | case1 => simp at h
  | case2 => exact .inl h
  | case3 b bs _ ih =>
    simp only [List.flatMap_cons, List.mem_append] at h ⊢
    rcases h with h | h | h
    · exact .inl (.inl h)
    · simp [delimiterBox] at h
    · exact (ih h).imp_left .inr
  | case4 b bs d ds _ ih =>
    simp only [List.flatMap_cons, List.mem_append, delimiterCharacters_cons,
      Multiset.mem_add] at h ⊢
    rcases h with h | h | h
    · exact .inl (.inl h)
    · obtain ⟨hc, hs⟩ := mem_glyphs_delimiterBox h
      exact .inr ⟨.inl hc, hs⟩
    · exact (ih h).imp .inr (And.imp_left .inr)

theorem mem_glyphs_fencedBox {left right : Delimiter} {boxes : List (Box α)}
    {middles : List Delimiter} {env : Environment α} {g : Char × α}
    (h : g ∈ (fencedBox left right boxes middles env).glyphs) :
    g ∈ boxes.flatMap glyphs ∨
      g.1 ∈ delimiterCharacters (left :: (middles ++ [right])) ∧ g.2 = env.em := by
  simp only [fencedBox, glyphs_hbox, List.flatMap_cons, List.flatMap_append, List.flatMap_nil,
    List.append_nil, List.mem_append] at h
  simp only [delimiterCharacters_cons, delimiterCharacters_append, delimiterCharacters_nil,
    add_zero, Multiset.mem_add]
  rcases h with h | h | h
  · obtain ⟨hc, hs⟩ := mem_glyphs_delimiterBox h
    exact .inr ⟨.inl hc, hs⟩
  · exact (mem_glyphs_withMiddles h).imp_right (And.imp_left fun hc => .inr (.inl hc))
  · obtain ⟨hc, hs⟩ := mem_glyphs_delimiterBox h
    exact .inr ⟨.inr (.inr hc), hs⟩

/-! ## Lines -/

theorem glyphs_linesBox (boxes : List (Box α)) (align : Option HAlign) (env : Environment α) :
    (linesBox boxes align env).glyphs = boxes.flatMap glyphs := by
  have hplaced (place : Nat → HAlign) (width : α) (bs : List (Box α)) :
      ((bs.map fun b => lineBox b env).mapIdx fun i b => b.aligned width (place i)).flatMap
        glyphs = bs.flatMap glyphs := by
    induction bs generalizing place with
    | nil => rfl
    | cons b bs ih =>
      rw [List.map_cons, List.mapIdx_cons, List.flatMap_cons, ih fun i => place (i + 1)]
      simp [lineBox]
  rw [linesBox, glyphs_vbox, flatMap_glyphs_intersperse (glyphs_vkern _)]
  exact hplaced (lineAlign align _) _ boxes

/-! ## Tables -/

namespace Grid

variable (g : Grid α)

theorem flatMap_glyphs_boundary (j : Nat) (height depth : α) :
    (g.boundary j height depth).flatMap glyphs = [] := by
  have hrules : (List.replicate (g.ruleCount j)
      (Box.rule g.thickness height depth)).flatMap glyphs = [] :=
    List.flatMap_eq_nil_iff.mpr fun b hb => by rw [List.eq_of_mem_replicate hb, glyphs_rule]
  rw [boundary, List.flatMap_cons, List.flatMap_append,
    flatMap_glyphs_intersperse (glyphs_kern _), hrules]
  simp

@[simp] theorem glyphs_ruleBox (span : Option (Nat × Nat)) : (g.ruleBox span).glyphs = [] := by
  unfold ruleBox
  split
  · simp
  · simp

end Grid

@[simp] theorem glyphs_overColor (bg : Option Color) (b : Box α) :
    (overColor bg b).glyphs = b.glyphs := by
  cases bg <;> simp [overColor]

theorem flatMap_glyphs_cellBoxes (f : ColumnFormat) (g : Grid α) (height depth : α) (j : Nat)
    (cells : List (Option Color × Box α)) :
    (cellBoxes f g height depth j cells).flatMap glyphs = cells.flatMap fun p => p.2.glyphs := by
  fun_induction cellBoxes f g height depth j cells with
  | case1 j => simp [g.flatMap_glyphs_boundary]
  | case2 j color b cells ih => simp [g.flatMap_glyphs_boundary, cellBox, ih]

theorem mem_glyphs_gridRowBox {A : Type} {f : ColumnFormat} {grid : Grid α}
    {strutHeight strutDepth : α} {row : TableRow A} {boxes : List (Box α)} {g : Char × α}
    (h : g ∈ (gridRowBox f grid strutHeight strutDepth row boxes).glyphs) :
    g ∈ boxes.flatMap glyphs := by
  rw [gridRowBox, glyphs_overColor, glyphs_hbox, flatMap_glyphs_cellBoxes] at h
  obtain ⟨p, hp, hg⟩ := List.mem_flatMap.mp h
  exact List.mem_flatMap.mpr ⟨p.2, (List.of_mem_zip hp).2, hg⟩

/-- Rules and gaps between rows have no glyphs. -/
theorem mem_glyphs_gridRows {A : Type} {f : ColumnFormat} {grid : Grid α}
    {em strutHeight strutDepth : α} {columns : Nat} {rows : List (TableRow A)}
    {cells : List (List (Box α))} {g : Char × α}
    (h : g ∈ ((rows.zip cells).map fun (row, boxes) =>
      gridRowBoxes f grid em strutHeight strutDepth columns row boxes).flatten.flatMap glyphs) :
    ∃ row ∈ cells, g ∈ row.flatMap glyphs := by
  obtain ⟨b, hb, hg⟩ := List.mem_flatMap.mp h
  obtain ⟨bs, hbs, hb⟩ := List.mem_flatten.mp hb
  obtain ⟨⟨row, boxes⟩, hrow, rfl⟩ := List.mem_map.mp hbs
  refine ⟨boxes, (List.of_mem_zip hrow).2, ?_⟩
  simp only [gridRowBoxes, List.mem_append, List.mem_cons] at hb
  rcases hb with hb | rfl | hb
  · obtain ⟨r, -, rfl⟩ := List.mem_map.mp hb
    simp at hg
  · exact mem_glyphs_gridRowBox hg
  · obtain ⟨gap, -, rfl⟩ := List.mem_map.mp hb
    simp at hg

/-- The glyphs of a table are those of its cells, and its delimiters in the size of the
environment. -/
theorem mem_glyphs_gridBox {A : Type} {t : Table A} {o : TableOptions} {env : Environment α}
    {columns : Nat} {cells : List (List (Box α))} {g : Char × α}
    (h : g ∈ (gridBox t o env columns cells).glyphs) :
    (∃ row ∈ cells, g ∈ row.flatMap glyphs) ∨
      g.1 ∈ delimiterCharacters [o.left, o.right] ∧ g.2 = env.em := by
  have htrailing (grid : Grid α) :
      (t.trailing.map fun r => grid.ruleBox (r.span columns)).flatMap glyphs = [] :=
    List.flatMap_eq_nil_iff.mpr (by simp)
  unfold gridBox at h
  simp only at h
  split at h
  · simp only [glyphs_hbox, List.flatMap_cons, List.flatMap_nil, List.append_nil,
      List.mem_append, glyphs_centeredOnAxis, glyphs_vbox, List.flatMap_append, htrailing] at h
    simp only [delimiterCharacters_cons, delimiterCharacters_nil, add_zero, Multiset.mem_add]
    rcases h with h | h | h
    · obtain ⟨hc, hs⟩ := mem_glyphs_delimiterBox h
      exact .inr ⟨.inl hc, hs⟩
    · exact .inl (mem_glyphs_gridRows h)
    · obtain ⟨hc, hs⟩ := mem_glyphs_delimiterBox h
      exact .inr ⟨.inr hc, hs⟩
  · simp only [glyphs_centeredOnAxis, glyphs_vbox, List.flatMap_append, htrailing,
      List.append_nil] at h
    exact .inl (mem_glyphs_gridRows h)

theorem mem_glyphs_tableBox {A : Type} {t : Table A} {o : TableOptions} {env : Environment α}
    {cells : List (List (Box α))} {b : Box α} (hb : tableBox t o env cells = .ok b)
    {g : Char × α} (h : g ∈ b.glyphs) :
    (∃ row ∈ cells, g ∈ row.flatMap glyphs) ∨
      g.1 ∈ delimiterCharacters [o.left, o.right] ∧ g.2 = env.em := by
  unfold tableBox at hb
  simp only at hb
  split at hb
  · cases hb
  · split at hb
    · cases hb
      simp at h
    · cases hb
      exact mem_glyphs_gridBox h

/-! ## Rows -/

/-- The space between the boxes of a row has no glyphs. -/
theorem flatMap_glyphs_rowPieces (prev : Option (MathClass × List TintMark))
    (items : List (RowItem α × MathClass)) :
    ((rowPieces prev items).flatMap fun p => p.box.glyphs) =
      items.flatMap fun i => i.1.box.glyphs := by
  have hspace (left c : MathClass) (marks : List TintMark) (item : RowItem α) :
      ((spaceBefore left marks item c).flatMap fun p => p.box.glyphs) = [] := by
    unfold spaceBefore
    simp only
    split <;> simp
  fun_induction rowPieces prev items with
  | case1 => simp
  | case2 prev item rest ih => simp [ih]
  | case3 prev item c rest _ ih =>
    cases prev with
    | none => simp [ih]
    | some p => simp [ih, hspace]

theorem glyphs_rowBox (items : List (RowItem α)) :
    (rowBox items).glyphs = items.flatMap fun i => i.box.glyphs := by
  rw [rowBox, glyphs_hbox, flatMap_glyphs_wrapTinted, flatMap_glyphs_rowPieces]
  have hfst : (items.zip (resolveClasses (items.map RowItem.mathClass))).map Prod.fst = items :=
    List.map_fst_zip (by simp [resolveClasses, resolveFrom_length])
  conv => rhs; rw [← hfst, List.flatMap_map]

/-! ## Atoms -/

omit [Scalar α] in
theorem SwitchKind.enter_style (kind : SwitchKind) (env : Environment α) (marks : List TintMark)
    (next : Nat) : (kind.enter env marks next).1.style = kind.styleIn env.style := by
  cases kind <;> rfl

omit [Scalar α] in
theorem SwitchKind.enter_size (kind : SwitchKind) (env : Environment α) (marks : List TintMark)
    (next : Nat) : (kind.enter env marks next).1.size = env.size := by
  cases kind <;> rfl

namespace Atom

variable {env : Environment α} {g : Char × α}

/-- One of the atoms draws the glyph. -/
def AnyDraws (atoms : List Atom) (s : Style) (size : α) (g : Char × α) : Prop :=
  ∃ a ∈ atoms, a.Draws s size g

/-- What atoms draw in one style is drawn by an atom that they are placed in. -/
theorem AnyDraws.of_placed {a : Atom} {atoms : List Atom} {s t : Style} {size : α}
    (hg : AnyDraws atoms t size g) (h : ∀ b ∈ atoms, (b, t) ∈ a.placed s) : a.Draws s size g := by
  obtain ⟨b, hb, hg⟩ := hg
  exact hg.of_placed (h b hb)

/-- A character of the atom itself, in the size of the environment. -/
theorem draws_own {a : Atom} (hlarge : a.isLargeOperator = false) (h : g.1 ∈ a.ownCharacters)
    (hs : g.2 = env.em) : a.Draws env.style env.size g := by
  have hg : g = (g.1, a.glyphSize env.style env.size) :=
    Prod.ext rfl (by rw [glyphSize, hlarge, hs]; rfl)
  rw [hg]
  exact draws_self h

theorem draws_symbol {c : Char} {k : MathClass}
    (h : g ∈ ((symbol c k).layout env).glyphs) : (symbol c k).Draws env.style env.size g := by
  have hself : (symbol c k).Draws env.style env.size
      (c, (symbol c k).glyphSize env.style env.size) := draws_self (by simp [ownCharacters])
  rw [layout] at h
  split at h
  · rename_i hlarge
    simp only [glyphs_largeOperatorBox, List.mem_singleton] at h
    rw [glyphSize, hlarge, Bool.true_and] at hself
    rwa [h]
  · rename_i hlarge
    rw [glyphs_charBox, List.mem_singleton] at h
    rw [glyphSize, if_neg (by simp [hlarge])] at hself
    rwa [h]

/-- Scripts are attached to a box with glyphs of the base. -/
theorem draws_nucleus {base : Atom} (h : ∀ g ∈ (base.layout env).glyphs,
    base.Draws env.style env.size g) (hasSup : Bool)
    (hg : g ∈ (base.nucleus (base.layout env) hasSup env).box.glyphs) :
    base.Draws env.style env.size g := by
  unfold nucleus at hg
  split at hg
  · split at hg
    · exact h g hg
    · rename_i hlarge
      rw [glyphs_charBox, List.mem_singleton] at hg
      subst hg
      exact draws_own (by simpa using hlarge) (by simp [ownCharacters]) rfl
  · exact h g hg

mutual

/-- Every glyph of the box of an atom is drawn by a part of it. -/
theorem draws_of_mem_glyphs (a : Atom) (env : Environment α) :
    ∀ g ∈ (a.layout env).glyphs, a.Draws env.style env.size g := by
  intro g hg
  cases a with
  | empty | hrule | cellColor | rowColor | space | rule => simp [layout] at hg
  | symbol c k => exact draws_symbol hg
  | row atoms =>
    rw [layout, glyphs_rowBox] at hg
    exact (anyDraws_rowItems atoms env [] 0 g hg).of_placed (by simp [placed, children])
  | scripts base sup sub =>
    have hbase := draws_of_mem_glyphs base env
    have hsup (hg : g ∈ (layoutOption sup env.sup).toList.flatMap glyphs) :
        (scripts base sup sub).Draws env.style env.size g :=
      (anyDraws_layoutOption sup env.sup g hg).of_placed fun b hb => by
        simp_all [placed, Environment.sup, Environment.withStyle]
    have hsub (hg : g ∈ (layoutOption sub env.sub).toList.flatMap glyphs) :
        (scripts base sup sub).Draws env.style env.size g :=
      (anyDraws_layoutOption sub env.sub g hg).of_placed fun b hb => by
        simp_all [placed, Environment.sub, Environment.withStyle]
    rw [layout] at hg
    split at hg
    · simp only [glyphs_limitsBox, List.mem_append] at hg
      rcases hg with hg | hg | hg
      · exact hsup hg
      · exact (hbase g hg).of_placed (by simp [placed])
      · exact hsub hg
    · simp only [glyphs_scriptsBox, List.mem_append] at hg
      rcases hg with hg | hg | hg
      · exact (draws_nucleus hbase _ hg).of_placed (by simp [placed])
      · exact hsup hg
      · exact hsub hg
  | fraction num den bar =>
    rw [layout, glyphs_fractionBox, List.mem_append] at hg
    rcases hg with hg | hg
    · exact (draws_of_mem_glyphs num env.num g hg).of_placed (by simp [placed, Environment.num,
        Environment.withStyle])
    · exact (draws_of_mem_glyphs den env.den g hg).of_placed (by simp [placed, Environment.den,
        Environment.withStyle])
  | radical body degree =>
    rw [layout, glyphs_radicalBox, List.mem_append] at hg
    rcases hg with hg | hg
    · exact (anyDraws_layoutOption degree _ g hg).of_placed fun b hb => by
        simp_all [placed, Environment.withStyle]
    · exact (draws_of_mem_glyphs body env.cramped g hg).of_placed (by simp [placed,
        Environment.cramped, Environment.withStyle])
  | color body fg bg =>
    rw [layout, glyphs_colored] at hg
    exact (draws_of_mem_glyphs body env g hg).of_placed (by simp [placed, children])
  | framed body ruled frame bg =>
    rw [layout, glyphs_framed] at hg
    exact (draws_of_mem_glyphs body env g hg).of_placed (by simp [placed, children])
  | array table options =>
    obtain ⟨format, rows, trailing⟩ := table
    rw [layout] at hg
    split at hg
    · rename_i box hbox
      rcases mem_glyphs_tableBox hbox hg with ⟨row, hrow, hg⟩ | ⟨hc, hs⟩
      · exact (anyDraws_layoutRows rows _ g row hrow hg).of_placed (by simp [placed,
          Environment.withStyle, Table.contents])
      · exact draws_own rfl hc hs
    · simp at hg
  | fenced left right segments middles =>
    rw [layout] at hg
    rcases mem_glyphs_fencedBox hg with hg | ⟨hc, hs⟩
    · exact (anyDraws_layoutAll segments env g hg).of_placed (by simp [placed, children])
    · exact draws_own rfl hc hs
  | bigDelimiter d size k =>
    rw [layout] at hg
    obtain ⟨hc, hs⟩ := mem_glyphs_delimiterBox hg
    exact draws_own rfl hc hs
  | lines parts align =>
    rw [layout, glyphs_linesBox] at hg
    exact (anyDraws_layoutAll parts env g hg).of_placed (by simp [placed, children])
  | styled s body =>
    rw [layout] at hg
    exact (draws_of_mem_glyphs body _ g hg).of_placed (by simp [placed, Environment.withStyle])
  | switch kind body =>
    rw [layout] at hg
    simp only [glyphs_rowBox] at hg
    have h := anyDraws_rowItems body _ _ _ g hg
    rw [kind.enter_style, kind.enter_size] at h
    exact h.of_placed (by simp [placed])
  | font change body =>
    rw [layout] at hg
    exact (draws_of_mem_glyphs body _ g hg).of_placed (by simp [placed, children,
      Environment.withFont])
  | classed _ body | limits body =>
    rw [layout] at hg
    exact (draws_of_mem_glyphs body env g hg).of_placed (by simp [placed, children])
  | vcentered body =>
    rw [layout, glyphs_centeredOnAxis] at hg
    exact (draws_of_mem_glyphs body env g hg).of_placed (by simp [placed, children])
  | text | operator =>
    rw [layout] at hg
    obtain ⟨hc, hs⟩ := mem_glyphs_textBox hg
    exact draws_own rfl hc hs
  | decorated body decoration =>
    cases decoration with
    | overline =>
      rw [layout, glyphs_overlineBox] at hg
      exact (draws_of_mem_glyphs body env.cramped g hg).of_placed (by simp [placed,
        Environment.cramped, Environment.withStyle])
    | underline =>
      rw [layout, glyphs_underlineBox] at hg
      exact (draws_of_mem_glyphs body env g hg).of_placed (by simp [placed, children])

theorem anyDraws_layoutOption (o : Option Atom) (env : Environment α) :
    ∀ g ∈ (layoutOption o env).toList.flatMap glyphs, AnyDraws o.toList env.style env.size g := by
  cases o with
  | none => simp [layoutOption]
  | some a =>
    simp only [layoutOption, Option.toList_some, List.flatMap_cons, List.flatMap_nil,
      List.append_nil]
    exact fun g hg => ⟨a, by simp, draws_of_mem_glyphs a env g hg⟩

theorem anyDraws_layoutAll (atoms : List Atom) (env : Environment α) :
    ∀ g ∈ (layoutAll atoms env).flatMap glyphs, AnyDraws atoms env.style env.size g := by
  cases atoms with
  | nil => simp [layoutAll]
  | cons a atoms =>
    intro g hg
    rw [layoutAll, List.flatMap_cons, List.mem_append] at hg
    rcases hg with hg | hg
    · exact ⟨a, by simp, draws_of_mem_glyphs a env g hg⟩
    · obtain ⟨b, hb, hg⟩ := anyDraws_layoutAll atoms env g hg
      exact ⟨b, by simp [hb], hg⟩

theorem anyDraws_rowItems (atoms : List Atom) (env : Environment α) (marks : List TintMark)
    (next : Nat) :
    ∀ g ∈ (rowItems atoms env marks next).1.flatMap (fun i => i.box.glyphs),
      AnyDraws atoms env.style env.size g := by
  cases atoms with
  | nil => simp [rowItems]
  | cons a atoms =>
    intro g hg
    have hrest (next : Nat)
        (hg : g ∈ (rowItems atoms env marks next).1.flatMap (fun i => i.box.glyphs)) :
        AnyDraws (a :: atoms) env.style env.size g := by
      obtain ⟨b, hb, hg⟩ := anyDraws_rowItems atoms env marks next g hg
      exact ⟨b, by simp [hb], hg⟩
    cases a with
    | switch kind body =>
      rw [rowItems] at hg
      simp only [List.flatMap_append, List.mem_append] at hg
      rcases hg with hg | hg
      · have h := anyDraws_rowItems body _ _ _ g hg
        rw [kind.enter_style, kind.enter_size] at h
        exact ⟨switch kind body, by simp, h.of_placed (by simp [placed])⟩
      · exact hrest _ hg
    | _ =>
      rw [rowItems] at hg
      · simp only [List.flatMap_cons, List.mem_append] at hg
        rcases hg with hg | hg
        · exact ⟨_, by simp, draws_of_mem_glyphs _ env g hg⟩
        · exact hrest _ hg
      · rintro _ _ ⟨⟩

theorem anyDraws_layoutCells (cells : List (Cell Atom)) (env : Environment α) :
    ∀ g ∈ (layoutCells cells env).flatMap glyphs,
      AnyDraws (cells.map Cell.content) env.style env.size g := by
  cases cells with
  | nil => simp [layoutCells]
  | cons c cells =>
    obtain ⟨content, color⟩ := c
    intro g hg
    rw [layoutCells, List.flatMap_cons, List.mem_append] at hg
    rcases hg with hg | hg
    · exact ⟨content, by simp, draws_of_mem_glyphs content env g hg⟩
    · obtain ⟨b, hb, hg⟩ := anyDraws_layoutCells cells env g hg
      exact ⟨b, List.mem_cons_of_mem _ hb, hg⟩

theorem anyDraws_layoutRows (rows : List (TableRow Atom)) (env : Environment α) :
    ∀ g, ∀ boxes ∈ layoutRows rows env, g ∈ boxes.flatMap glyphs →
      AnyDraws (rows.flatMap fun r => r.cells.map Cell.content) env.style env.size g := by
  cases rows with
  | nil => simp [layoutRows]
  | cons r rows =>
    obtain ⟨cells, rules, color, gap⟩ := r
    intro g boxes hboxes hg
    rw [layoutRows, List.mem_cons] at hboxes
    rw [List.flatMap_cons]
    rcases hboxes with rfl | hboxes
    · obtain ⟨b, hb, hg⟩ := anyDraws_layoutCells cells env g hg
      exact ⟨b, List.mem_append_left _ hb, hg⟩
    · obtain ⟨b, hb, hg⟩ := anyDraws_layoutRows rows env g boxes hboxes hg
      exact ⟨b, List.mem_append_right _ hb, hg⟩

end

end Atom

end Typeset
