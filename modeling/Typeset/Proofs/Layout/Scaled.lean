import Typeset.Proofs.Box.Scaled
import Typeset.Proofs.Layout.Characters

/-!
# Layout follows the font size

With exact lengths, an atom whose explicit lengths follow the font size is laid out in an
environment at another scale as in the environment itself, with every length of the box multiplied
by the scale. So nothing is chosen by an absolute length: not the place of scripts, not the gaps of
a fraction, not whether a delimiter is stretched.

* `Environment.scaled`: the environment at another scale.
* `Length.IsRelative`: the length follows the font size; `Atom.FollowsSize`: every explicit length
  in the atom does.
* `scriptsBox_scaled`, `fractionBox_scaled`, `gridBox_scaled`, ...: the constructions.
* `Atom.layout_scaled`: the box of an atom, by induction over the atom.
-/

namespace Typeset

open Box

/-! ## Environments -/

namespace Environment

/-- The environment at another scale. -/
def scaled (k : Rat) (env : Environment Rat) : Environment Rat :=
  { env with
    size := k * env.size
    textWidth := env.textWidth.map (k * ·)
    interline := env.interline.map (k * ·) }

variable (k : Rat) (env : Environment Rat)

@[simp] theorem style_scaled : (env.scaled k).style = env.style := rfl

@[simp] theorem font_scaled : (env.scaled k).font = env.font := rfl

@[simp] theorem textFont_scaled : (env.scaled k).textFont = env.textFont := rfl

@[simp] theorem withStyle_scaled (s : Style) :
    (env.scaled k).withStyle s = (env.withStyle s).scaled k := rfl

@[simp] theorem withFont_scaled (f : Font) :
    (env.scaled k).withFont f = (env.withFont f).scaled k := rfl

@[simp] theorem sup_scaled : (env.scaled k).sup = env.sup.scaled k := rfl

@[simp] theorem sub_scaled : (env.scaled k).sub = env.sub.scaled k := rfl

@[simp] theorem num_scaled : (env.scaled k).num = env.num.scaled k := rfl

@[simp] theorem den_scaled : (env.scaled k).den = env.den.scaled k := rfl

@[simp] theorem cramped_scaled : (env.scaled k).cramped = env.cramped.scaled k := rfl

@[simp] theorem em_scaled : (env.scaled k).em = k * env.em := mul_assoc _ _ _

@[simp] theorem mu_scaled : (env.scaled k).mu = k * env.mu := by
  rw [mu, em_scaled, mul_div_assoc, mu]

@[simp] theorem param_scaled (ems : Rat) : (env.scaled k).param ems = k * env.param ems := by
  rw [param, em_scaled, mul_left_comm, param]

@[simp] theorem xHeight_scaled : (env.scaled k).xHeight = k * env.xHeight := param_scaled k env _

@[simp] theorem axisHeight_scaled : (env.scaled k).axisHeight = k * env.axisHeight :=
  param_scaled k env _

@[simp] theorem ruleThickness_scaled : (env.scaled k).ruleThickness = k * env.ruleThickness :=
  param_scaled k env _

end Environment

/-! ## Explicit lengths -/

namespace LengthUnit

instance (u : LengthUnit) : Decidable u.IsRelative :=
  match u with
  | .em | .ex | .mu => .isTrue trivial
  | .pt | .px | .cm | .mm | .inch | .bp | .pc => .isFalse id

theorem points_mul {u : LengthUnit} (h : u.IsRelative) (k size : Rat) :
    u.points (k * size) = k * u.points size := by
  cases u with
  | em => rfl
  | ex => exact mul_left_comm _ _ _
  | mu => exact mul_div_assoc _ _ _
  | pt | px | cm | mm | inch | bp | pc => exact h.elim

end LengthUnit

theorem Decimal.value_eq_zero (d : Decimal) (h : d.digits = 0) : (d.value : Rat) = 0 := by
  have hm (b : Bool) (e : Nat) : (OfScientific.ofScientific 0 b e : Rat) = 0 := by
    change Rat.ofScientific 0 b e = 0
    cases b <;> simp [Rat.ofScientific]
  unfold value
  rw [h]
  simp only
  split
  · exact neg_eq_zero.mpr (hm _ _)
  · exact hm _ _

/-- The length follows the font size: it is in a unit that does, or no length at all. -/
def Length.IsRelative (l : Length) : Prop := l.unit.IsRelative ∨ l.value.digits = 0

instance (l : Length) : Decidable l.IsRelative :=
  inferInstanceAs (Decidable (l.unit.IsRelative ∨ l.value.digits = 0))

theorem Length.IsRelative.points_mul {l : Length} (h : l.IsRelative) (k size : Rat) :
    l.points (k * size) = k * l.points size := by
  unfold Length.points
  rcases h with h | h
  · rw [LengthUnit.points_mul h, mul_left_comm]
  · rw [l.value.value_eq_zero h, zero_mul, zero_mul, mul_zero]

/-- The explicit widths of columns. -/
def ColumnFormat.lengths (f : ColumnFormat) : List Length :=
  (f.columns ++ f.pattern).flatMap fun c => c.width.toList

theorem ColumnFormat.mem_lengths {f : ColumnFormat} {j : Nat} {l : Length}
    (h : (f.column j).width = some l) : l ∈ f.lengths := by
  unfold column at h
  refine List.mem_flatMap.mpr ?_
  split at h
  · rename_i c hc
    exact ⟨c, List.mem_append_left _ (List.mem_of_getElem? hc), by simp [h]⟩
  · cases hp : f.pattern[j % f.pattern.length]? with
    | none => simp [hp] at h
    | some c =>
      rw [hp] at h
      exact ⟨c, List.mem_append_right _ (List.mem_of_getElem? hp), by simpa using h⟩

/-! ## Characters -/

section

variable (k : Rat) (env : Environment Rat)

theorem measuresAt_mul (c : Char) (font : Font) (size : Rat) :
    measuresAt c font (k * size) =
      { width := k * (measuresAt c font size).width, height := k * (measuresAt c font size).height
        depth := k * (measuresAt c font size).depth
        italic := k * (measuresAt c font size).italic } := by
  simp only [measuresAt, GlyphMeasures.scaled, mul_left_comm]

@[simp] theorem charBox_scaled (c : Char) (withItalic : Bool) :
    charBox c (env.scaled k) withItalic = (charBox c env withItalic).scaled k := by
  cases withItalic <;> simp [charBox, measuresAt_mul, mul_add]

end

section

variable {k : Rat} (hk : 0 < k) (env : Environment Rat)
include hk

theorem centeredOnAxis_scaled (b : Box Rat) :
    centeredOnAxis (b.scaled k) (env.scaled k) = (centeredOnAxis b env).scaled k := by
  simp [centeredOnAxis, scaled_hbox hk, mul_div_assoc, ← mul_sub]

theorem largeOperatorBox_scaled (c : Char) :
    largeOperatorBox c (env.scaled k) = (largeOperatorBox c env).scaled k := by
  have hsize : (if env.style.isDisplay then k * env.em * displayOperatorScale else k * env.em) =
      k * if env.style.isDisplay then env.em * displayOperatorScale else env.em := by
    split
    · exact mul_assoc _ _ _
    · rfl
  simp only [largeOperatorBox, ← centeredOnAxis_scaled hk, Environment.style_scaled,
    Environment.em_scaled, Environment.font_scaled, hsize, measuresAt_mul, scaled_glyph]

theorem textBox_scaled (text : String) (font : Font) :
    textBox text font (env.scaled k) = (textBox text font env).scaled k := by
  have hchar (c : Char) :
      textCharBox font (env.scaled k) c = (textCharBox font env c).scaled k := by
    unfold textCharBox
    split
    · simp [wordSpace, mul_left_comm _ k]
    · simp [measuresAt_mul]
  rw [textBox, textBox, scaled_hbox hk, List.map_map]
  exact congrArg hbox (List.map_congr_left fun c _ => hchar c)

/-! ## Scripts -/

omit hk in
/-- What scripts are attached to, at another scale. -/
def Nucleus.scaled (k : Rat) (n : Nucleus Rat) : Nucleus Rat :=
  { n with box := n.box.scaled k, italic := k * n.italic }

theorem supRise_scaled (n : Nucleus Rat) :
    supRise (n.scaled k) (env.scaled k) = k * supRise n env := by
  simp only [supRise, Nucleus.scaled, height_scaled, Environment.sup_scaled,
    Environment.param_scaled, Environment.style_scaled, ← mul_sub, ← Scalar.larger_mul hk]
  split
  · rw [Scalar.mul_zero_rat]
    rfl
  · rfl

theorem supShift_scaled (n : Nucleus Rat) (sup : Box Rat) :
    supShift (n.scaled k) (sup.scaled k) (env.scaled k) = k * supShift n sup env := by
  simp only [supShift, supRise_scaled hk, depth_scaled, Environment.xHeight_scaled,
    mul_div_assoc, ← mul_add, Scalar.larger_mul hk]

omit hk in
theorem subDrop_scaled (n : Nucleus Rat) :
    subDrop (n.scaled k) (env.scaled k) = k * subDrop n env := by
  simp only [subDrop, Nucleus.scaled, depth_scaled, Environment.sub_scaled,
    Environment.param_scaled, ← mul_add]
  split
  · rw [Scalar.mul_zero_rat]
  · rfl

theorem subShift_scaled (n : Nucleus Rat) (sub : Box Rat) :
    subShift (n.scaled k) (sub.scaled k) (env.scaled k) = k * subShift n sub env := by
  simp only [subShift, subDrop_scaled, height_scaled, Environment.xHeight_scaled,
    Environment.param_scaled, mul_left_comm _ k, ← mul_sub, Scalar.larger_mul hk]

omit hk in
theorem scriptGap_scaled (sup sub : Box Rat) (u v : Rat) :
    scriptGap (sup.scaled k) (sub.scaled k) (k * u) (k * v) = k * scriptGap sup sub u v := by
  simp only [scriptGap, depth_scaled, height_scaled, ← mul_sub]

theorem bothShifts_scaled (n : Nucleus Rat) (sup sub : Box Rat) :
    bothShifts (n.scaled k) (sup.scaled k) (sub.scaled k) (env.scaled k) =
      (k * (bothShifts n sup sub env).1, k * (bothShifts n sup sub env).2) := by
  simp only [bothShifts, supShift_scaled hk, subDrop_scaled, Environment.param_scaled,
    Scalar.larger_mul hk, scriptGap_scaled, Environment.ruleThickness_scaled,
    Environment.xHeight_scaled, depth_scaled, mul_left_comm _ k, ← mul_sub, ← mul_add,
    Scalar.mul_lt_iff hk, Scalar.zero_lt_mul_iff hk]
  split
  · split <;> rfl
  · rfl

theorem scriptsBox_scaled (n : Nucleus Rat) (sup sub : Option (Box Rat)) :
    scriptsBox (n.scaled k) (sup.map (scaled k)) (sub.map (scaled k)) (env.scaled k) =
      (scriptsBox n sup sub env).scaled k := by
  have hbox : (n.scaled k).box = n.box.scaled k := rfl
  have hitalic : (n.scaled k).italic = k * n.italic := rfl
  cases sup with
  | none =>
    cases sub with
    | none => rfl
    | some sub => simp [scriptsBox, scaled_hbox hk, subShift_scaled hk, hbox]
  | some sup =>
    cases sub with
    | none => simp [scriptsBox, scaled_hbox hk, supShift_scaled hk, hbox, hitalic]
    | some sub =>
      simp only [scriptsBox, Option.map_some, bothShifts_scaled hk, scriptGap_scaled]
      simp [scaled_hbox hk, scaled_vbox hk, hbox, hitalic]

theorem limitsBox_scaled (op : Box Rat) (sup sub : Option (Box Rat)) :
    limitsBox (op.scaled k) (sup.map (scaled k)) (sub.map (scaled k)) (env.scaled k) =
      (limitsBox op sup sub env).scaled k := by
  have hwidth : columnWidth (op.scaled k ::
      ((sup.map (scaled k)).toList ++ (sub.map (scaled k)).toList)) =
      k * columnWidth (op :: (sup.toList ++ sub.toList)) := by
    rw [← columnWidth_scaled hk]
    simp [Option.toList_map]
  unfold limitsBox
  simp only [hwidth]
  generalize columnWidth (op :: (sup.toList ++ sub.toList)) = width
  cases sup <;> cases sub <;>
    simp [scaled_vbox hk, scaled_aligned hk, ← mul_sub, Scalar.larger_mul hk]

/-! ## Fractions, radicals and decorations -/

theorem ruledShifts_scaled (num den : Box Rat) :
    ruledShifts (num.scaled k) (den.scaled k) (env.scaled k) =
      (k * (ruledShifts num den env).1, k * (ruledShifts num den env).2) := by
  unfold ruledShifts
  rw [Environment.style_scaled]
  cases env.style.isDisplay <;>
    simp only [depth_scaled, height_scaled, Environment.ruleThickness_scaled,
      Environment.axisHeight_scaled, Environment.param_scaled, mul_div_assoc, mul_left_comm _ k,
      ← mul_sub, ← mul_add, Scalar.mul_lt_iff hk, mul_ite, if_true, if_false, Bool.false_eq_true]

theorem unruledShifts_scaled (num den : Box Rat) :
    unruledShifts (num.scaled k) (den.scaled k) (env.scaled k) =
      (k * (unruledShifts num den env).1, k * (unruledShifts num den env).2) := by
  unfold unruledShifts
  rw [Environment.style_scaled]
  cases env.style.isDisplay <;>
    simp only [depth_scaled, height_scaled, Environment.ruleThickness_scaled,
      Environment.param_scaled, mul_div_assoc, mul_left_comm _ k, ← mul_sub, ← mul_add,
      Scalar.mul_lt_iff hk, if_true, if_false, Bool.false_eq_true] <;>
    split <;> rfl

theorem fractionBox_scaled (num den : Box Rat) (rule : Bool) :
    fractionBox (num.scaled k) (den.scaled k) rule (env.scaled k) =
      (fractionBox num den rule env).scaled k := by
  have hzero : (0.0 : Rat) / 2.0 = 0 := by
    rw [Scalar.zero_rat, zero_div]
  cases rule with
  | false =>
    simp [fractionBox, unruledShifts_scaled hk, nullDelimiterSpace, scaled_hbox hk, scaled_vbox hk,
      scaled_aligned hk, Scalar.larger_mul hk, Scalar.mul_zero_rat, hzero, ← mul_sub]
  | true =>
    simp [fractionBox, ruledShifts_scaled hk, nullDelimiterSpace, scaled_hbox hk, scaled_vbox hk,
      scaled_aligned hk, Scalar.larger_mul hk, mul_div_assoc, ← mul_sub, ← mul_add]

theorem radicalBox_scaled (body : Box Rat) (degree : Option (Box Rat)) :
    radicalBox (body.scaled k) (degree.map (scaled k)) (env.scaled k) =
      (radicalBox body degree env).scaled k := by
  have hphi : (if env.style.isDisplay = true then k * env.xHeight else k * env.ruleThickness) =
      k * if env.style.isDisplay = true then env.xHeight else env.ruleThickness :=
    (mul_ite _ _ _ _).symm
  have hheight (c : Char) (w h d : Rat) : (delimiter c w h d).height = h := rfl
  have hdepth (c : Char) (w h d : Rat) : (delimiter c w h d).depth = d := rfl
  cases degree <;>
    simp only [radicalBox, Environment.style_scaled, Environment.xHeight_scaled,
      Environment.ruleThickness_scaled, Environment.param_scaled, Environment.mu_scaled, hphi,
      hheight, hdepth, width_scaled, height_scaled, depth_scaled, mul_div_assoc, mul_left_comm _ k,
      ← mul_sub, ← mul_add, ← mul_neg, Option.map_none, Option.map_some, scaled_hbox hk,
      scaled_vbox hk, List.map_append, List.map_cons, List.map_nil, scaled_delimiter, scaled_rule,
      scaled_vkern, scaled_kern, scaled_withShift, Scalar.mul_zero_rat]

theorem overlineBox_scaled (body : Box Rat) :
    overlineBox (body.scaled k) (env.scaled k) = (overlineBox body env).scaled k := by
  simp [overlineBox, scaled_vbox hk, Scalar.mul_zero_rat, mul_left_comm _ k]

theorem underlineBox_scaled (body : Box Rat) :
    underlineBox (body.scaled k) (env.scaled k) = (underlineBox body env).scaled k := by
  simp [underlineBox, scaled_vbox hk, Scalar.mul_zero_rat, mul_left_comm _ k]

/-! ## Fences -/

theorem delimiterBox_scaled (d : Delimiter) (target : Rat) :
    delimiterBox d (k * target) (env.scaled k) = (delimiterBox d target env).scaled k := by
  cases d with
  | none => simp [delimiterBox, nullDelimiterSpace]
  | some c =>
    simp only [delimiterBox, charBox_scaled, total_scaled, Scalar.mul_le_iff hk]
    split
    · rfl
    · have hlarger (a : Rat) : Scalar.larger (k * a) 0.0 = k * Scalar.larger a 0.0 := by
        rw [← Scalar.larger_mul hk, Scalar.mul_zero_rat]
      simp only [scaled_delimiter, width_scaled, Environment.axisHeight_scaled, mul_div_assoc,
        ← mul_sub, ← mul_add, hlarger]

theorem fenceSize_scaled (height depth : Rat) :
    fenceSize (k * height) (k * depth) (env.scaled k) = k * fenceSize height depth env := by
  simp only [fenceSize, Environment.axisHeight_scaled, Environment.param_scaled, ← mul_sub,
    ← mul_add, Scalar.larger_mul hk, mul_left_comm _ k, mul_assoc]

theorem withMiddles_scaled (target : Rat) (bs : List (Box Rat)) (ds : List Delimiter) :
    withMiddles (k * target) (env.scaled k) (bs.map (scaled k)) ds =
      (withMiddles target env bs ds).map (scaled k) := by
  fun_induction withMiddles target env bs ds with
  | case1 ds => rfl
  | case2 b ds => rfl
  | case3 b bs hne ih =>
    cases bs with
    | nil => exact (hne rfl).elim
    | cons c bs =>
      simp only [List.map_cons] at ih
      simp only [List.map_cons, withMiddles, ih, delimiterBox_scaled hk]
  | case4 b bs d ds hne ih =>
    cases bs with
    | nil => exact (hne rfl).elim
    | cons c bs =>
      simp only [List.map_cons] at ih
      simp only [List.map_cons, withMiddles, ih, delimiterBox_scaled hk]

theorem fencedBox_scaled (left right : Delimiter) (boxes : List (Box Rat))
    (middles : List Delimiter) :
    fencedBox left right (boxes.map (scaled k)) middles (env.scaled k) =
      (fencedBox left right boxes middles env).scaled k := by
  have hheight := rowHeight_scaled hk 0.0 boxes
  have hdepth := rowDepth_scaled hk 0.0 boxes
  rw [Scalar.mul_zero_rat] at hheight hdepth
  simp only [fencedBox, hheight, hdepth, fenceSize_scaled hk, delimiterBox_scaled hk,
    withMiddles_scaled hk, scaled_hbox hk, List.map_cons, List.map_append, List.map_nil]

/-! ## Lines -/

theorem lineBox_scaled (b : Box Rat) :
    lineBox (b.scaled k) (env.scaled k) = (lineBox b env).scaled k := by
  simp [lineBox, scaled_hbox hk, Scalar.mul_zero_rat, mul_left_comm _ k]

theorem linesBox_scaled (boxes : List (Box Rat)) (align : Option HAlign) :
    linesBox (boxes.map (scaled k)) align (env.scaled k) =
      (linesBox boxes align env).scaled k := by
  have hlines : (boxes.map (scaled k)).map (fun b => lineBox b (env.scaled k)) =
      (boxes.map fun b => lineBox b env).map (scaled k) := by
    simp only [List.map_map, Function.comp_def, lineBox_scaled hk]
  have htextWidth : (env.scaled k).textWidth = env.textWidth.map (k * ·) := rfl
  have hgap : (env.scaled k).interline.getD (0.3 * (env.scaled k).em) =
      k * env.interline.getD (0.3 * env.em) := by
    rw [Environment.em_scaled, mul_left_comm]
    unfold Environment.scaled
    cases env.interline <;> rfl
  have hplaced (width : Rat) (bs : List (Box Rat)) (n : Nat) :
      ((bs.map (scaled k)).mapIdx fun i b => b.aligned (k * width) (lineAlign align n i)) =
        (bs.mapIdx fun i b => b.aligned width (lineAlign align n i)).map (scaled k) :=
    List.ext_getElem (by simp) (by simp [scaled_aligned hk])
  unfold linesBox
  simp only [hlines, htextWidth, hgap, columnWidth_scaled hk, List.length_map]
  cases env.textWidth <;>
    simp only [Option.map_none, Option.map_some, Scalar.larger_mul hk, hplaced, scaled_vbox hk,
      map_scaled_intersperse, scaled_vkern]

/-! ## Tables -/

namespace Grid

omit hk in
/-- The grid at another scale. -/
def scaled (k : Rat) (g : Grid Rat) : Grid Rat :=
  { widths := g.widths.map (k * ·)
    gaps := g.gaps.map fun (before, after) => (k * before, k * after)
    rules := g.rules
    thickness := k * g.thickness
    ruleSep := k * g.ruleSep }

variable (g : Grid Rat)

omit hk

@[simp] theorem gapBefore_scaled (j : Nat) : (g.scaled k).gapBefore j = k * g.gapBefore j := by
  cases h : g.gaps[j]? <;> simp [gapBefore, scaled, h, Scalar.mul_zero_rat]

@[simp] theorem gapAfter_scaled (j : Nat) : (g.scaled k).gapAfter j = k * g.gapAfter j := by
  cases h : g.gaps[j]? <;> simp [gapAfter, scaled, h, Scalar.mul_zero_rat]

@[simp] theorem ruleCount_scaled (j : Nat) : (g.scaled k).ruleCount j = g.ruleCount j := rfl

@[simp] theorem width_scaled (j : Nat) : (g.scaled k).width j = k * g.width j := by
  cases h : g.widths[j]? <;> simp [width, scaled, h, Scalar.mul_zero_rat]

@[simp] theorem boundaryWidth_scaled (j : Nat) :
    (g.scaled k).boundaryWidth j = k * g.boundaryWidth j := by
  have hthickness : (g.scaled k).thickness = k * g.thickness := rfl
  have hsep : (g.scaled k).ruleSep = k * g.ruleSep := rfl
  simp only [boundaryWidth, gapBefore_scaled, gapAfter_scaled, ruleCount_scaled, hthickness, hsep,
    mul_left_comm _ k, ← mul_add]

theorem boundary_scaled (j : Nat) (height depth : Rat) :
    (g.scaled k).boundary j (k * height) (k * depth) =
      (g.boundary j height depth).map (Box.scaled k) := by
  have hthickness : (g.scaled k).thickness = k * g.thickness := rfl
  have hsep : (g.scaled k).ruleSep = k * g.ruleSep := rfl
  simp only [boundary, gapBefore_scaled, gapAfter_scaled, ruleCount_scaled, hthickness, hsep,
    List.map_cons, List.map_append, List.map_nil, map_scaled_intersperse, List.map_replicate,
    scaled_kern, scaled_rule]

@[simp] theorem columnStart_scaled (c : Nat) :
    (g.scaled k).columnStart c = k * g.columnStart c := by
  have hwidths : (g.scaled k).widths = g.widths.map (k * ·) := rfl
  have hboundaries : (List.range (c + 1)).map (g.scaled k).boundaryWidth =
      ((List.range (c + 1)).map g.boundaryWidth).map (k * ·) := by
    simp [Function.comp_def]
  simp only [columnStart, hwidths, hboundaries, ← List.map_take, Scalar.sum_map_mul, ← mul_add]

@[simp] theorem totalWidth_scaled : (g.scaled k).totalWidth = k * g.totalWidth := by
  have hwidths : (g.scaled k).widths = g.widths.map (k * ·) := rfl
  have hlast : (g.widths.map (k * ·)).getLast?.getD 0.0 = k * g.widths.getLast?.getD 0.0 := by
    cases h : g.widths.getLast? <;> simp [h, Scalar.mul_zero_rat]
  simp only [totalWidth, hwidths, List.length_map, hlast, columnStart_scaled,
    boundaryWidth_scaled, ← mul_add]

include hk in
theorem ruleBox_scaled (span : Option (Nat × Nat)) :
    (g.scaled k).ruleBox span = (g.ruleBox span).scaled k := by
  cases span with
  | none => simp [ruleBox]
  | some span =>
    obtain ⟨first, last⟩ := span
    have hwidths : (g.scaled k).widths = g.widths.map (k * ·) := rfl
    have hthickness : (g.scaled k).thickness = k * g.thickness := rfl
    simp only [ruleBox, hwidths, hthickness, List.length_map, totalWidth_scaled,
      columnStart_scaled, gapAfter_scaled, width_scaled, gapBefore_scaled, ← mul_sub, ← mul_add]
    split
    · simp [scaled_hbox hk, Scalar.zero_rat]
    · simp [scaled_hbox hk, Scalar.mul_zero_rat, ← mul_sub]

end Grid

omit hk in
theorem boundaryGap_mul (f : ColumnFormat) (o : TableOptions) (em : Rat) (columns j : Nat) :
    boundaryGap f o (k * em) columns j =
      (k * (boundaryGap f o em columns j).1, k * (boundaryGap f o em columns j).2) := by
  have hhalf : o.columnGap.value * (k * em) / 2.0 = k * (o.columnGap.value * em / 2.0) := by
    rw [mul_left_comm, mul_div_assoc]
  unfold boundaryGap
  simp only [hhalf]
  generalize o.columnGap.value * em / 2.0 = half
  repeat' split
  all_goals simp [Scalar.mul_zero_rat]

theorem naturalWidth_scaled {f : ColumnFormat} (hf : ∀ l ∈ f.lengths, l.IsRelative) (em : Rat)
    (cells : List (List (Box Rat))) (j : Nat) :
    naturalWidth f (k * em) (cells.map (List.map (scaled k))) j =
      k * naturalWidth f em cells j := by
  have hcells : (cells.map (List.map (scaled k))).map
      (fun row => (row[j]?.map width).getD 0.0) =
      (cells.map fun row => (row[j]?.map width).getD 0.0).map (k * ·) := by
    rw [List.map_map, List.map_map]
    refine List.map_congr_left fun row _ => ?_
    cases h : row[j]? <;> simp [h, Scalar.mul_zero_rat]
  have hnatural := Scalar.largest_map_mul hk 0.0 (cells.map fun row => (row[j]?.map width).getD 0.0)
  rw [Scalar.mul_zero_rat] at hnatural
  unfold naturalWidth
  rw [hcells, hnatural]
  cases hw : (f.column j).width with
  | none => rfl
  | some fixed =>
    simp only [(hf fixed (ColumnFormat.mem_lengths hw)).points_mul, Scalar.larger_mul hk]

theorem gridOf_scaled {f : ColumnFormat} (hf : ∀ l ∈ f.lengths, l.IsRelative) (o : TableOptions)
    (columns : Nat) (cells : List (List (Box Rat))) :
    gridOf f o (env.scaled k) columns (cells.map (List.map (scaled k))) =
      (gridOf f o env columns cells).scaled k := by
  simp only [gridOf, Grid.scaled, Environment.em_scaled, Environment.ruleThickness_scaled,
    mul_left_comm _ k, List.map_map]
  congr 1
  · exact List.map_congr_left fun j _ => naturalWidth_scaled hk hf env.em cells j
  · exact List.map_congr_left fun j _ => boundaryGap_mul f o env.em columns j

omit hk in
theorem overColor_scaled (bg : Option Color) (b : Box Rat) :
    overColor bg (b.scaled k) = (overColor bg b).scaled k := by
  cases bg <;> simp [overColor]

theorem cellBox_scaled (f : ColumnFormat) (g : Grid Rat) (height depth : Rat) (j : Nat)
    (color : Option Color) (b : Box Rat) :
    cellBox f (g.scaled k) (k * height) (k * depth) j color (b.scaled k) =
      (cellBox f g height depth j color b).scaled k := by
  simp only [cellBox, ← overColor_scaled, scaled_hbox hk, List.map_cons, List.map_nil,
    scaled_strut, Scalar.mul_zero_rat, scaled_aligned hk, Grid.width_scaled]

theorem cellBoxes_scaled (f : ColumnFormat) (g : Grid Rat) (height depth : Rat) (j : Nat)
    (cells : List (Option Color × Box Rat)) :
    cellBoxes f (g.scaled k) (k * height) (k * depth) j
        (cells.map fun (color, b) => (color, b.scaled k)) =
      (cellBoxes f g height depth j cells).map (scaled k) := by
  fun_induction cellBoxes f g height depth j cells with
  | case1 j => exact g.boundary_scaled j height depth
  | case2 j color b cells ih =>
    rw [List.map_cons, List.map_append, List.map_cons, ← ih, ← cellBox_scaled hk,
      ← g.boundary_scaled]
    rfl

theorem gridRowBox_scaled {A : Type} (f : ColumnFormat) (g : Grid Rat)
    (strutHeight strutDepth : Rat) (row : TableRow A) (boxes : List (Box Rat)) :
    gridRowBox f (g.scaled k) (k * strutHeight) (k * strutDepth) row (boxes.map (scaled k)) =
      (gridRowBox f g strutHeight strutDepth row boxes).scaled k := by
  have hcells : (row.cells.map Cell.color).zip (boxes.map (scaled k)) =
      ((row.cells.map Cell.color).zip boxes).map fun (color, b) => (color, b.scaled k) := by
    rw [List.zip_map_right]
    rfl
  simp only [gridRowBox, largest_map_scaled hk (height_scaled k),
    largest_map_scaled hk (depth_scaled k), hcells, cellBoxes_scaled hk, ← overColor_scaled,
    scaled_hbox hk]

theorem gridRowBoxes_scaled {A : Type} (f : ColumnFormat) (g : Grid Rat)
    (em strutHeight strutDepth : Rat) (columns : Nat) {row : TableRow A}
    (hgap : ∀ l ∈ row.gap, l.IsRelative) (boxes : List (Box Rat)) :
    gridRowBoxes f (g.scaled k) (k * em) (k * strutHeight) (k * strutDepth) columns row
        (boxes.map (scaled k)) =
      (gridRowBoxes f g em strutHeight strutDepth columns row boxes).map (scaled k) := by
  have hspace : (row.gap.toList.map fun gap => vkern (gap.points (k * em))) =
      (row.gap.toList.map fun gap => vkern (gap.points em)).map (scaled k) := by
    cases h : row.gap with
    | none => rfl
    | some l => simp [(hgap l h).points_mul]
  simp only [gridRowBoxes, gridRowBox_scaled hk, hspace, Grid.ruleBox_scaled hk, List.map_append,
    List.map_cons, List.map_map, Function.comp_def]

/-- The explicit lengths of a table. -/
def Table.lengths {A : Type} (t : Table A) : List Length :=
  t.format.lengths ++ t.rows.flatMap fun r => r.gap.toList

theorem gridBox_scaled {A : Type} {t : Table A} (ht : ∀ l ∈ t.lengths, l.IsRelative)
    (o : TableOptions) (columns : Nat) (cells : List (List (Box Rat))) :
    gridBox t o (env.scaled k) columns (cells.map (List.map (scaled k))) =
      (gridBox t o env columns cells).scaled k := by
  have hf : ∀ l ∈ t.format.lengths, l.IsRelative :=
    fun l hl => ht l (List.mem_append_left _ hl)
  have hrows (g : Grid Rat) (em strutHeight strutDepth : Rat) :
      ((t.rows.zip (cells.map (List.map (scaled k)))).map fun (row, boxes) =>
        gridRowBoxes t.format (g.scaled k) (k * em) (k * strutHeight) (k * strutDepth) columns row
          boxes).flatten =
      ((t.rows.zip cells).map fun (row, boxes) =>
        gridRowBoxes t.format g em strutHeight strutDepth columns row boxes).flatten.map
          (scaled k) := by
    rw [List.zip_map_right, List.map_map, List.map_flatten, List.map_map]
    refine congrArg List.flatten (List.map_congr_left fun (row, boxes) hrow => ?_)
    have hgap : ∀ l ∈ row.gap, l.IsRelative := fun l hl =>
      ht l (List.mem_append_right _ (List.mem_flatMap.mpr
        ⟨row, (List.of_mem_zip hrow).1, by simpa using hl⟩))
    exact gridRowBoxes_scaled hk t.format g em strutHeight strutDepth columns hgap boxes
  have htrailing (g : Grid Rat) : (t.trailing.map fun r => (g.scaled k).ruleBox (r.span columns)) =
      (t.trailing.map fun r => g.ruleBox (r.span columns)).map (scaled k) := by
    simp only [List.map_map, Function.comp_def, g.ruleBox_scaled hk]
  unfold gridBox
  simp only [Environment.withStyle_scaled, gridOf_scaled hk _ hf, Environment.em_scaled,
    mul_left_comm _ k, hrows, htrailing, ← List.map_append, List.length_map, ← scaled_vbox hk,
    centeredOnAxis_scaled hk, height_scaled, depth_scaled, fenceSize_scaled hk,
    delimiterBox_scaled hk]
  split
  · simp only [scaled_hbox hk, List.map_cons, List.map_nil]
  · rfl

theorem tableBox_scaled {A : Type} {t : Table A} (ht : ∀ l ∈ t.lengths, l.IsRelative)
    (o : TableOptions) (cells : List (List (Box Rat))) :
    tableBox t o (env.scaled k) (cells.map (List.map (scaled k))) =
      (tableBox t o env cells).map (scaled k) := by
  unfold tableBox
  simp only [gridBox_scaled hk env ht]
  split
  · rfl
  · split
    · simp [Except.map]
    · rfl

/-! ## Rows -/

omit hk in
/-- The item at another scale. -/
def RowItem.scaled (k : Rat) (item : RowItem Rat) : RowItem Rat :=
  { item with env := item.env.scaled k, box := item.box.scaled k }

omit hk in
theorem rowPieces_scaled (prev : Option (MathClass × List TintMark))
    (items : List (RowItem Rat × MathClass)) :
    rowPieces prev (items.map fun (item, c) => (item.scaled k, c)) =
      (rowPieces prev items).map (Tinted.scaled k) := by
  have hspace (left c : MathClass) (marks : List TintMark) (item : RowItem Rat) :
      spaceBefore left marks (item.scaled k) c =
        (spaceBefore left marks item c).map (Tinted.scaled k) := by
    by_cases hmu : (Glue.between left c).mu item.env.style = 0 <;>
      simp [spaceBefore, RowItem.scaled, Tinted.scaled, hmu, mul_left_comm _ k]
  fun_induction rowPieces prev items with
  | case1 => rfl
  | case2 prev item rest ih =>
    rw [List.map_cons, rowPieces, ih]
    rfl
  | case3 prev item c rest hc ih =>
    have hbox : (item.scaled k).box = item.box.scaled k := rfl
    have hmarks : (item.scaled k).marks = item.marks := rfl
    rw [List.map_cons, rowPieces.eq_def]
    cases prev <;> simpa [Tinted.scaled, hbox, hmarks, hspace] using ih

theorem rowBox_scaled (items : List (RowItem Rat)) :
    rowBox (items.map (RowItem.scaled k)) = (rowBox items).scaled k := by
  have hclasses : (items.map (RowItem.scaled k)).map RowItem.mathClass =
      items.map RowItem.mathClass := by
    simp [RowItem.scaled, Function.comp_def]
  have hpieces := rowPieces_scaled (k := k) none
    (items.zip (resolveClasses (items.map RowItem.mathClass)))
  rw [rowBox, hclasses, List.zip_map_left, rowBox, scaled_hbox hk, ← wrapTinted_scaled hk,
    ← hpieces]
  rfl

end

/-! ## Atoms -/

namespace Atom

variable {k : Rat}

/-- The explicit lengths that the atom itself gives. -/
def ownLengths : Atom → List Length
  | .space length => [length]
  | .rule width height raise => [width, height, raise]
  | .array table _ => table.lengths
  | _ => []

/-- Every explicit length in the atom follows the font size. -/
def FollowsSize (a : Atom) : Prop := ∀ p ∈ a.parts, ∀ l ∈ p.ownLengths, l.IsRelative

instance (a : Atom) : Decidable a.FollowsSize :=
  inferInstanceAs (Decidable (∀ p ∈ a.parts, ∀ l ∈ p.ownLengths, l.IsRelative))

theorem FollowsSize.own {a : Atom} (h : a.FollowsSize) : ∀ l ∈ a.ownLengths, l.IsRelative :=
  h a (List.mem_cons_self ..)

theorem FollowsSize.child {a b : Atom} (h : a.FollowsSize) (hb : b ∈ a.children) :
    b.FollowsSize :=
  fun p hp => h p (mem_parts_of_mem_children hb hp)

theorem enter_scaled (kind : SwitchKind) (env : Environment Rat) (marks : List TintMark)
    (next : Nat) : kind.enter (env.scaled k) marks next =
      ((kind.enter env marks next).1.scaled k, (kind.enter env marks next).2) := by
  cases kind <;> rfl

theorem nucleus_scaled (base : Atom) (b : Box Rat) (hasSup : Bool) :
    base.nucleus (b.scaled k) hasSup (env.scaled k) = (base.nucleus b hasSup env).scaled k := by
  unfold nucleus
  split
  · split
    · simp [Nucleus.scaled, Scalar.mul_zero_rat]
    · simp [Nucleus.scaled, measuresAt_mul]
  · simp [Nucleus.scaled, Scalar.mul_zero_rat]

mutual

/-- The box of an atom at another scale. -/
theorem layout_scaled (hk : 0 < k) (a : Atom) (h : a.FollowsSize) (env : Environment Rat) :
    a.layout (env.scaled k) = (a.layout env).scaled k := by
  have hchild {b : Atom} (hb : b ∈ a.children) : b.FollowsSize := h.child hb
  cases a with
  | empty | hrule | cellColor | rowColor => simp [layout]
  | symbol c m =>
    rw [layout, layout]
    split
    · exact largeOperatorBox_scaled hk env c
    · exact charBox_scaled k env c true
  | row atoms =>
    rw [layout, layout, rowItems_scaled hk atoms (fun b hb => hchild hb), rowBox_scaled hk]
  | scripts base sup sub =>
    have hbase := layout_scaled hk base (hchild (by simp [children])) env
    have hsup := layoutOption_scaled hk sup (fun b hb => hchild (by simp_all [children])) env.sup
    have hsub := layoutOption_scaled hk sub (fun b hb => hchild (by simp_all [children])) env.sub
    rw [layout, layout]
    simp only [Environment.style_scaled, Environment.sup_scaled, Environment.sub_scaled, hbase,
      hsup, hsub]
    split
    · exact limitsBox_scaled hk env _ _ _
    · rw [nucleus_scaled]
      exact scriptsBox_scaled hk env _ _ _
  | fraction num den bar =>
    rw [layout, layout, Environment.num_scaled, Environment.den_scaled,
      layout_scaled hk num (hchild (by simp [children])),
      layout_scaled hk den (hchild (by simp [children])), fractionBox_scaled hk]
  | radical body degree =>
    rw [layout, layout, Environment.cramped_scaled, Environment.withStyle_scaled,
      layout_scaled hk body (hchild (by simp [children])),
      layoutOption_scaled hk degree (fun b hb => hchild (by simp_all [children])),
      radicalBox_scaled hk]
  | color body fg bg =>
    rw [layout, layout, layout_scaled hk body (hchild (by simp [children])), scaled_colored]
  | framed body ruled frame bg =>
    rw [layout, layout, layout_scaled hk body (hchild (by simp [children])), scaled_framed,
      Environment.param_scaled, Environment.ruleThickness_scaled]
    cases ruled <;> simp [Scalar.mul_zero_rat]
  | array table options =>
    obtain ⟨format, rows, trailing⟩ := table
    rw [layout, layout, Environment.withStyle_scaled,
      layoutRows_scaled hk rows (fun b hb => hchild hb), tableBox_scaled hk env h.own]
    cases tableBox (⟨format, rows, trailing⟩ : Table Atom) options env
      (layoutRows rows (env.withStyle options.style)) with
    | ok b => rfl
    | error e => exact (scaled_empty k).symm
  | fenced left right segments middles =>
    rw [layout, layout, layoutAll_scaled hk segments (fun b hb => hchild hb), fencedBox_scaled hk]
  | bigDelimiter d size m =>
    rw [layout, layout, Environment.param_scaled, delimiterBox_scaled hk]
  | lines parts align =>
    rw [layout, layout, layoutAll_scaled hk parts (fun b hb => hchild hb), linesBox_scaled hk]
  | styled s body =>
    rw [layout, layout]
    exact layout_scaled hk body (hchild (by simp [children])) (env.withStyle s)
  | font c body =>
    rw [layout, layout]
    exact layout_scaled hk body (hchild (by simp [children])) (env.withFont (c.apply env.font))
  | classed _ body | limits body =>
    rw [layout, layout]
    exact layout_scaled hk body (hchild (by simp [children])) env
  | switch kind body =>
    rw [layout, layout, enter_scaled]
    simp only
    rw [rowItems_scaled hk body (fun b hb => hchild hb), rowBox_scaled hk]
  | space length =>
    have hlength := h.own length (by simp [ownLengths])
    rw [layout, layout]
    simp only [Environment.em_scaled, hlength.points_mul, Scalar.zero_lt_mul_iff hk, scaled_glue]
  | text s c =>
    rw [layout, layout]
    exact textBox_scaled hk env s _
  | operator name above =>
    rw [layout, layout]
    exact textBox_scaled hk env name _
  | vcentered body =>
    rw [layout, layout, layout_scaled hk body (hchild (by simp [children])),
      centeredOnAxis_scaled hk]
  | decorated body decoration =>
    cases decoration with
    | overline =>
      rw [layout, layout, Environment.cramped_scaled,
        layout_scaled hk body (hchild (by simp [children])), overlineBox_scaled hk]
    | underline =>
      rw [layout, layout, layout_scaled hk body (hchild (by simp [children])),
        underlineBox_scaled hk]
  | rule width height raise =>
    have hown : ∀ l ∈ [width, height, raise], l.IsRelative := h.own
    simp only [List.forall_mem_cons] at hown
    simp [layout, hown.1.points_mul, hown.2.1.points_mul, hown.2.2.1.points_mul, scaled_hbox hk,
      Scalar.mul_zero_rat]

theorem layoutOption_scaled (hk : 0 < k) (o : Option Atom) (h : ∀ a ∈ o, a.FollowsSize)
    (env : Environment Rat) :
    layoutOption o (env.scaled k) = (layoutOption o env).map (Box.scaled k) := by
  cases o with
  | none => simp [layoutOption]
  | some a => simp [layoutOption, layout_scaled hk a (h a rfl) env]

theorem layoutAll_scaled (hk : 0 < k) (atoms : List Atom) (h : ∀ a ∈ atoms, a.FollowsSize)
    (env : Environment Rat) :
    layoutAll atoms (env.scaled k) = (layoutAll atoms env).map (Box.scaled k) := by
  cases atoms with
  | nil => simp [layoutAll]
  | cons a atoms =>
    rw [List.forall_mem_cons] at h
    simp [layoutAll, layout_scaled hk a h.1 env, layoutAll_scaled hk atoms h.2 env]

theorem rowItems_scaled (hk : 0 < k) (atoms : List Atom) (h : ∀ a ∈ atoms, a.FollowsSize)
    (env : Environment Rat) (marks : List TintMark) (next : Nat) :
    rowItems atoms (env.scaled k) marks next =
      ((rowItems atoms env marks next).1.map (RowItem.scaled k),
        (rowItems atoms env marks next).2) := by
  cases atoms with
  | nil => simp [rowItems]
  | cons a atoms =>
    rw [List.forall_mem_cons] at h
    cases a with
    | switch kind body =>
      rw [rowItems, rowItems, enter_scaled]
      simp only
      rw [rowItems_scaled hk body (fun b hb => h.1.child hb), rowItems_scaled hk atoms h.2,
        List.map_append]
    | _ =>
      rw [rowItems, rowItems]
      · simp only
        rw [rowItems_scaled hk atoms h.2, layout_scaled hk _ h.1]
        rfl
      all_goals rintro _ _ ⟨⟩

theorem layoutCells_scaled (hk : 0 < k) (cells : List (Cell Atom))
    (h : ∀ a ∈ cells.map Cell.content, a.FollowsSize) (env : Environment Rat) :
    layoutCells cells (env.scaled k) = (layoutCells cells env).map (Box.scaled k) := by
  cases cells with
  | nil => simp [layoutCells]
  | cons c cells =>
    obtain ⟨content, color⟩ := c
    rw [List.map_cons, List.forall_mem_cons] at h
    simp [layoutCells, layout_scaled hk content h.1 env, layoutCells_scaled hk cells h.2 env]

theorem layoutRows_scaled (hk : 0 < k) (rows : List (TableRow Atom))
    (h : ∀ a ∈ rows.flatMap (fun r => r.cells.map Cell.content), a.FollowsSize)
    (env : Environment Rat) :
    layoutRows rows (env.scaled k) = (layoutRows rows env).map (List.map (Box.scaled k)) := by
  cases rows with
  | nil => simp [layoutRows]
  | cons r rows =>
    obtain ⟨cells, rules, color, gap⟩ := r
    rw [List.flatMap_cons, List.forall_mem_append] at h
    simp [layoutRows, layoutCells_scaled hk cells h.1 env, layoutRows_scaled hk rows h.2 env]

end

end Atom

/-- **Layout follows the font size.** Where every explicit length in the atom is in a unit of the
font size, the box of the atom in an environment of `k` times the size is the box in the environment
with every width, height, depth, shift, glyph size, thickness and padding multiplied by `k`: the
same boxes in the same places, on the same baselines, in the same colors, breakable at the same
places and with the same delimiters stretched. A width of the text and the space between lines are
multiplied too. -/
theorem layout_follows_size (a : Atom) (h : a.FollowsSize) (env : Environment Rat) {k : Rat}
    (hk : 0 < k) :
    a.layout (env.scaled k) = (a.layout env).scaled k ∧
      (env.textWidth = none → env.interline = none →
        a.layout { env with size := k * env.size } = (a.layout env).scaled k) := by
  have hscaled := a.layout_scaled hk h env
  refine ⟨hscaled, fun htextWidth hinterline => ?_⟩
  rw [← hscaled, Environment.scaled, htextWidth, hinterline]
  rfl

/-- A fence around a fraction, and a table with a column of two em and space of one ex below its
row, at three halves of ten points. -/
theorem layout_follows_size_table :
    let table : Table Atom :=
      { format := .addColumn .start { align := .left, width := some ⟨.ofNat 2, .em⟩ },
        rows := [{ cells := [{ content := .ofChar 'x' }], gap := some ⟨.ofNat 1, .ex⟩ }] }
    let a : Atom := .row [
      .fenced (some '(') none [.fraction (.ofChar 'x') (.ofChar 'y') true] [], .array table {}]
    let env : Environment Rat := { style := .display, size := 10 }
    a.FollowsSize ∧ (0 : Rat) < 3 / 2 ∧
      a.layout { env with size := 3 / 2 * 10 } = (a.layout env).scaled (3 / 2) := by
  intro table a env
  have ha : a.FollowsSize := by decide
  exact ⟨ha, by norm_num, (layout_follows_size a ha env (by norm_num)).2 rfl rfl⟩

end Typeset
