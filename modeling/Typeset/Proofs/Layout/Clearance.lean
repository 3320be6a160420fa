import Mathlib.Tactic.Linarith
import Typeset.Proofs.Box.Places
import Typeset.Proofs.Layout.Measured

/-!
# Clearance of scripts and fractions

Where scripts stand beside their base, and numerator and denominator at the axis, with exact
lengths. The boxes of the parts are found in the tree of the whole, and their places are those of
the drawing.

* `Box.exists_place_aligned`: a box in a wider one stands on the baseline of that.
* `bothShifts_clear`, `ruledShifts_clear`, `unruledShifts_clear`: the rises and drops that the
  constructions choose keep the parts apart.
* `exists_places_scriptsBox`, `exists_places_fractionBox`: the parts stand at these rises and drops.
* `scripts_keep_clearance`, `fraction_keeps_clearance`: both together.
-/

namespace Typeset

/-! ## Boxes in wider ones -/

namespace Box

variable {b c : Box Rat}

theorem Sound.shift_eq (h : b.Sound) : b.shift = 0 := h.shift.trans Scalar.zero_rat

/-- The width beside a box moves it to the side alone. -/
theorem height_aligned (hc : c.Sound) (h : 0 ≤ c.height) (width : Rat) (align : HAlign) :
    (c.aligned width align).height = c.height := by
  unfold aligned
  simp only
  split
  · rfl
  · cases align <;>
      simp [hbox, unshifted, rowHeight, Scalar.largest_rat, kern, glue, Scalar.zero_rat,
        hc.shift_eq, h]

theorem depth_aligned (hc : c.Sound) (h : 0 ≤ c.depth) (width : Rat) (align : HAlign) :
    (c.aligned width align).depth = c.depth := by
  unfold aligned
  simp only
  split
  · rfl
  · cases align <;>
      simp [hbox, unshifted, rowDepth, Scalar.largest_rat, kern, glue, Scalar.zero_rat,
        hc.shift_eq, h]

/-- A box in a wider one stands on the baseline of that. -/
theorem exists_place_aligned {m : Placement} (hm : m ∈ b.placements) (hc : c.Sound) (width : Rat)
    (align : HAlign) (h : m.box = c.aligned width align) :
    ∃ p ∈ b.placements, m.path <+: p.path ∧ p.box = c ∧ ∀ y, p.baseline y = m.baseline y := by
  unfold aligned at h
  simp only at h
  split at h
  · exact ⟨m, hm, List.prefix_rfl, h, fun y => rfl⟩
  · obtain ⟨l, r, hrow⟩ : ∃ l r : Rat, m.box = hbox [kern l, c, kern r] := by
      cases align <;> exact ⟨_, _, h⟩
    have hchild : m.box.children[1]? = some c := by rw [hrow]; rfl
    refine ⟨m.child 1 c, child_mem_placementsIn hm hchild, m.path_prefix_child .., rfl,
      fun y => ?_⟩
    rw [Placement.baseline_child, hrow, show (hbox [kern l, c, kern r]).childDown 1 = c.shift
      from rfl, hc.shift_eq, add_zero]

end Box

open Box

variable {env : Environment Rat}

/-! ## Rises and drops -/

/-- The least rise of a superscript in a style, in em. -/
def Style.superscriptRise (s : Style) : Rat :=
  if s = .display then 0.413 else if s.cramped then 0.289 else 0.363

/-- The least rise of a numerator in a style, in em. -/
def Style.numeratorRise (s : Style) (bar : Bool) : Rat :=
  if s.isDisplay then 0.677 else if bar then 0.394 else 0.444

/-- The least drop of a denominator in a style, in em. -/
def Style.denominatorDrop (s : Style) : Rat := if s.isDisplay then 0.686 else 0.345

theorem superscriptRise_le_supShift (n : Nucleus Rat) (sup : Box Rat) :
    env.param env.style.superscriptRise ≤ supShift n sup env := by
  rw [supShift, supRise, Scalar.larger_rat, Scalar.larger_rat]
  exact (le_max_right _ _).trans (le_max_left _ _)

theorem depth_le_supShift (n : Nucleus Rat) (sup : Box Rat) :
    sup.depth + env.xHeight / 4 ≤ supShift n sup env := by
  rw [supShift, Scalar.larger_rat]
  refine le_trans (le_of_eq ?_) (le_max_right _ _)
  norm_num

theorem height_le_subShift (n : Nucleus Rat) (sub : Box Rat) (env : Environment Rat) :
    sub.height - 4 / 5 * env.xHeight ≤ subShift n sub env := by
  rw [subShift, Scalar.larger_rat]
  refine le_trans (le_of_eq ?_) (le_max_right _ _)
  norm_num

/-- The superscript and the subscript would come closer than four rule thicknesses. -/
def ScriptsTooClose (n : Nucleus Rat) (sup sub : Box Rat) (env : Environment Rat) : Prop :=
  scriptGap sup sub (supShift n sup env) (Scalar.larger (subDrop n env) (env.param 0.247)) <
    4 * env.ruleThickness

/-- Both scripts rise and drop as far as asked, and are kept apart. -/
theorem bothShifts_clear (n : Nucleus Rat) (sup sub : Box Rat) (env : Environment Rat) :
    supShift n sup env ≤ (bothShifts n sup sub env).1 ∧
    4 * env.ruleThickness ≤
      scriptGap sup sub (bothShifts n sup sub env).1 (bothShifts n sup sub env).2 ∧
    (ScriptsTooClose n sup sub env →
      4 / 5 * env.xHeight ≤ (bothShifts n sup sub env).1 - sup.depth) := by
  have hfour : (4.0 : Rat) = 4 := by norm_num
  have hfifths : (0.8 : Rat) = 4 / 5 := by norm_num
  unfold bothShifts ScriptsTooClose scriptGap
  simp only [hfour, hfifths, Scalar.zero_rat]
  generalize supShift n sup env = u
  generalize Scalar.larger (subDrop n env) (env.param 0.247) = v
  by_cases hgap : u - sup.depth - (sub.height - v) < 4 * env.ruleThickness
  · rw [if_pos hgap]
    by_cases hpsi : 0 < 4 / 5 * env.xHeight - (u - sup.depth)
    · rw [if_pos hpsi]
      refine ⟨?_, ?_, fun _ => ?_⟩ <;> simp only <;> linarith
    · rw [if_neg hpsi]
      refine ⟨?_, ?_, fun _ => ?_⟩ <;> simp only <;> linarith
  · rw [if_neg hgap]
    exact ⟨le_refl _, not_lt.mp hgap, fun h => absurd h hgap⟩

/-- The space that a style asks for above and below the bar of a fraction. -/
def Environment.barClearance (env : Environment Rat) : Rat :=
  if env.style.isDisplay then 3 * env.ruleThickness else env.ruleThickness

/-- The space that a style asks for between the parts of a fraction without a bar. -/
def Environment.stackClearance (env : Environment Rat) : Rat :=
  if env.style.isDisplay then 7 * env.ruleThickness else 3 * env.ruleThickness

/-- A part that is too close to the bar is moved away from it by what is missing. -/
theorem moved_clear (u space clearance : Rat) :
    let moved := if space < clearance then u + (clearance - space) else u
    u ≤ moved ∧ clearance ≤ space + (moved - u) := by
  intro moved
  by_cases h : space < clearance
  · have hmoved : moved = u + (clearance - space) := if_pos h
    constructor <;> linarith
  · have hmoved : moved = u := if_neg h
    constructor <;> linarith

/-- With a bar, both parts are at their least rise and drop or beyond, and clear of the bar. -/
theorem ruledShifts_clear (num den : Box Rat) (env : Environment Rat) :
    env.param (env.style.numeratorRise true) ≤ (ruledShifts num den env).1 ∧
    env.param env.style.denominatorDrop ≤ (ruledShifts num den env).2 ∧
    env.barClearance ≤
      ((ruledShifts num den env).1 - num.depth) - (env.axisHeight + env.ruleThickness / 2) ∧
    env.barClearance ≤
      (env.axisHeight - env.ruleThickness / 2) - (den.height - (ruledShifts num den env).2) := by
  have hthree : (3.0 : Rat) = 3 := by norm_num
  have htwo : (2.0 : Rat) = 2 := by norm_num
  unfold ruledShifts Environment.barClearance Style.numeratorRise Style.denominatorDrop
  simp only [hthree, htwo, ↓reduceIte]
  generalize (if env.style.isDisplay then 3 * env.ruleThickness else env.ruleThickness) = clearance
  generalize env.param (if env.style.isDisplay then 0.677 else 0.394) = u
  generalize env.param (if env.style.isDisplay then 0.686 else 0.345) = v
  have hnum := moved_clear u ((u - num.depth) - (env.axisHeight + env.ruleThickness / 2)) clearance
  have hden := moved_clear v ((env.axisHeight - env.ruleThickness / 2) - (den.height - v)) clearance
  refine ⟨hnum.1, hden.1, ?_, ?_⟩
  · linarith [hnum.2]
  · linarith [hden.2]

/-- Without a bar, both parts are at their least rise and drop or beyond, and clear of each
other. -/
theorem unruledShifts_clear (num den : Box Rat) (env : Environment Rat) :
    env.param (env.style.numeratorRise false) ≤ (unruledShifts num den env).1 ∧
    env.param env.style.denominatorDrop ≤ (unruledShifts num den env).2 ∧
    env.stackClearance ≤ ((unruledShifts num den env).1 - num.depth) -
      (den.height - (unruledShifts num den env).2) := by
  have hseven : (7.0 : Rat) = 7 := by norm_num
  have hthree : (3.0 : Rat) = 3 := by norm_num
  have htwo : (2.0 : Rat) = 2 := by norm_num
  unfold unruledShifts Environment.stackClearance Style.numeratorRise Style.denominatorDrop
  simp only [hseven, hthree, htwo, Bool.false_eq_true, ↓reduceIte]
  generalize (if env.style.isDisplay then 7 * env.ruleThickness else 3 * env.ruleThickness) =
    clearance
  generalize env.param (if env.style.isDisplay then 0.677 else 0.444) = u
  generalize env.param (if env.style.isDisplay then 0.686 else 0.345) = v
  by_cases hgap : u - num.depth - (den.height - v) < clearance
  · -- Each part takes half of what is missing.
    rw [if_pos hgap]
    refine ⟨?_, ?_, ?_⟩ <;> simp only <;> linarith
  · rw [if_neg hgap]
    exact ⟨le_refl u, le_refl v, not_lt.mp hgap⟩

/-! ## Scripts -/

/-- What scripts are attached to is sound. -/
theorem Atom.sound_nucleus (base : Atom) (hasSup : Bool) (env : Environment Rat) :
    (base.nucleus (base.layout env) hasSup env).box.Sound := by
  have hbase := base.sound_layout env
  unfold nucleus
  split
  · split
    · exact hbase
    · exact sound_charBox _ _ _
  · exact hbase

/-- A base with both scripts: they stand on their own baselines, the rise above and the drop below
that of the base. -/
theorem exists_places_scriptsBox {n : Nucleus Rat} {sup : Box Rat} (sub : Box Rat)
    (hn : n.box.Sound) (hsup : sup.Sound) (hdepth : 0 ≤ sup.depth) (env : Environment Rat) :
    let b := scriptsBox n (some sup) (some sub) env
    ∃ base ∈ b.placements, ∃ above ∈ b.placements, ∃ below ∈ b.placements,
      base.path = [0] ∧ base.box = n.box ∧ above.path = [1, 0, 1] ∧ above.box = sup ∧
      below.path = [1, 2] ∧ below.box = sub ∧
      ∀ y, base.baseline y = y ∧ above.baseline y = y - (bothShifts n sup sub env).1 ∧
        below.baseline y = y + (bothShifts n sup sub env).2 := by
  intro b
  obtain ⟨u, v, hshifts⟩ : ∃ u v, bothShifts n sup sub env = (u, v) := ⟨_, _, rfl⟩
  let row := hbox [kern n.italic, sup]
  let column := vbox [row, vkern (scriptGap sup sub u v), sub] 0
  have hb : b = hbox [n.box, column.withShift (-u), kern (env.param 0.05)] := by
    simp only [b, scriptsBox, hshifts, row, column]
  -- The row that moves the superscript to the right is as deep as the superscript.
  have hrowDepth : row.depth = sup.depth := by
    simp [row, hbox, unshifted, rowDepth, Scalar.largest_rat, kern, glue, Scalar.zero_rat,
      hsup.shift_eq, hdepth]
  have hcolumn : column.height = row.height := by
    simp [column, vbox, unshifted, stackHeight, Scalar.zero_rat]
  let base := b.root.child 0 n.box
  let stack := b.root.child 1 (column.withShift (-u))
  let line := stack.child 0 row
  have hbase : base ∈ b.placements :=
    child_mem_placementsIn b.root_mem_placements (by rw [box_root, hb]; rfl)
  have hstack : stack ∈ b.placements :=
    child_mem_placementsIn b.root_mem_placements (by rw [box_root, hb]; rfl)
  have hline : line ∈ b.placements := child_mem_placementsIn hstack rfl
  have habove : line.child 1 sup ∈ b.placements := child_mem_placementsIn hline rfl
  have hbelow : stack.child 2 sub ∈ b.placements := child_mem_placementsIn hstack rfl
  have hbaseDown : b.childDown 0 = 0 := by
    rw [← hn.shift_eq, hb]
    rfl
  have hstackDown : b.childDown 1 = -u := by
    rw [hb]
    rfl
  have hlineDown : stack.box.childDown 0 = 0 := by
    show 0 + row.height - column.height = 0
    rw [hcolumn]
    ring
  have haboveDown : line.box.childDown 1 = 0 := hsup.shift_eq
  have hbelowDown : stack.box.childDown 2 = u + v := by
    show (row.total + ((vkern (scriptGap sup sub u v)).total + 0)) + sub.height - column.height =
      u + v
    rw [hcolumn, total, hrowDepth]
    simp only [vkern, strut, total, unshifted, scriptGap, Scalar.zero_rat]
    ring
  refine ⟨base, hbase, line.child 1 sup, habove, stack.child 2 sub, hbelow, rfl, rfl, rfl, rfl,
    rfl, rfl, fun y => ⟨?_, ?_, ?_⟩⟩
  · rw [Placement.baseline_child, baseline_root, box_root, hbaseDown, add_zero]
  · simp only [line, stack, Placement.baseline_child, baseline_root, box_root] at hlineDown ⊢
    rw [hstackDown, hlineDown, haboveDown, hshifts]
    ring
  · simp only [stack, Placement.baseline_child, baseline_root, box_root] at hbelowDown ⊢
    rw [hstackDown, hbelowDown, hshifts]
    ring

/-- A base with a subscript alone, which stands its drop below the baseline of the base. -/
theorem exists_places_subscript {n : Nucleus Rat} (sub : Box Rat) (hn : n.box.Sound)
    (env : Environment Rat) :
    let b := scriptsBox n none (some sub) env
    ∃ base ∈ b.placements, ∃ below ∈ b.placements,
      base.path = [0] ∧ base.box = n.box ∧
      below.path = [1] ∧ below.box = sub.withShift (subShift n sub env) ∧
      ∀ y, base.baseline y = y ∧ below.baseline y = y + subShift n sub env := by
  intro b
  have hbase : b.root.child 0 n.box ∈ b.placements :=
    child_mem_placementsIn b.root_mem_placements rfl
  have hbelow : b.root.child 1 (sub.withShift (subShift n sub env)) ∈ b.placements :=
    child_mem_placementsIn b.root_mem_placements rfl
  have hbaseDown : b.childDown 0 = 0 := hn.shift_eq
  have hbelowDown : b.childDown 1 = subShift n sub env := rfl
  refine ⟨_, hbase, _, hbelow, rfl, rfl, rfl, rfl, fun y => ⟨?_, ?_⟩⟩
  · rw [Placement.baseline_child, baseline_root, box_root, hbaseDown, add_zero]
  · rw [Placement.baseline_child, baseline_root, box_root, hbelowDown]

/-- **Scripts keep their clearance.** Beside a base that does not take limits, a superscript stands
some `u` above and a subscript some `v` below the baseline of the base. The superscript rises at
least as far as its style asks, and its depth stays a quarter of the x-height above the baseline.
Between the two are at least four rule thicknesses; where that takes more space than they have, the
superscript is at least four fifths of the x-height above the baseline. A subscript alone reaches at
most four fifths of the x-height above the baseline. -/
theorem scripts_keep_clearance {base : Atom} {env : Environment Rat}
    (hbase : base.takesLimits env.style = false) (sup sub : Atom)
    (hsup : 0 ≤ (sup.layout env.sup).depth) :
    (let n := base.nucleus (base.layout env) true env
      let b := (Atom.scripts base (some sup) (some sub)).layout env
      ∃ nucleus ∈ b.placements, ∃ above ∈ b.placements, ∃ below ∈ b.placements, ∃ u v : Rat,
        (nucleus.path = [0] ∧ nucleus.box = n.box) ∧
        (above.path = [1, 0, 1] ∧ above.box = sup.layout env.sup) ∧
        (below.path = [1, 2] ∧ below.box = sub.layout env.sub) ∧
        env.param env.style.superscriptRise ≤ u ∧
        (sup.layout env.sup).depth + env.xHeight / 4 ≤ u ∧
        ∀ y, nucleus.baseline y = y ∧ above.baseline y = y - u ∧ below.baseline y = y + v ∧
          4 * env.ruleThickness ≤ below.top y - above.bottom y ∧
          (ScriptsTooClose n (sup.layout env.sup) (sub.layout env.sub) env →
            4 / 5 * env.xHeight ≤ y - above.bottom y)) ∧
    (let n := base.nucleus (base.layout env) false env
      let b := (Atom.scripts base none (some sub)).layout env
      ∃ nucleus ∈ b.placements, ∃ below ∈ b.placements, ∃ v : Rat,
        (nucleus.path = [0] ∧ nucleus.box = n.box) ∧
        (below.path = [1] ∧ below.box = (sub.layout env.sub).withShift v) ∧
        ∀ y, nucleus.baseline y = y ∧ below.baseline y = y + v ∧
          y - below.top y ≤ 4 / 5 * env.xHeight) := by
  have hlayout (sup sub : Option Atom) : (Atom.scripts base sup sub).layout env =
      scriptsBox (base.nucleus (base.layout env) sup.isSome env) (Atom.layoutOption sup env.sup)
        (Atom.layoutOption sub env.sub) env := by
    rw [Atom.layout, hbase]
    rfl
  constructor
  · intro n b
    have hn : n.box.Sound := base.sound_nucleus true env
    obtain ⟨nucleus, hnucleus, above, habove, below, hbelow, hp, hbox, hp', hbox', hp'', hbox'',
      hplaces⟩ := exists_places_scriptsBox (sub.layout env.sub) hn (sup.sound_layout env.sup) hsup
        env
    obtain ⟨hrise, hgap, hclose⟩ := bothShifts_clear n (sup.layout env.sup) (sub.layout env.sub) env
    have hb : b = scriptsBox n (some (sup.layout env.sup)) (some (sub.layout env.sub)) env :=
      hlayout (some sup) (some sub)
    rw [hb]
    refine ⟨nucleus, hnucleus, above, habove, below, hbelow,
      (bothShifts n (sup.layout env.sup) (sub.layout env.sub) env).1,
      (bothShifts n (sup.layout env.sup) (sub.layout env.sub) env).2, ⟨hp, hbox⟩, ⟨hp', hbox'⟩,
      ⟨hp'', hbox''⟩, (superscriptRise_le_supShift n _).trans hrise,
      (depth_le_supShift n _).trans hrise, fun y => ?_⟩
    obtain ⟨hy, hy', hy''⟩ := hplaces y
    refine ⟨hy, hy', hy'', ?_, fun h => ?_⟩
    · rw [Placement.top, Placement.bottom, hy', hy'', hbox', hbox'']
      rw [scriptGap] at hgap
      linarith
    · rw [Placement.bottom, hy', hbox']
      linarith [hclose h]
  · intro n b
    obtain ⟨nucleus, hnucleus, below, hbelow, hp, hbox, hp', hbox', hplaces⟩ :=
      exists_places_subscript (n := n) (sub.layout env.sub) (base.sound_nucleus false env) env
    have hb : b = scriptsBox n none (some (sub.layout env.sub)) env := hlayout none (some sub)
    rw [hb]
    refine ⟨nucleus, hnucleus, below, hbelow, _, ⟨hp, hbox⟩, ⟨hp', hbox'⟩, fun y => ?_⟩
    obtain ⟨hy, hy'⟩ := hplaces y
    refine ⟨hy, hy', ?_⟩
    have hheight : below.box.height = (sub.layout env.sub).height := by
      rw [hbox']
      rfl
    rw [Placement.top, hy', hheight]
    linarith [height_le_subShift n (sub.layout env.sub) env]

/-- In a displayed `f^p_b` the scripts would be too close: the superscript is raised until its lower
end is at four fifths of the x-height, and there are four rule thicknesses below it. -/
theorem scripts_keep_clearance_descender :
    let env : Environment Rat := { style := .display, size := 10 }
    let n := (Atom.ofChar 'f').nucleus ((Atom.ofChar 'f').layout env) true env
    let sup := (Atom.ofChar 'p').layout env.sup
    let sub := (Atom.ofChar 'b').layout env.sub
    let b := (Atom.scripts (.ofChar 'f') (some (.ofChar 'p')) (some (.ofChar 'b'))).layout env
    (Atom.ofChar 'f').takesLimits env.style = false ∧ 0 ≤ sup.depth ∧
      ScriptsTooClose n sup sub env ∧
      ∃ above ∈ b.placements, ∃ below ∈ b.placements, above.box = sup ∧ below.box = sub ∧
        ∀ y, 4 * env.ruleThickness ≤ below.top y - above.bottom y ∧
          4 / 5 * env.xHeight ≤ y - above.bottom y := by
  intro env n sup sub b
  have hbase : (Atom.ofChar 'f').takesLimits env.style = false := by decide
  have hdepth : 0 ≤ sup.depth := by decide +kernel
  have hclose : ScriptsTooClose n sup sub env := by
    unfold ScriptsTooClose
    decide +kernel
  obtain ⟨⟨_, _, above, habove, below, hbelow, u, v, -, hsup, hsub, -, -, hplaces⟩, -⟩ :=
    scripts_keep_clearance hbase (.ofChar 'p') (.ofChar 'b') hdepth
  refine ⟨hbase, hdepth, hclose, above, habove, below, hbelow, hsup.2, hsub.2, fun y => ?_⟩
  obtain ⟨-, -, -, hgap, hraised⟩ := hplaces y
  exact ⟨hgap, hraised hclose⟩

/-! ## Fractions -/

/-- In a column that stands on its middle part, how far below that the outer parts stand. -/
theorem childDown_around (above line below : Box Rat) (upper lower shift : Rat) :
    let column := (vbox [above, vkern upper, line, vkern lower, below] 2).withShift shift
    column.childDown 0 = -(above.depth + upper + line.height) ∧ column.childDown 2 = 0 ∧
      column.childDown 4 = line.depth + lower + below.height := by
  intro column
  have hkern (x : Rat) : (vkern x).total = x := by
    simp [vkern, strut, total, unshifted, Scalar.zero_rat]
  have hheight : column.height = above.total + upper + line.height := by
    show 0.0 + above.total + (vkern upper).total + line.height = _
    rw [hkern, Scalar.zero_rat, zero_add]
  refine ⟨?_, ?_, ?_⟩
  · show 0 + above.height - column.height = _
    rw [hheight, total]
    ring
  · show above.total + ((vkern upper).total + 0) + line.height - column.height = 0
    rw [hheight, hkern]
    ring
  · show above.total + ((vkern upper).total + (line.total + ((vkern lower).total + 0))) +
      below.height - column.height = _
    rw [hheight, hkern, hkern, show line.total = line.height + line.depth from rfl]
    ring

/-- The parts of a fraction: the numerator stands its rise above the baseline, the denominator its
drop below, and the bar, or the place of it, lies on the axis. -/
theorem exists_places_fractionBox {num den : Box Rat} (hnum : num.Sound) (hden : den.Sound)
    (hdepth : 0 ≤ num.depth) (hheight : 0 ≤ den.height) (bar : Bool) (env : Environment Rat) :
    let b := fractionBox num den bar env
    let shifts := if bar then ruledShifts num den env else unruledShifts num den env
    let theta := if bar then env.ruleThickness else 0
    ∃ above ∈ b.placements, ∃ line ∈ b.placements, ∃ below ∈ b.placements,
      ([1, 0] <+: above.path ∧ above.box = num) ∧
      (line.path = [1, 2] ∧ (bar = true → line.box.content = .rule)) ∧
      ([1, 4] <+: below.path ∧ below.box = den) ∧
      ∀ y, above.baseline y = y - shifts.1 ∧ below.baseline y = y + shifts.2 ∧
        line.top y = y - (env.axisHeight + theta / 2) ∧
        line.bottom y = y - (env.axisHeight - theta / 2) := by
  intro b shifts theta
  have htwo : (2.0 : Rat) = 2 := by norm_num
  obtain ⟨u, v, hshifts⟩ : ∃ u v, shifts = (u, v) := ⟨_, _, rfl⟩
  let width := Scalar.larger num.width den.width
  let bar' : Box Rat := if bar then .rule width (theta / 2) (theta / 2) else .strut width 0 0
  let upper := (u - num.depth) - (env.axisHeight + theta / 2)
  let lower := (env.axisHeight - theta / 2) - (den.height - v)
  let n := num.aligned width .center
  let d := den.aligned width .center
  let column := vbox [n, vkern upper, bar', vkern lower, d] 2
  let beside := kern (nullDelimiterSpace env)
  have hb : b = hbox [beside, column.withShift (-env.axisHeight), beside] := by
    simp only [shifts] at hshifts
    simp only [b, fractionBox, hshifts, htwo, Scalar.zero_rat, column, bar', upper,
      lower, n, d, width, theta, beside]
  have hnDepth : n.depth = num.depth := depth_aligned hnum hdepth _ _
  have hdHeight : d.height = den.height := height_aligned hden hheight _ _
  have hbarHeight : bar'.height = theta / 2 := by
    cases bar <;> simp [bar', theta, rule, strut, unshifted]
  have hbarDepth : bar'.depth = theta / 2 := by
    cases bar <;> simp [bar', theta, rule, strut, unshifted]
  let stack := b.root.child 1 (column.withShift (-env.axisHeight))
  have hstack : stack ∈ b.placements :=
    child_mem_placementsIn b.root_mem_placements (by rw [box_root, hb]; rfl)
  have hline : stack.child 2 bar' ∈ b.placements := child_mem_placementsIn hstack rfl
  obtain ⟨above, habove, hpath, hbox, hbaseline⟩ :=
    exists_place_aligned (m := stack.child 0 n) (child_mem_placementsIn hstack rfl) hnum width
      .center rfl
  obtain ⟨below, hbelow, hpath', hbox', hbaseline'⟩ :=
    exists_place_aligned (m := stack.child 4 d) (child_mem_placementsIn hstack rfl) hden width
      .center rfl
  -- The baseline of the column is that of the bar, on the axis.
  have hstackDown (y : Rat) : stack.baseline y = y - env.axisHeight := by
    have hdown : b.childDown 1 = -env.axisHeight := by rw [hb]; rfl
    rw [Placement.baseline_child, baseline_root, box_root, hdown]
    ring
  obtain ⟨hnDown, hlineDown, hdDown⟩ :
      stack.box.childDown 0 = -(n.depth + upper + bar'.height) ∧ stack.box.childDown 2 = 0 ∧
        stack.box.childDown 4 = bar'.depth + lower + d.height :=
    childDown_around n bar' d upper lower (-env.axisHeight)
  rw [hnDepth, hbarHeight] at hnDown
  rw [hdHeight, hbarDepth] at hdDown
  refine ⟨above, habove, _, hline, below, hbelow, ⟨hpath, hbox⟩, ⟨rfl, fun hbar => ?_⟩,
    ⟨hpath', hbox'⟩, fun y => ⟨?_, ?_, ?_, ?_⟩⟩
  · simp [bar', hbar, rule, unshifted]
  · rw [hbaseline, Placement.baseline_child, hstackDown, hnDown, hshifts]
    ring
  · rw [hbaseline', Placement.baseline_child, hstackDown, hdDown, hshifts]
    ring
  · rw [Placement.top, Placement.baseline_child, hstackDown, hlineDown, Placement.box_child,
      hbarHeight]
    ring
  · rw [Placement.bottom, Placement.baseline_child, hstackDown, hlineDown, Placement.box_child,
      hbarDepth]
    ring

/-- **Fractions keep their clearance.** The bar of a fraction, or the place of it, is centred on the
axis. The numerator stands at least as far above the baseline as its style asks, and the denominator
at least as far below. With a bar there is at least the space above and below it that the style asks
for, three rule thicknesses or one; without a bar, at least that between the two parts, seven rule
thicknesses or three. -/
theorem fraction_keeps_clearance (num den : Atom) (bar : Bool) (env : Environment Rat)
    (hnum : 0 ≤ (num.layout env.num).depth) (hden : 0 ≤ (den.layout env.den).height) :
    let b := (Atom.fraction num den bar).layout env
    ∃ above ∈ b.placements, ∃ line ∈ b.placements, ∃ below ∈ b.placements,
      ([1, 0] <+: above.path ∧ above.box = num.layout env.num) ∧
      (line.path = [1, 2] ∧ (bar = true → line.box.content = .rule)) ∧
      ([1, 4] <+: below.path ∧ below.box = den.layout env.den) ∧
      ∀ y, (line.top y + line.bottom y) / 2 = y - env.axisHeight ∧
        env.param (env.style.numeratorRise bar) ≤ y - above.baseline y ∧
        env.param env.style.denominatorDrop ≤ below.baseline y - y ∧
        if bar then
          line.bottom y - line.top y = env.ruleThickness ∧
            env.barClearance ≤ line.top y - above.bottom y ∧
            env.barClearance ≤ below.top y - line.bottom y
        else env.stackClearance ≤ below.top y - above.bottom y := by
  intro b
  have hb : b = fractionBox (num.layout env.num) (den.layout env.den) bar env := by
    simp only [b, Atom.layout]
  obtain ⟨above, habove, line, hline, below, hbelow, hnumBox, hbarBox, hdenBox, hplaces⟩ :=
    exists_places_fractionBox (num.sound_layout env.num) (den.sound_layout env.den) hnum hden bar
      env
  rw [hb]
  refine ⟨above, habove, line, hline, below, hbelow, hnumBox, hbarBox, hdenBox, fun y => ?_⟩
  obtain ⟨hu, hv, htop, hbottom⟩ := hplaces y
  have haboveBottom : above.bottom y = above.baseline y + (num.layout env.num).depth := by
    rw [Placement.bottom, hnumBox.2]
  have hbelowTop : below.top y = below.baseline y - (den.layout env.den).height := by
    rw [Placement.top, hdenBox.2]
  rw [haboveBottom, hbelowTop, hu, hv, htop, hbottom]
  cases bar with
  | true =>
    obtain ⟨hrise, hdrop, hupper, hlower⟩ :=
      ruledShifts_clear (num.layout env.num) (den.layout env.den) env
    simp only [↓reduceIte]
    refine ⟨?_, ?_, ?_, ?_, ?_, ?_⟩ <;> linarith
  | false =>
    obtain ⟨hrise, hdrop, hgap⟩ :=
      unruledShifts_clear (num.layout env.num) (den.layout env.den) env
    simp only [Bool.false_eq_true, ↓reduceIte]
    refine ⟨?_, ?_, ?_, ?_⟩ <;> linarith

/-- The parts of `p/b` in ten points, in text style: their depth and height are those of the
letters at seven points, and the bar is 0.4 points from either of them. -/
theorem fraction_keeps_clearance_descender :
    let env : Environment Rat := { style := .text, size := 10 }
    let b := (Atom.fraction (.ofChar 'p') (.ofChar 'b') true).layout env
    0 ≤ ((Atom.ofChar 'p').layout env.num).depth ∧ 0 ≤ ((Atom.ofChar 'b').layout env.den).height ∧
      ∃ above ∈ b.placements, ∃ line ∈ b.placements, ∃ below ∈ b.placements,
        line.box.content = .rule ∧
        ∀ y, (line.top y + line.bottom y) / 2 = y - 5 / 2 ∧
          2 / 5 ≤ line.top y - above.bottom y ∧ 2 / 5 ≤ below.top y - line.bottom y := by
  intro env b
  have hnum : 0 ≤ ((Atom.ofChar 'p').layout env.num).depth := by decide +kernel
  have hden : 0 ≤ ((Atom.ofChar 'b').layout env.den).height := by decide +kernel
  have haxis : env.axisHeight = 5 / 2 := by decide +kernel
  have hclearance : env.barClearance = 2 / 5 := by decide +kernel
  obtain ⟨above, habove, line, hline, below, hbelow, -, hbar, -, hplaces⟩ :=
    fraction_keeps_clearance (.ofChar 'p') (.ofChar 'b') true env hnum hden
  refine ⟨hnum, hden, above, habove, line, hline, below, hbelow, hbar.2 rfl, fun y => ?_⟩
  obtain ⟨hcentred, -, -, hclear⟩ := hplaces y
  rw [if_pos rfl, hclearance] at hclear
  exact ⟨haxis ▸ hcentred, hclear.2⟩

end Typeset
