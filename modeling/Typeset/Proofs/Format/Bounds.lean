import Mathlib.Algebra.Order.Group.Nat
import Mathlib.Data.List.Induction
import Mathlib.Tactic.Ring
import Typeset.Proofs.Format.Written

/-!
# The size of a column format

What a specification can describe, however its repeats nest and whatever is wrong with them.

* `ColumnItem.marks`: the columns and rules of an item, those of a repeat counted once. A
  specification has no more of them than characters (`ColumnItem.marksAll_readAll_le`).
* `ColumnItem.nesting`: how deep repeats stand in repeats.
* `ColumnFormat.repeatUpTo_induction`: what the copies of a repeat keep.
* `ColumnFormat.columns_read_lt`: no repeat starts a copy beyond the limit of columns, so the
  columns exceed it by the characters of the specification at most.
* `ColumnFormat.weight_read_le`: every level of repeats multiplies the columns and rules by the
  limit at most.
* `ColumnFormat.weight_read_le_iff`: the limit does not hold across levels.
-/

namespace Typeset

/-! ## Items -/

namespace ColumnItem

mutual

/-- The columns and rules of an item, those of a repeat counted once. -/
def marks : ColumnItem → Nat
  | .rule => 1
  | .tight => 0
  | .column _ => 1
  | .times _ items => marksAll items

/-- The columns and rules of items. -/
def marksAll : List ColumnItem → Nat
  | [] => 0
  | item :: items => item.marks + marksAll items

end

mutual

/-- The number of repeats that stand inside each other in an item. -/
def nesting : ColumnItem → Nat
  | .rule | .tight | .column _ => 0
  | .times _ items => nestingAll items + 1

/-- The number of repeats that stand inside each other in one of the items. -/
def nestingAll : List ColumnItem → Nat
  | [] => 0
  | item :: items => max item.nesting (nestingAll items)

end

/-- Every column and every rule has a character of its own. -/
theorem marksAll_readAll_le (cs : List Char) : marksAll (readAll cs) ≤ cs.length := by
  fun_induction readAll cs with
  | case1 => exact Nat.le_refl 0
  | case2 cs ih =>
    simp only [marksAll, marks, List.length_cons]
    omega
  | case3 cs rest _ ih | case4 cs rest _ ih =>
    have hrest := readGroup_rest_length cs
    simp only [marksAll, marks, List.length_cons, rest]
    omega
  | case5 cs _ ih =>
    have hrest := readGroup_rest_length cs
    have hrest' := readGroup_rest_length (readGroup cs).2
    simp only [List.length_cons]
    omega
  | case6 cs body hbody rest _ ihbody ih =>
    have hrest := readGroup_rest_length cs
    have hshort := readGroup_body_length hbody
    simp only [List.length_cons, rest]
    omega
  | case7 cs body hbody items rest _ _ ihbody ih =>
    have hrest := readGroup_rest_length cs
    have hshort := readGroup_body_length hbody
    simp only [marksAll, marks, List.length_cons, items, rest]
    omega
  | case8 c cs _ _ _ _ ih | case9 c cs _ _ _ _ _ ih =>
    have hrest := readGroup_rest_length cs
    simp only [marksAll, marks, List.length_cons]
    omega
  | case10 c cs _ _ _ _ _ _ _ ih | case11 c cs _ _ _ _ _ _ ih =>
    simp only [marksAll, marks, List.length_cons]
    omega

end ColumnItem

namespace ColumnFormat

open ColumnItem

/-- What holds of a format and is kept by every copy that a repeat starts holds of the repeat. -/
theorem repeatUpTo_induction {P : ColumnFormat → Prop} {step : ColumnFormat → ColumnFormat}
    (hstep : ∀ f, P f → f.columns.length < maxColumns → P (step f)) (n : Nat) {f : ColumnFormat}
    (h : P f) : P (repeatUpTo step n f) := by
  fun_induction repeatUpTo step n f with
  | case1 | case2 => exact h
  | case3 n f hlt ih => exact ih (hstep f h (Nat.not_le.mp hlt))

/-! ## Boundaries -/

/-- There is one boundary more than there are columns. -/
def HasBoundaries (f : ColumnFormat) : Prop := f.boundaries.length = f.columns.length + 1

theorem HasBoundaries.changeLast {f : ColumnFormat} (h : f.HasBoundaries)
    (g : ColumnBoundary → ColumnBoundary) : (f.changeLast g).HasBoundaries := by
  obtain ⟨columns, boundaries, pattern⟩ := f
  cases boundaries using List.reverseRecOn with
  | nil => cases h
  | append_singleton bs b =>
    rw [changeLast_concat]
    simpa [HasBoundaries] using h

mutual

theorem HasBoundaries.push {f : ColumnFormat} (h : f.HasBoundaries) (item : ColumnItem) :
    (push item f).HasBoundaries := by
  cases item with
  | rule | tight => exact h.changeLast _
  | column c => simpa [HasBoundaries, ColumnFormat.push, addColumn] using h
  | times count items =>
    rw [ColumnFormat.push]
    exact repeatUpTo_induction (fun f hf _ => hf.pushAll items) _ h

theorem HasBoundaries.pushAll {f : ColumnFormat} (h : f.HasBoundaries) (items : List ColumnItem) :
    (pushAll items f).HasBoundaries := by
  cases items with
  | nil => simpa [ColumnFormat.pushAll] using h
  | cons item items =>
    rw [ColumnFormat.pushAll]
    exact (h.push item).pushAll items

end

/-! ## Columns -/

mutual

/-- An item leaves no more columns than there were, or than the limit, and those that are written in
it. -/
theorem columns_push_le (item : ColumnItem) (f : ColumnFormat) :
    (push item f).columns.length ≤ max f.columns.length (maxColumns - 1) + item.marks := by
  cases item with
  | rule | tight =>
    simp only [push, changeLast]
    omega
  | column c =>
    simp only [push, addColumn, marks, List.length_append, List.length_singleton]
    omega
  | times count items =>
    rw [push, marks]
    refine repeatUpTo_induction
      (P := fun g => g.columns.length ≤ max f.columns.length (maxColumns - 1) + marksAll items)
      (fun g _ hlt => ?_) _ (by omega)
    -- The copy starts below the limit, so the copies before it do not count.
    have hcopy := columns_pushAll_le items g
    omega

theorem columns_pushAll_le (items : List ColumnItem) (f : ColumnFormat) :
    (pushAll items f).columns.length ≤
      max f.columns.length (maxColumns - 1) + marksAll items := by
  cases items with
  | nil =>
    rw [pushAll]
    omega
  | cons item items =>
    rw [pushAll, marksAll]
    have hitem := columns_push_le item f
    have hitems := columns_pushAll_le items (push item f)
    omega

end

/-- **The number of columns is bounded.** Whatever a specification repeats, the format has one
boundary more than columns, and fewer columns than the limit and the characters of the specification
together. -/
theorem columns_read_lt (spec : List Char) :
    (read spec).boundaries.length = (read spec).columns.length + 1 ∧
      (read spec).columns.length < maxColumns + spec.length := by
  have hcolumns := columns_pushAll_le (readAll spec) start
  have hmarks := marksAll_readAll_le spec
  refine ⟨HasBoundaries.pushAll (f := start) rfl (readAll spec), ?_⟩
  have hstart : start.columns.length = 0 := rfl
  have hlimit : maxColumns = 256 := rfl
  rw [read]
  omega

/-! ## Columns and rules -/

/-- The columns of a format and the rules on its boundaries. -/
def weight (f : ColumnFormat) : Nat :=
  f.columns.length + (f.boundaries.map ColumnBoundary.rules).sum

theorem weight_changeLast_le {g : ColumnBoundary → ColumnBoundary} {k : Nat}
    (hg : ∀ b, (g b).rules ≤ b.rules + k) (f : ColumnFormat) :
    (f.changeLast g).weight ≤ f.weight + k := by
  obtain ⟨columns, boundaries, pattern⟩ := f
  cases boundaries using List.reverseRecOn with
  | nil => exact Nat.le_add_right _ _
  | append_singleton bs b =>
    have hrules := hg b
    rw [changeLast_concat]
    simp only [weight, List.map_append, List.sum_append, List.map_singleton, List.sum_singleton]
    omega

theorem weight_repeatUpTo_le {step : ColumnFormat → ColumnFormat} {k : Nat}
    (hstep : ∀ f, (step f).weight ≤ f.weight + k) (n : Nat) (f : ColumnFormat) :
    (repeatUpTo step n f).weight ≤ f.weight + n * k := by
  fun_induction repeatUpTo step n f with
  | case1 | case2 => exact Nat.le_add_right _ _
  | case3 n f _ ih =>
    have hcopy := hstep f
    rw [Nat.succ_mul]
    omega

mutual

/-- Each level of repeats multiplies what is written in an item by the limit at most. -/
theorem weight_push_le (item : ColumnItem) (f : ColumnFormat) :
    (push item f).weight ≤ f.weight + maxColumns ^ item.nesting * item.marks := by
  cases item with
  | rule => exact weight_changeLast_le (fun b => Nat.le_refl _) f
  | tight => exact weight_changeLast_le (fun b => Nat.le_refl _) f
  | column c =>
    simp only [push, addColumn, weight, marks, nesting, List.length_append, List.map_append,
      List.sum_append, List.map_singleton, List.sum_singleton, List.length_singleton, Nat.pow_zero]
    omega
  | times count items =>
    rw [push]
    refine (weight_repeatUpTo_le (weight_pushAll_le items) _ f).trans ?_
    rw [nesting, marks, Nat.pow_succ', Nat.mul_assoc]
    exact Nat.add_le_add_left (Nat.mul_le_mul_right _ (Nat.min_le_right _ _)) _

theorem weight_pushAll_le (items : List ColumnItem) (f : ColumnFormat) :
    (pushAll items f).weight ≤ f.weight + maxColumns ^ nestingAll items * marksAll items := by
  cases items with
  | nil =>
    rw [pushAll]
    exact Nat.le_add_right _ _
  | cons item items =>
    have hpow {m n : Nat} (h : m ≤ n) (k : Nat) : maxColumns ^ m * k ≤ maxColumns ^ n * k :=
      Nat.mul_le_mul_right k (Nat.pow_le_pow_right (by decide) h)
    have hitem := weight_push_le item f
    have hitems := weight_pushAll_le items (push item f)
    have hfirst := hpow (Nat.le_max_left item.nesting (nestingAll items)) item.marks
    have hrest := hpow (Nat.le_max_right item.nesting (nestingAll items)) (marksAll items)
    rw [pushAll, nestingAll, marksAll, Nat.mul_add]
    omega

end

/-- The columns and rules of a format are at most as many as the characters of the specification,
times the limit for every level of repeats in it. -/
theorem weight_read_le (spec : List Char) :
    (read spec).weight ≤ maxColumns ^ nestingAll (readAll spec) * spec.length := by
  have hweight := weight_pushAll_le (readAll spec) start
  have hmarks := Nat.mul_le_mul_left (maxColumns ^ nestingAll (readAll spec))
    (marksAll_readAll_le spec)
  have hstart : start.weight = 0 := rfl
  rw [read]
  omega

/-! ## Repeated rules -/

/-- A rule in `depth` repeats, each with the most copies that are made. -/
def nestedRule : Nat → ColumnToken
  | 0 => .rule
  | depth + 1 => .times maxColumns [nestedRule depth]

/-- A column, and a rule in `depth` repeats. -/
def nestedRules (depth : Nat) : List ColumnToken := [.column .center, nestedRule depth]

theorem length_written_nestedRule (depth : Nat) :
    (nestedRule depth).written.length = 8 * depth + 1 := by
  induction depth with
  | zero => rfl
  | succ depth ih =>
    have hdigits : (Nat.toDigits 10 maxColumns).length = 3 := by decide
    simp only [nestedRule, ColumnToken.written, ColumnToken.writtenAll, List.length_cons,
      List.length_append, List.length_nil, hdigits, ih]
    omega

theorem length_writtenAll_nestedRules (depth : Nat) :
    (ColumnToken.writtenAll (nestedRules depth)).length = 8 * depth + 2 := by
  simp only [nestedRules, ColumnToken.writtenAll, ColumnToken.written, List.length_append,
    length_written_nestedRule, List.length_singleton, List.length_nil]
  omega

theorem nestingAll_items_nestedRule (depth : Nat) :
    nestingAll (nestedRule depth).items = depth := by
  induction depth with
  | zero => rfl
  | succ depth ih =>
    rw [nestedRule, ColumnToken.items, if_pos (by decide), nestingAll, nesting,
      ColumnToken.itemsAll, ColumnToken.itemsAll, List.append_nil, ih]
    exact Nat.max_zero _

theorem nestingAll_nestedRules (depth : Nat) :
    nestingAll (readAll (ColumnToken.writtenAll (nestedRules depth))) = depth := by
  have hitems : ColumnToken.itemsAll (nestedRules depth) =
      .column { align := .center } :: (nestedRule depth).items := by
    simp [nestedRules, ColumnToken.itemsAll, ColumnToken.items]
  rw [ColumnToken.readAll_writtenAll, hitems, nestingAll, nestingAll_items_nestedRule, nesting]
  exact Nat.zero_max _

/-- No copy is left out, since copies of rules add no columns. -/
theorem pushTokens_nestedRule {cs : List ColumnSpec} (hroom : cs.length < maxColumns) (depth : Nat)
    (bs : List ColumnBoundary) (b : ColumnBoundary) (pattern : List ColumnSpec) :
    pushTokens [nestedRule depth] ⟨cs, bs ++ [b], pattern⟩ =
      ⟨cs, bs ++ [{ b with rules := b.rules + maxColumns ^ depth }], pattern⟩ := by
  induction depth generalizing b with
  | zero => exact pushTokens_rules 1 cs bs b pattern
  | succ depth ih =>
    have hcopies (n : Nat) (b : ColumnBoundary) :
        repeatUpTo (pushTokens [nestedRule depth]) n ⟨cs, bs ++ [b], pattern⟩ =
          ⟨cs, bs ++ [{ b with rules := b.rules + n * maxColumns ^ depth }], pattern⟩ := by
      induction n generalizing b with
      | zero => simp [repeatUpTo]
      | succ n ih' =>
        rw [repeatUpTo, if_neg (Nat.not_le.mpr hroom), ih, ih', Nat.succ_mul, Nat.add_assoc,
          Nat.add_comm (maxColumns ^ depth)]
    rw [nestedRule, pushTokens_times, if_pos (by decide), Nat.min_self, hcopies, Nat.pow_succ']

theorem weight_read_nestedRules (depth : Nat) :
    (read (ColumnToken.writtenAll (nestedRules depth))).weight = maxColumns ^ depth + 1 := by
  have hsplit : nestedRules depth = [.column .center] ++ [nestedRule depth] := rfl
  have hcolumn : pushTokens [.column .center] start =
      ⟨[{}], [({} : ColumnBoundary)] ++ [({} : ColumnBoundary)], []⟩ := rfl
  rw [read_writtenAll, hsplit, pushTokens_append, Function.comp_apply, hcolumn,
    pushTokens_nestedRule (by decide)]
  simp [weight, Nat.add_comm]

/-- From two levels on, the rules outgrow the characters that describe them. -/
theorem limit_lt_weight {depth : Nat} (h : 2 ≤ depth) :
    maxColumns * (8 * depth + 2) < maxColumns ^ depth + 1 := by
  induction depth, h using Nat.le_induction with
  | base => decide
  | succ depth hdepth ih =>
    have hlimit : maxColumns = 256 := rfl
    rw [Nat.pow_succ]
    rw [hlimit] at ih ⊢
    omega

/-- **The limit holds for one level of repeats.** Where repeats stand inside each other `depth`
levels deep, the columns and rules of a format are at most the limit to this power, times the
characters of the specification. That they stay within the limit times the characters is certain
just where no repeat stands inside another: each level can multiply the rules. -/
theorem weight_read_le_iff (depth : Nat) :
    (∀ spec, nestingAll (readAll spec) = depth →
      (read spec).weight ≤ maxColumns ^ depth * spec.length) ∧
    ((∀ spec, nestingAll (readAll spec) = depth →
      (read spec).weight ≤ maxColumns * spec.length) ↔ depth ≤ 1) := by
  have hpow (spec : List Char) (h : nestingAll (readAll spec) = depth) :
      (read spec).weight ≤ maxColumns ^ depth * spec.length := h ▸ weight_read_le spec
  refine ⟨hpow, fun hlimit => Nat.not_lt.mp fun hdepth => ?_, fun hdepth spec h => ?_⟩
  · have hbound := hlimit _ (nestingAll_nestedRules depth)
    rw [weight_read_nestedRules, length_writtenAll_nestedRules] at hbound
    exact Nat.not_lt.mpr hbound (limit_lt_weight hdepth)
  · have hle : maxColumns ^ depth ≤ maxColumns ^ 1 := Nat.pow_le_pow_right (by decide) hdepth
    exact (hpow spec h).trans (Nat.mul_le_mul_right _ hle)

/-- Two levels of repeats with a rule in them: 18 characters describe a column and 65536 rules. -/
theorem limit_lt_weight_two_levels :
    let spec := "c*{256}{*{256}{|}}".toList
    (read spec).weight = 65537 ∧ maxColumns * spec.length < (read spec).weight := by
  intro spec
  have hspec : ColumnToken.writtenAll (nestedRules 2) = spec := by decide
  have hweight := weight_read_nestedRules 2
  rw [hspec] at hweight
  rw [hweight]
  exact ⟨rfl, by decide⟩

end ColumnFormat

end Typeset
