import Mathlib.Algebra.Group.Nat.Defs
import Mathlib.Logic.Function.Iterate
import Mathlib.Logic.Relation
import Typeset.Table.Format

/-!
# Written column formats

A format of left, centred and right columns has a written form, and reading gives the format back.
Copies of a part of it may be written as a repeat.

* `ColumnToken`: what a written format is made of; `ColumnToken.written` is the text of a token.
* `ColumnFormat.tokens`: the tokens of a format.
* `ColumnToken.Folds`: copies of a block, at any depth of repeats, written as a repeat.
* `ColumnToken.readAll_writtenAll`: the text of tokens is read as what the tokens describe.
* `AgreeBelow`: two changes of a format that come to the same below the limit of columns. A repeat
  and its copies do (`agreeBelow_repeatUpTo`).
* `ColumnFormat.reads_written`: formats read back, also with copies written as repeats.
-/

namespace Typeset

/-! ## Tokens -/

/-- What a written format is made of. -/
inductive ColumnToken where
  | rule
  | tight
  | column (align : HAlign)
  | times (count : Nat) (block : List ColumnToken)

namespace ColumnToken

/-- The letter of a column. -/
def letter : HAlign → Char
  | .left => 'l'
  | .center => 'c'
  | .right => 'r'

mutual

/-- The text of a token. -/
def written : ColumnToken → List Char
  | .rule => ['|']
  | .tight => ['@', '{', '}']
  | .column align => [letter align]
  | .times count block =>
    '*' :: '{' :: (Nat.toDigits 10 count ++ '}' :: '{' :: (writtenAll block ++ ['}']))

/-- The text of tokens. -/
def writtenAll : List ColumnToken → List Char
  | [] => []
  | t :: ts => t.written ++ writtenAll ts

end

mutual

/-- The items that a token stands for. There is no repeat with a count beyond 64 bits. -/
def items : ColumnToken → List ColumnItem
  | .rule => [.rule]
  | .tight => [.tight]
  | .column align => [.column { align }]
  | .times count block => if count < 2 ^ 64 then [.times count (itemsAll block)] else []

/-- The items that tokens stand for. -/
def itemsAll : List ColumnToken → List ColumnItem
  | [] => []
  | t :: ts => t.items ++ itemsAll ts

end

/-- Somewhere in the tokens, at any depth of repeats, copies of a block give way to a repeat of the
block. -/
inductive Folds : List ColumnToken → List ColumnToken → Prop
  | copies (before block after : List ColumnToken) {count : Nat} (h : count ≤ maxColumns) :
    Folds (before ++ ((List.replicate count block).flatten ++ after))
      (before ++ ([.times count block] ++ after))
  | inside (before after : List ColumnToken) (count : Nat) {block block' : List ColumnToken}
    (h : Folds block block') :
    Folds (before ++ ([.times count block] ++ after)) (before ++ ([.times count block'] ++ after))

theorem itemsAll_append (ts us : List ColumnToken) :
    itemsAll (ts ++ us) = itemsAll ts ++ itemsAll us := by
  induction ts with
  | nil => rfl
  | cons t ts ih => rw [List.cons_append, itemsAll, itemsAll, ih, List.append_assoc]

end ColumnToken

/-! ## Reading groups -/

namespace ColumnItem

/-- A text in which every brace has its partner: a group does not end in it. -/
def Closed (body : List Char) : Prop :=
  ∀ depth cs, closeGroup depth (body ++ cs) =
    (body ++ (closeGroup depth cs).1, (closeGroup depth cs).2)

theorem Closed.nil : Closed [] := fun _ _ => rfl

theorem Closed.append {xs ys : List Char} (hx : Closed xs) (hy : Closed ys) :
    Closed (xs ++ ys) := by
  intro depth cs
  rw [List.append_assoc, hx, hy, List.append_assoc]

theorem Closed.cons {c : Char} {cs : List Char} (hopen : c ≠ '{') (hclose : c ≠ '}')
    (h : Closed cs) : Closed (c :: cs) := by
  intro depth ds
  rw [List.cons_append, closeGroup.eq_def]
  simp [hclose, h depth ds]

theorem closed_of_forall {cs : List Char} (h : ∀ c ∈ cs, c ≠ '{' ∧ c ≠ '}') : Closed cs := by
  induction cs with
  | nil => exact .nil
  | cons c cs ih =>
    rw [List.forall_mem_cons] at h
    exact .cons h.1.1 h.1.2 (ih h.2)

theorem Closed.group {body : List Char} (h : Closed body) : Closed ('{' :: (body ++ ['}'])) := by
  intro depth cs
  rw [List.cons_append, closeGroup, List.append_assoc, h]
  simp [closeGroup]

theorem readGroup_group {body : List Char} (h : Closed body) (cs : List Char) :
    readGroup ('{' :: (body ++ '}' :: cs)) = (some body, cs) := by
  rw [readGroup, h]
  simp [closeGroup]

/-! ## Reading tokens -/

/-- A repeat is read from its two groups. -/
theorem readAll_times {count body : List Char} (hcount : Closed count) (hbody : Closed body)
    (cs : List Char) :
    readAll ('*' :: '{' :: (count ++ '}' :: '{' :: (body ++ '}' :: cs))) =
      match Text.readNat? (Text.trim count) with
      | none => readAll cs
      | some n => .times n (readAll body) :: readAll cs := by
  have hgroups := readGroup_group hcount ('{' :: (body ++ '}' :: cs))
  have hgroup := readGroup_group hbody cs
  rw [readAll]
  split
  · rename_i h
    rw [hgroups, hgroup] at h
    cases h
  · rename_i body' h
    rw [hgroups, hgroup] at h
    cases h
    rw [hgroups, hgroup]
    rfl

end ColumnItem

/-- A digit is neither blank nor a brace nor a sign. -/
theorem plain_of_isDigit {c : Char} (h : c.isDigit = true) :
    Text.isBlank c = false ∧ c ≠ '{' ∧ c ≠ '}' ∧ c ≠ '+' := by
  have hbounds : 48 ≤ c.toNat ∧ c.toNat ≤ 57 := by
    simpa [Char.isDigit, UInt32.le_iff_toNat_le] using h
  refine ⟨?_, ?_, ?_, ?_⟩
  · simp [Text.isBlank]
    omega
  all_goals
    rintro rfl
    revert hbounds
    decide

theorem plain_of_mem_toDigits {n : Nat} {c : Char} (h : c ∈ Nat.toDigits 10 n) :
    Text.isBlank c = false ∧ c ≠ '{' ∧ c ≠ '}' ∧ c ≠ '+' :=
  plain_of_isDigit (Nat.isDigit_of_mem_toDigits (by decide) (by decide) h)

theorem ColumnItem.closed_toDigits (n : Nat) : Closed (Nat.toDigits 10 n) :=
  closed_of_forall fun _ hc =>
    have hplain := plain_of_mem_toDigits hc
    ⟨hplain.2.1, hplain.2.2.1⟩

/-- A written count is read back if it fits in 64 bits. -/
theorem Text.readNat?_trim_toDigits (n : Nat) :
    Text.readNat? (Text.trim (Nat.toDigits 10 n)) = if n < 2 ^ 64 then some n else none := by
  have hall : (Nat.toDigits 10 n).all Char.isDigit = true :=
    List.all_eq_true.mpr fun c hc => Nat.isDigit_of_mem_toDigits (by decide) (by decide) hc
  have hvalue : Text.digitsValue (Nat.toDigits 10 n) = n :=
    Nat.ofDigitChars_toDigits (by decide) (by decide)
  rw [Text.trim_of_forall fun c hc => (plain_of_mem_toDigits hc).1]
  unfold Text.readNat?
  split
  · rename_i rest heq
    exact absurd rfl (plain_of_mem_toDigits (heq ▸ List.mem_cons_self)).2.2.2
  · simp [hall, hvalue]

namespace ColumnToken

open ColumnItem

mutual

theorem closed_written (t : ColumnToken) : Closed t.written := by
  cases t with
  | rule => exact .cons (by decide) (by decide) .nil
  | tight => exact .cons (by decide) (by decide) (.group .nil)
  | column align => cases align <;> exact .cons (by decide) (by decide) .nil
  | times count block =>
    have h := ((closed_toDigits count).group.append (closed_writtenAll block).group).cons
      (show '*' ≠ '{' by decide) (by decide)
    simpa [written] using h

theorem closed_writtenAll (ts : List ColumnToken) : Closed (writtenAll ts) := by
  cases ts with
  | nil => exact .nil
  | cons t ts => exact (closed_written t).append (closed_writtenAll ts)

end

mutual

theorem readAll_written_append (t : ColumnToken) (cs : List Char) :
    readAll (t.written ++ cs) = t.items ++ readAll cs := by
  cases t with
  | rule => simp [written, items, readAll]
  | tight =>
    have hgroup := readGroup_group .nil cs
    simp only [List.nil_append] at hgroup
    simp [written, items, readAll, hgroup, Text.trim, Text.trimEnd, Text.trimStart]
  | column align =>
    cases align <;> simp [written, items, readAll, letter, alignOf?]
  | times count block =>
    have hblock := readAll_writtenAll_append block []
    rw [List.append_nil, readAll, List.append_nil] at hblock
    have h := readAll_times (closed_toDigits count) (closed_writtenAll block) cs
    rw [Text.readNat?_trim_toDigits, hblock] at h
    simp only [written, List.cons_append, List.append_assoc, List.nil_append, h, items]
    split <;> rename_i hread <;> split at hread <;> simp_all

theorem readAll_writtenAll_append (ts : List ColumnToken) (cs : List Char) :
    readAll (writtenAll ts ++ cs) = itemsAll ts ++ readAll cs := by
  cases ts with
  | nil => rfl
  | cons t ts =>
    rw [writtenAll, List.append_assoc, readAll_written_append, readAll_writtenAll_append ts,
      itemsAll, List.append_assoc]

end

/-- The text of tokens is read as their items. -/
theorem readAll_writtenAll (ts : List ColumnToken) : readAll (writtenAll ts) = itemsAll ts := by
  have h := readAll_writtenAll_append ts []
  rwa [List.append_nil, readAll, List.append_nil] at h

end ColumnToken

/-! ## Repeats and their copies -/

namespace ColumnFormat

/-- The change adds to the columns and takes none away. -/
def Grows (g : ColumnFormat → ColumnFormat) : Prop := ∀ f, f.columns.length ≤ (g f).columns.length

/-- The two changes come to the same wherever one of them leaves fewer than `maxColumns` columns. -/
def AgreeBelow (g h : ColumnFormat → ColumnFormat) : Prop :=
  ∀ f, (g f).columns.length < maxColumns ∨ (h f).columns.length < maxColumns → g f = h f

section Changes

variable {g h k : ColumnFormat → ColumnFormat}

theorem Grows.comp (hg : Grows g) (hh : Grows h) : Grows (h ∘ g) :=
  fun f => Nat.le_trans (hg f) (hh _)

theorem Grows.iterate (hg : Grows g) (n : Nat) : Grows g^[n] := by
  induction n with
  | zero => exact fun _ => Nat.le_refl _
  | succ n ih => exact hg.comp ih

theorem Grows.repeatUpTo (hg : Grows g) (n : Nat) : Grows (repeatUpTo g n) := by
  intro f
  fun_induction ColumnFormat.repeatUpTo g n f with
  | case1 | case2 => exact Nat.le_refl _
  | case3 n f _ ih => exact Nat.le_trans (hg f) ih

theorem AgreeBelow.refl (g : ColumnFormat → ColumnFormat) : AgreeBelow g g := fun _ _ => rfl

theorem AgreeBelow.symm (hgh : AgreeBelow g h) : AgreeBelow h g := fun f hf => (hgh f hf.symm).symm

theorem AgreeBelow.trans (hgh : AgreeBelow g h) (hhk : AgreeBelow h k) : AgreeBelow g k := by
  rintro f (hf | hf)
  · have hg := hgh f (.inl hf)
    exact hg.trans (hhk f (.inl (hg ▸ hf)))
  · have hk := hhk f (.inr hf)
    exact (hgh f (.inr (hk ▸ hf))).trans hk

/-- A change after two that agree: what it leaves has the columns of both. -/
theorem AgreeBelow.comp {g' h' : ColumnFormat → ColumnFormat} (hg : AgreeBelow g g')
    (hh : AgreeBelow h h') (hgrows : Grows h) (hgrows' : Grows h') :
    AgreeBelow (h ∘ g) (h' ∘ g') := by
  intro f hf
  have hfirst : g f = g' f :=
    hg f (hf.imp (Nat.lt_of_le_of_lt (hgrows _)) (Nat.lt_of_le_of_lt (hgrows' _)))
  simp only [Function.comp_apply, ← hfirst] at hf ⊢
  exact hh _ hf

theorem AgreeBelow.iterate (hgh : AgreeBelow g h) (hg : Grows g) (hh : Grows h) (n : Nat) :
    AgreeBelow g^[n] h^[n] := by
  induction n with
  | zero => exact .refl id
  | succ n ih => exact hgh.comp ih (hg.iterate n) (hh.iterate n)

/-- A repeat is its copies one after the other, as long as they leave fewer columns than the
limit. -/
theorem agreeBelow_repeatUpTo (hg : Grows g) (n : Nat) : AgreeBelow (repeatUpTo g n) g^[n] := by
  induction n with
  | zero => exact .refl id
  | succ n ih =>
    intro f hf
    have hlt : f.columns.length < maxColumns :=
      hf.elim (Nat.lt_of_le_of_lt (hg.repeatUpTo _ f)) (Nat.lt_of_le_of_lt (hg.iterate _ f))
    rw [ColumnFormat.repeatUpTo, if_neg (Nat.not_le.mpr hlt)] at hf ⊢
    exact ih (g f) hf

end Changes

/-! ## What tokens do -/

mutual

theorem grows_push (item : ColumnItem) : Grows (push item) := by
  cases item with
  | rule | tight => exact fun f => by simp [push, changeLast]
  | column c => exact fun f => by simp [push, addColumn]
  | times count items =>
    intro f
    rw [push]
    exact (grows_pushAll items).repeatUpTo _ f

theorem grows_pushAll (items : List ColumnItem) : Grows (pushAll items) := by
  cases items with
  | nil => exact fun f => by simp [pushAll]
  | cons item items =>
    intro f
    rw [pushAll]
    exact (grows_push item).comp (grows_pushAll items) f

end

theorem pushAll_append (xs ys : List ColumnItem) (f : ColumnFormat) :
    pushAll (xs ++ ys) f = pushAll ys (pushAll xs f) := by
  induction xs generalizing f with
  | nil => rw [List.nil_append, pushAll]
  | cons x xs ih => rw [List.cons_append, pushAll, ih, pushAll]

/-- The format with what tokens stand for. -/
def pushTokens (ts : List ColumnToken) (f : ColumnFormat) : ColumnFormat :=
  pushAll (ColumnToken.itemsAll ts) f

theorem pushTokens_append (ts us : List ColumnToken) :
    pushTokens (ts ++ us) = pushTokens us ∘ pushTokens ts := by
  funext f
  rw [pushTokens, ColumnToken.itemsAll_append, pushAll_append]
  rfl

theorem pushTokens_copies (block : List ColumnToken) (n : Nat) :
    pushTokens (List.replicate n block).flatten = (pushTokens block)^[n] := by
  induction n with
  | zero => funext f; rfl
  | succ n ih =>
    rw [List.replicate_succ, List.flatten_cons, pushTokens_append, ih, Function.iterate_succ]

theorem pushTokens_times (count : Nat) (block : List ColumnToken) :
    pushTokens [.times count block] =
      if count < 2 ^ 64 then repeatUpTo (pushTokens block) (min count maxColumns) else id := by
  funext f
  rw [pushTokens, ColumnToken.itemsAll, ColumnToken.itemsAll, List.append_nil, ColumnToken.items]
  split
  · rw [pushAll, pushAll, push]
    rfl
  · rw [pushAll]
    rfl

/-- Tokens between others that agree with them. -/
theorem AgreeBelow.within {ts us : List ColumnToken}
    (h : AgreeBelow (pushTokens ts) (pushTokens us)) (before after : List ColumnToken) :
    AgreeBelow (pushTokens (before ++ (ts ++ after))) (pushTokens (before ++ (us ++ after))) := by
  simp only [pushTokens_append]
  have hafter := h.comp (.refl (pushTokens after)) (grows_pushAll _) (grows_pushAll _)
  exact (AgreeBelow.refl (pushTokens before)).comp hafter
    ((grows_pushAll _).comp (grows_pushAll _)) ((grows_pushAll _).comp (grows_pushAll _))

/-- Copies and the repeat that they give way to describe the same columns. -/
theorem agreeBelow_of_folds {ts us : List ColumnToken} (h : ColumnToken.Folds ts us) :
    AgreeBelow (pushTokens ts) (pushTokens us) := by
  induction h with
  | copies before block after hcount =>
    refine AgreeBelow.within ?_ before after
    have hlt : maxColumns < 2 ^ 64 := by decide
    rw [pushTokens_copies, pushTokens_times, if_pos (by omega), Nat.min_eq_left hcount]
    exact (agreeBelow_repeatUpTo (grows_pushAll _) _).symm
  | @inside before after count block block' _ ih =>
    refine AgreeBelow.within ?_ before after
    rw [pushTokens_times, pushTokens_times]
    split
    -- The block changes in the copies that the repeat stands for.
    · exact ((agreeBelow_repeatUpTo (grows_pushAll _) _).trans
        (ih.iterate (grows_pushAll _) (grows_pushAll _) _)).trans
        (agreeBelow_repeatUpTo (grows_pushAll _) _).symm
    · exact .refl id

theorem agreeBelow_of_eqvGen {ts us : List ColumnToken}
    (h : Relation.EqvGen ColumnToken.Folds ts us) :
    AgreeBelow (pushTokens ts) (pushTokens us) := by
  induction h with
  | rel _ _ h => exact agreeBelow_of_folds h
  | refl _ => exact .refl _
  | symm _ _ _ ih => exact ih.symm
  | trans _ _ _ _ _ ih ih' => exact ih.trans ih'

theorem read_writtenAll (ts : List ColumnToken) :
    read (ColumnToken.writtenAll ts) = pushTokens ts start := by
  rw [read, ColumnToken.readAll_writtenAll, pushTokens]

/-! ## Formats -/

/-- A format of columns with letters alone: it has its own number of columns, and no widths. -/
structure IsLettered (f : ColumnFormat) : Prop where
  pattern : f.pattern = []
  boundaries : f.boundaries.length = f.columns.length + 1
  widths : ∀ c ∈ f.columns, c.width = none

end ColumnFormat

/-- The tokens of a boundary. -/
def ColumnBoundary.tokens (b : ColumnBoundary) : List ColumnToken :=
  (if b.tight then [.tight] else []) ++ List.replicate b.rules .rule

namespace ColumnFormat

/-- The tokens of columns, each with the boundary to its right. -/
def columnTokens (columns : List (ColumnSpec × ColumnBoundary)) : List ColumnToken :=
  columns.flatMap fun (c, b) => .column c.align :: b.tokens

/-- The tokens of a format: the boundaries and the columns between them. -/
def tokens (f : ColumnFormat) : List ColumnToken :=
  match f.boundaries with
  | [] => []
  | b :: bs => b.tokens ++ columnTokens (f.columns.zip bs)

theorem changeLast_concat (g : ColumnBoundary → ColumnBoundary) (cs : List ColumnSpec)
    (bs : List ColumnBoundary) (b : ColumnBoundary) (pattern : List ColumnSpec) :
    changeLast g ⟨cs, bs ++ [b], pattern⟩ = ⟨cs, bs ++ [g b], pattern⟩ := by
  simp [changeLast]

theorem pushTokens_rules (n : Nat) (cs : List ColumnSpec) (bs : List ColumnBoundary)
    (b : ColumnBoundary) (pattern : List ColumnSpec) :
    pushTokens (List.replicate n .rule) ⟨cs, bs ++ [b], pattern⟩ =
      ⟨cs, bs ++ [{ b with rules := b.rules + n }], pattern⟩ := by
  induction n generalizing b with
  | zero => rfl
  | succ n ih =>
    have hstep : pushTokens (List.replicate (n + 1) .rule) ⟨cs, bs ++ [b], pattern⟩ =
        pushTokens (List.replicate n .rule)
          (changeLast (fun b => { b with rules := b.rules + 1 }) ⟨cs, bs ++ [b], pattern⟩) := rfl
    rw [hstep, changeLast_concat, ih, Nat.add_assoc, Nat.add_comm 1]

/-- The tokens of a boundary make a new boundary that one. -/
theorem pushTokens_boundary (b : ColumnBoundary) (cs : List ColumnSpec) (bs : List ColumnBoundary)
    (pattern : List ColumnSpec) :
    pushTokens b.tokens ⟨cs, bs ++ [({} : ColumnBoundary)], pattern⟩ =
      ⟨cs, bs ++ [b], pattern⟩ := by
  obtain ⟨rules, tight⟩ := b
  rw [ColumnBoundary.tokens, pushTokens_append, Function.comp_apply]
  cases tight with
  | false =>
    have hrules := pushTokens_rules rules cs bs {} pattern
    rw [Nat.zero_add] at hrules
    exact hrules
  | true =>
    have htight : pushTokens [.tight] ⟨cs, bs ++ [({} : ColumnBoundary)], pattern⟩ =
        changeLast (fun b => { b with tight := true })
          ⟨cs, bs ++ [({} : ColumnBoundary)], pattern⟩ := rfl
    simp only [if_true]
    rw [htight, changeLast_concat, pushTokens_rules]
    simp

/-- The tokens of columns add these columns. -/
theorem pushTokens_columnTokens {columns : List (ColumnSpec × ColumnBoundary)}
    (h : ∀ c ∈ columns, c.1.width = none) (cs : List ColumnSpec) (bs : List ColumnBoundary)
    (pattern : List ColumnSpec) :
    pushTokens (columnTokens columns) ⟨cs, bs, pattern⟩ =
      ⟨cs ++ columns.map Prod.fst, bs ++ columns.map Prod.snd, pattern⟩ := by
  induction columns generalizing cs bs with
  | nil => simp [columnTokens, pushTokens, ColumnToken.itemsAll, pushAll]
  | cons c columns ih =>
    obtain ⟨⟨align, width⟩, b⟩ := c
    rw [List.forall_mem_cons] at h
    obtain ⟨rfl, hrest⟩ := h
    have hcolumn : columnTokens ((⟨align, none⟩, b) :: columns) =
      [.column align] ++ (b.tokens ++ columnTokens columns) := rfl
    have hnew : pushTokens [.column align] ⟨cs, bs, pattern⟩ =
      ⟨cs ++ [⟨align, none⟩], bs ++ [({} : ColumnBoundary)], pattern⟩ := rfl
    rw [hcolumn, pushTokens_append, pushTokens_append]
    simp only [Function.comp_apply]
    rw [hnew, pushTokens_boundary, ih hrest]
    simp

theorem IsLettered.pushTokens_tokens {f : ColumnFormat} (h : f.IsLettered) :
    pushTokens f.tokens start = f := by
  obtain ⟨columns, boundaries, pattern⟩ := f
  obtain ⟨rfl, hlength, hwidths⟩ := h
  cases boundaries with
  | nil => simp at hlength
  | cons b bs =>
    have hlength : columns.length = bs.length := by simpa using hlength.symm
    have hzip : ∀ c ∈ columns.zip bs, c.1.width = none := fun c hc =>
      hwidths c.1 (List.of_mem_zip hc).1
    have hfirst : pushTokens b.tokens start = ⟨[], [b], []⟩ := pushTokens_boundary b [] [] []
    rw [tokens, pushTokens_append, Function.comp_apply, hfirst, pushTokens_columnTokens hzip,
      List.map_fst_zip (Nat.le_of_eq hlength), List.map_snd_zip (Nat.le_of_eq hlength.symm)]
    rfl

/-- **Column formats round-trip, with repeats.** What a format of left, centred and right columns is
written as is read as this format. Where copies of a part give way to a repeat or the other way
round, any number of times and at any depth of repeats, the format that is read does not change, if
it has fewer columns than the limit. -/
theorem reads_written :
    (∀ f : ColumnFormat, f.IsLettered → read (ColumnToken.writtenAll f.tokens) = f) ∧
    ∀ ts us, Relation.EqvGen ColumnToken.Folds ts us →
      (read (ColumnToken.writtenAll ts)).columns.length < maxColumns →
      read (ColumnToken.writtenAll us) = read (ColumnToken.writtenAll ts) := by
  refine ⟨fun f hf => ?_, fun ts us h hlt => ?_⟩
  · rw [read_writtenAll, hf.pushTokens_tokens]
  · rw [read_writtenAll] at hlt ⊢
    rw [read_writtenAll, agreeBelow_of_eqvGen h start (.inl hlt)]

/-- A centred column with a rule and two left columns, twice; one repeat stands in the other. -/
theorem reads_written_nested_repeat :
    let center : ColumnSpec := {}
    let left : ColumnSpec := { align := .left }
    let plain : ColumnBoundary := {}
    let ruled : ColumnBoundary := { rules := 1 }
    let f : ColumnFormat :=
      { columns := [center, left, left, center, left, left]
        boundaries := [plain, ruled, plain, plain, ruled, plain, plain], pattern := [] }
    let folded : List ColumnToken :=
      [.times 2 [.column .center, .rule, .times 2 [.column .left]]]
    f.IsLettered ∧ Relation.EqvGen ColumnToken.Folds f.tokens folded ∧
      (read (ColumnToken.writtenAll f.tokens)).columns.length < maxColumns ∧
      ColumnToken.writtenAll f.tokens = "c|llc|ll".toList ∧
      ColumnToken.writtenAll folded = "*{2}{c|*{2}{l}}".toList ∧
      read "c|llc|ll".toList = f ∧ read "*{2}{c|*{2}{l}}".toList = f := by
  intro center left plain ruled f folded
  have hf : f.IsLettered := ⟨rfl, rfl, by decide⟩
  have hfold : Relation.EqvGen ColumnToken.Folds f.tokens folded :=
    .trans _ _ _ (.rel _ _ (.copies [] [.column .center, .rule, .column .left, .column .left] []
        (show 2 ≤ maxColumns by decide)))
      (.rel _ _ (.inside [] [] 2 (.copies [.column .center, .rule] [.column .left] []
        (show 2 ≤ maxColumns by decide))))
  have hread := reads_written.1 f hf
  have hlt : (read (ColumnToken.writtenAll f.tokens)).columns.length < maxColumns := by
    rw [hread]
    decide
  have hplain : ColumnToken.writtenAll f.tokens = "c|llc|ll".toList := by decide
  have hfolded : ColumnToken.writtenAll folded = "*{2}{c|*{2}{l}}".toList := by decide
  exact ⟨hf, hfold, hlt, hplain, hfolded, hplain ▸ hread,
    hfolded ▸ (reads_written.2 _ _ hfold hlt).trans hread⟩

end ColumnFormat

end Typeset
