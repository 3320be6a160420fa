import Typeset.Proofs.Box.Characters
import Typeset.Proofs.Layout.Measured
import Typeset.Proofs.Table.Checked

/-!
# Layout draws every character once

The box of an atom has the characters that the atom's parts ask for, each as often as they do:
whatever place a part has, it is laid out, and laid out once.

* `Atom.characters`: the characters that an atom and its parts ask for.
* `Atom.IsDrawable`: no part of the atom has more or fewer pieces than there are places for.
* `characters_fractionBox`, `characters_fencedBox`, `characters_gridBox` and their like: the
  constructions keep the characters of the boxes they are given.
* `characters_layout`: the characters of the box of an atom, by induction over the atom.
-/

namespace Typeset

open Box

/-! ## The characters that an atom asks for -/

/-- The characters of a written text: spaces are not drawn. -/
def writtenCharacters (text : String) : Multiset Char := ↑(text.toList.filter (· ≠ ' '))

/-- The character of a delimiter: the empty delimiter has none. -/
def delimiterCharacter (d : Delimiter) : Multiset Char := ↑d.toList

/-- The characters of delimiters. -/
def delimiterCharacters (ds : List Delimiter) : Multiset Char := (ds.map delimiterCharacter).sum

@[simp] theorem delimiterCharacters_nil : delimiterCharacters [] = 0 := rfl

@[simp] theorem delimiterCharacters_cons (d : Delimiter) (ds : List Delimiter) :
    delimiterCharacters (d :: ds) = delimiterCharacter d + delimiterCharacters ds := by
  simp [delimiterCharacters]

@[simp] theorem delimiterCharacters_append (ds es : List Delimiter) :
    delimiterCharacters (ds ++ es) = delimiterCharacters ds + delimiterCharacters es := by
  simp [delimiterCharacters]

namespace Atom

/-- The characters that the atom asks for itself, its parts apart. -/
def ownCharacters : Atom → Multiset Char
  | .symbol c _ => {c}
  | .text s _ | .operator s _ => writtenCharacters s
  | .bigDelimiter d _ _ => delimiterCharacter d
  | .fenced left right _ middles => delimiterCharacters (left :: (middles ++ [right]))
  | .array _ options => delimiterCharacters [options.left, options.right]
  | .radical .. => {'\u221a'}
  | _ => 0

/-- The characters that the atom and its parts ask for. -/
def characters (a : Atom) : Multiset Char := (a.parts.map ownCharacters).sum

/-- The characters that atoms and their parts ask for. -/
def charactersOfAll (atoms : List Atom) : Multiset Char := (atoms.map characters).sum

@[simp] theorem charactersOfAll_nil : charactersOfAll [] = 0 := rfl

@[simp] theorem charactersOfAll_cons (a : Atom) (atoms : List Atom) :
    charactersOfAll (a :: atoms) = a.characters + charactersOfAll atoms := by
  simp [charactersOfAll]

@[simp] theorem charactersOfAll_append (as bs : List Atom) :
    charactersOfAll (as ++ bs) = charactersOfAll as + charactersOfAll bs := by
  simp [charactersOfAll]

/-- An atom asks for its own characters and those of its children. -/
theorem characters_eq (a : Atom) :
    a.characters = a.ownCharacters + charactersOfAll a.children := by
  have hparts (atoms : List Atom) :
      ((atoms.flatMap parts).map ownCharacters).sum = charactersOfAll atoms := by
    induction atoms with
    | nil => rfl
    | cons a atoms ih => simp [ih, characters]
  rw [characters, parts, List.map_cons, List.sum_cons, inside_eq, hparts]

/-! ## Atoms that are drawn as a whole -/

/-- There is a place for every piece of the atom: a fence has one more segment than inner
delimiters, and a table has rows and columns, and a cell in every column of every row. -/
def isComplete : Atom → Bool
  | .fenced _ _ segments middles => segments.length == middles.length + 1
  | .array table _ =>
    decide table.IsChecked && decide (0 < table.rows.length) && decide (0 < table.columnCount)
  | _ => true

/-- There is a place for every piece of the atom and of its parts. -/
def IsDrawable (a : Atom) : Prop := ∀ p ∈ a.parts, p.isComplete = true

instance (a : Atom) : Decidable a.IsDrawable :=
  inferInstanceAs (Decidable (∀ p ∈ a.parts, p.isComplete = true))

theorem IsDrawable.isComplete {a : Atom} (h : a.IsDrawable) : a.isComplete = true :=
  h a (List.mem_cons_self ..)

theorem IsDrawable.child {a b : Atom} (h : a.IsDrawable) (hb : b ∈ a.children) :
    b.IsDrawable :=
  fun p hp => h p (mem_parts_of_mem_children hb hp)

end Atom

variable {α : Type} [Scalar α]

/-! ## Characters and texts -/

@[simp] theorem characters_charBox (c : Char) (env : Environment α) (withItalic : Bool) :
    (charBox c env withItalic).characters = {c} := by
  rw [charBox, characters_glyph]

@[simp] theorem characters_centeredOnAxis (b : Box α) (env : Environment α) :
    (centeredOnAxis b env).characters = b.characters := by
  simp [centeredOnAxis]

@[simp] theorem characters_largeOperatorBox (c : Char) (env : Environment α) :
    (largeOperatorBox c env).characters = {c} := by
  simp [largeOperatorBox]

@[simp] theorem characters_textBox (text : String) (font : Font) (env : Environment α) :
    (textBox text font env).characters = writtenCharacters text := by
  rw [textBox, writtenCharacters, characters_hbox]
  induction text.toList with
  | nil => simp
  | cons c cs ih =>
    rw [List.map_cons, Box.charactersOfAll_cons, ih, textCharBox]
    split
    · rename_i hc
      simp [wordSpace, hc]
    · rename_i hc
      simp [hc]

/-! ## Scripts -/

theorem characters_scriptsBox (n : Nucleus α) (sup sub : Option (Box α)) (env : Environment α) :
    (scriptsBox n sup sub env).characters =
      n.box.characters + Box.charactersOfAll sup.toList + Box.charactersOfAll sub.toList := by
  cases sup with
  | none => cases sub <;> simp [scriptsBox]
  | some sup =>
    cases sub with
    | none => simp [scriptsBox]
    | some sub =>
      unfold scriptsBox
      generalize bothShifts n sup sub env = shifts
      simp [add_assoc]

theorem characters_limitsBox (op : Box α) (sup sub : Option (Box α)) (env : Environment α) :
    (limitsBox op sup sub env).characters =
      op.characters + Box.charactersOfAll sup.toList + Box.charactersOfAll sub.toList := by
  cases sup <;> cases sub <;> simp [limitsBox] <;> abel

/-! ## Fractions, radicals and decorations -/

theorem characters_fractionBox (num den : Box α) (rule : Bool) (env : Environment α) :
    (fractionBox num den rule env).characters = num.characters + den.characters := by
  have hbar (w t : α) :
      (if rule = true then Box.rule w t t else strut w 0.0 0.0).characters = 0 := by
    split <;> simp
  simp [fractionBox, hbar]

theorem characters_radicalBox (body : Box α) (degree : Option (Box α)) (env : Environment α) :
    (radicalBox body degree env).characters =
      {radicalChar} + body.characters + Box.charactersOfAll degree.toList := by
  cases degree <;> simp [radicalBox, add_comm]

theorem characters_overlineBox (body : Box α) (env : Environment α) :
    (overlineBox body env).characters = body.characters := by
  simp [overlineBox]

theorem characters_underlineBox (body : Box α) (env : Environment α) :
    (underlineBox body env).characters = body.characters := by
  simp [underlineBox]

/-! ## Fences -/

@[simp] theorem characters_delimiterBox (d : Delimiter) (target : α) (env : Environment α) :
    (delimiterBox d target env).characters = delimiterCharacter d := by
  cases d with
  | none => simp [delimiterBox, delimiterCharacter]
  | some c =>
    unfold delimiterBox
    simp only
    split <;> simp [delimiterCharacter]

/-- Between one box more than there are delimiters, every delimiter has its place. -/
theorem charactersOfAll_withMiddles {bs : List (Box α)} {ds : List Delimiter}
    (h : bs.length = ds.length + 1) (target : α) (env : Environment α) :
    Box.charactersOfAll (withMiddles target env bs ds) =
      Box.charactersOfAll bs + delimiterCharacters ds := by
  fun_induction withMiddles target env bs ds with
  | case1 => simp at h
  | case2 b ds =>
    obtain rfl : ds = [] := List.eq_nil_of_length_eq_zero (by simpa using h.symm)
    simp
  | case3 b bs hne => simp_all
  | case4 b bs d ds _ ih =>
    simp [ih (by simpa using h), add_left_comm, add_assoc]

theorem characters_fencedBox (left right : Delimiter) {boxes : List (Box α)}
    {middles : List Delimiter} (h : boxes.length = middles.length + 1) (env : Environment α) :
    (fencedBox left right boxes middles env).characters =
      Box.charactersOfAll boxes + delimiterCharacters (left :: (middles ++ [right])) := by
  simp [fencedBox, charactersOfAll_withMiddles h, add_left_comm, add_assoc]

/-! ## Lines -/

theorem characters_linesBox (boxes : List (Box α)) (align : Option HAlign) (env : Environment α) :
    (linesBox boxes align env).characters = Box.charactersOfAll boxes := by
  have hplaced (place : Nat → HAlign) (width : α) (bs : List (Box α)) :
      Box.charactersOfAll ((bs.map fun b => lineBox b env).mapIdx
        fun i b => b.aligned width (place i)) = Box.charactersOfAll bs := by
    induction bs generalizing place with
    | nil => simp
    | cons b bs ih =>
      rw [List.map_cons, List.mapIdx_cons, Box.charactersOfAll_cons, ih fun i => place (i + 1)]
      simp [lineBox]
  rw [linesBox, characters_vbox, charactersOfAll_intersperse (characters_vkern _)]
  exact hplaced (lineAlign align _) _ boxes

/-! ## Tables -/

namespace Grid

variable (g : Grid α)

theorem charactersOfAll_boundary (j : Nat) (height depth : α) :
    Box.charactersOfAll (g.boundary j height depth) = 0 := by
  have hrules : Box.charactersOfAll (List.replicate (g.ruleCount j)
      (Box.rule g.thickness height depth)) = 0 :=
    charactersOfAll_eq_zero fun b hb => by rw [List.eq_of_mem_replicate hb, characters_rule]
  rw [boundary, Box.charactersOfAll_cons, Box.charactersOfAll_append,
    charactersOfAll_intersperse (characters_kern _), hrules]
  simp

@[simp] theorem characters_ruleBox (span : Option (Nat × Nat)) :
    (g.ruleBox span).characters = 0 := by
  unfold ruleBox
  split
  · simp
  · simp

end Grid

@[simp] theorem characters_overColor (bg : Option Color) (b : Box α) :
    (overColor bg b).characters = b.characters := by
  cases bg <;> simp [overColor]

theorem charactersOfAll_cellBoxes (f : ColumnFormat) (g : Grid α) (height depth : α) (j : Nat)
    (cells : List (Option Color × Box α)) :
    Box.charactersOfAll (cellBoxes f g height depth j cells) =
      Box.charactersOfAll (cells.map Prod.snd) := by
  fun_induction cellBoxes f g height depth j cells with
  | case1 j => simp [g.charactersOfAll_boundary]
  | case2 j color b cells ih => simp [g.charactersOfAll_boundary, cellBox, ih]

theorem characters_gridRowBox {A : Type} (f : ColumnFormat) (g : Grid α)
    (strutHeight strutDepth : α) {row : TableRow A} {boxes : List (Box α)}
    (h : row.cells.length = boxes.length) :
    (gridRowBox f g strutHeight strutDepth row boxes).characters = Box.charactersOfAll boxes := by
  rw [gridRowBox, characters_overColor, characters_hbox, charactersOfAll_cellBoxes,
    List.map_snd_zip (by simp [h])]

theorem charactersOfAll_gridRowBoxes {A : Type} (f : ColumnFormat) (g : Grid α)
    (em strutHeight strutDepth : α) (columns : Nat) {row : TableRow A} {boxes : List (Box α)}
    (h : row.cells.length = boxes.length) :
    Box.charactersOfAll (gridRowBoxes f g em strutHeight strutDepth columns row boxes) =
      Box.charactersOfAll boxes := by
  have hrules : Box.charactersOfAll (row.rules.map fun r => g.ruleBox (r.span columns)) = 0 :=
    charactersOfAll_eq_zero (by simp)
  have hgap : Box.charactersOfAll
      (row.gap.toList.map fun gap => (vkern (gap.points em) : Box α)) = 0 :=
    charactersOfAll_eq_zero (by simp)
  rw [gridRowBoxes, Box.charactersOfAll_append, Box.charactersOfAll_cons, hrules, hgap,
    characters_gridRowBox f g _ _ h, zero_add, add_zero]

/-- Rows with a box for every cell have the characters of these boxes. -/
theorem charactersOfAll_rows {A : Type} (f : ColumnFormat) (g : Grid α)
    (em strutHeight strutDepth : α) (columns : Nat) {rows : List (TableRow A)}
    {cells : List (List (Box α))}
    (h : List.Forall₂ (fun row boxes => row.cells.length = boxes.length) rows cells) :
    Box.charactersOfAll ((rows.zip cells).map fun (row, boxes) =>
      gridRowBoxes f g em strutHeight strutDepth columns row boxes).flatten =
    Box.charactersOfAll cells.flatten := by
  induction h with
  | nil => rfl
  | cons hrow _ ih =>
    rw [List.zip_cons_cons, List.map_cons, List.flatten_cons, Box.charactersOfAll_append, ih,
      charactersOfAll_gridRowBoxes f g _ _ _ _ hrow, List.flatten_cons, Box.charactersOfAll_append]

/-- A table with a box for every cell has the characters of these boxes and of its fence. -/
theorem characters_gridBox {A : Type} (t : Table A) (o : TableOptions) (env : Environment α)
    (columns : Nat) {cells : List (List (Box α))}
    (h : List.Forall₂ (fun row boxes => row.cells.length = boxes.length) t.rows cells) :
    (gridBox t o env columns cells).characters =
      Box.charactersOfAll cells.flatten + delimiterCharacters [o.left, o.right] := by
  have htrailing (g : Grid α) :
      Box.charactersOfAll (t.trailing.map fun r => g.ruleBox (r.span columns)) = 0 :=
    charactersOfAll_eq_zero (by simp)
  unfold gridBox
  simp only
  split
  · simp [charactersOfAll_rows, h, htrailing, add_left_comm]
  · rename_i hfence
    have hnone : delimiterCharacters [o.left, o.right] = 0 := by
      simp only [TableOptions.isFenced, Bool.or_eq_true, Option.isSome_iff_ne_none, ne_eq,
        not_or, not_not] at hfence
      simp [hfence, delimiterCharacter]
    simp [charactersOfAll_rows, h, htrailing, hnone]

/-- A checked table with rows and columns is laid out as a grid of its cells. -/
theorem Table.IsChecked.tableBox_eq {A : Type} {t : Table A} (h : t.IsChecked)
    (hrows : 0 < t.rows.length) (hcolumns : 0 < t.columnCount) (o : TableOptions)
    (env : Environment α) (cells : List (List (Box α))) :
    tableBox t o env cells = .ok (gridBox t o env (layoutColumns t) cells) := by
  obtain ⟨first, rows, hr⟩ := List.exists_cons_of_length_pos hrows
  have hlayout : layoutColumns t ≠ 0 := by
    rw [h.layoutColumns_eq]
    exact Nat.ne_of_gt hcolumns
  have hne : ¬(t.rows.isEmpty = true ∨ layoutColumns t = 0) := by simp [hr, hlayout]
  simp only [tableBox, h.firstUneven_eq_none, if_neg hne]

/-! ## Rows -/

/-- The space between the boxes of a row has no characters. -/
theorem charactersOfAll_rowPieces (prev : Option (MathClass × List TintMark))
    (items : List (RowItem α × MathClass)) :
    Box.charactersOfAll ((rowPieces prev items).map Tinted.box) =
      Box.charactersOfAll (items.map fun i => i.1.box) := by
  have hspace (left c : MathClass) (marks : List TintMark) (item : RowItem α) :
      Box.charactersOfAll ((spaceBefore left marks item c).map Tinted.box) = 0 := by
    unfold spaceBefore
    simp only
    split <;> simp
  fun_induction rowPieces prev items with
  | case1 => simp
  | case2 prev item rest ih => simp [ih]
  | case3 prev item c rest _ ih =>
    cases prev with
    | none => simp [ih]
    | some p => simp [ih, hspace]

theorem resolveFrom_length (prev : Option MathClass) (cs : List MathClass) :
    (resolveFrom prev cs).length = cs.length := by
  fun_induction resolveFrom prev cs with
  | case1 => rfl
  | case2 prev cs ih | case4 prev c cs _ _ ih => simp [ih]
  | case3 prev cs c ih => simp [ih]

theorem characters_rowBox (items : List (RowItem α)) :
    (rowBox items).characters = Box.charactersOfAll (items.map RowItem.box) := by
  rw [rowBox, characters_hbox, charactersOfAll_wrapTinted, charactersOfAll_rowPieces]
  congr 1
  rw [← Function.comp_def RowItem.box, ← List.map_map, List.map_fst_zip]
  simp [resolveClasses, resolveFrom_length]

/-! ## Atoms -/

namespace Atom

/-- Scripts are attached to a box with the characters of the base. -/
theorem characters_nucleus {base : Atom} {env : Environment α}
    (h : (base.layout env).characters = base.characters) (hasSup : Bool) :
    (base.nucleus (base.layout env) hasSup env).box.characters = base.characters := by
  unfold nucleus
  split
  · rename_i c k
    split
    · exact h
    · rw [characters_charBox, characters_eq]
      simp [ownCharacters, children]
  · exact h

theorem layoutAll_length (atoms : List Atom) (env : Environment α) :
    (layoutAll atoms env).length = atoms.length := by
  induction atoms with
  | nil => rw [layoutAll]; rfl
  | cons a atoms ih => rw [layoutAll, List.length_cons, List.length_cons, ih]

/-- Every row of a table has a box for every cell. -/
theorem forall₂_layoutRows (rows : List (TableRow Atom)) (env : Environment α) :
    List.Forall₂ (fun row boxes => row.cells.length = boxes.length) rows
      (layoutRows rows env) := by
  have hcells (cells : List (Cell Atom)) :
      cells.length = (layoutCells cells env : List (Box α)).length := by
    induction cells with
    | nil => rw [layoutCells]; rfl
    | cons c cells ih => rw [layoutCells, List.length_cons, List.length_cons, ih]
  induction rows with
  | nil =>
    rw [layoutRows]
    exact .nil
  | cons r rows ih =>
    rw [layoutRows]
    exact .cons (hcells r.cells) ih

mutual

/-- The box of an atom has the characters that the atom and its parts ask for. -/
theorem characters_layout (a : Atom) (h : a.IsDrawable) (env : Environment α) :
    (a.layout env).characters = a.characters := by
  have hchild {b : Atom} (hb : b ∈ a.children) : b.IsDrawable := h.child hb
  rw [characters_eq]
  cases a with
  | empty | hrule | cellColor | rowColor | space => simp [layout, ownCharacters, children]
  | symbol c k =>
    rw [layout]
    split <;> simp [ownCharacters, children]
  | row atoms =>
    rw [layout, characters_rowBox, characters_rowItems atoms (fun b hb => hchild hb)]
    simp [ownCharacters, children]
  | scripts base sup sub =>
    have hbase := characters_layout base (hchild (by simp [children])) env
    have hsup := characters_layoutOption sup (fun b hb => hchild (by simp_all [children])) env.sup
    have hsub := characters_layoutOption sub (fun b hb => hchild (by simp_all [children])) env.sub
    rw [layout]
    split
    · rw [characters_limitsBox, hbase, hsup, hsub]
      simp [ownCharacters, children, add_assoc]
    · rw [characters_scriptsBox, characters_nucleus hbase, hsup, hsub]
      simp [ownCharacters, children, add_assoc]
  | fraction num den bar =>
    rw [layout, characters_fractionBox,
      characters_layout num (hchild (by simp [children])),
      characters_layout den (hchild (by simp [children]))]
    simp [ownCharacters, children]
  | radical body degree =>
    rw [layout, characters_radicalBox, characters_layout body (hchild (by simp [children])),
      characters_layoutOption degree (fun b hb => hchild (by simp_all [children]))]
    simp [ownCharacters, children, radicalChar]
  | color body | framed body | styled _ body | font _ body | classed _ body | limits body
  | vcentered body =>
    rw [layout]
    simp [characters_layout body (hchild (by simp [children])), ownCharacters, children]
  | array table options =>
    obtain ⟨format, rows, trailing⟩ := table
    have hcomplete := h.isComplete
    simp only [isComplete, Bool.and_eq_true, decide_eq_true_eq] at hcomplete
    obtain ⟨⟨hchecked, hrows⟩, hcolumns⟩ := hcomplete
    rw [layout, hchecked.tableBox_eq hrows hcolumns]
    simp only
    rw [characters_gridBox _ _ _ _ (forall₂_layoutRows rows _),
      characters_layoutRows rows (fun b hb => hchild hb), add_comm]
    simp [ownCharacters, children, Table.contents]
  | fenced left right segments middles =>
    have hlength : (layoutAll segments env).length = middles.length + 1 :=
      (layoutAll_length segments env).trans (eq_of_beq h.isComplete)
    rw [layout, characters_fencedBox _ _ hlength,
      characters_layoutAll segments (fun b hb => hchild hb), add_comm]
    simp [ownCharacters, children]
  | bigDelimiter d size k => simp [layout, ownCharacters, children]
  | lines parts align =>
    rw [layout, characters_linesBox, characters_layoutAll parts (fun b hb => hchild hb)]
    simp [ownCharacters, children]
  | switch kind body =>
    rw [layout]
    simp only
    rw [characters_rowBox, characters_rowItems body (fun b hb => hchild hb)]
    simp [ownCharacters, children]
  | text | operator => simp [layout, ownCharacters, children]
  | decorated body decoration =>
    cases decoration <;>
      simp [layout, characters_overlineBox, characters_underlineBox,
        characters_layout body (hchild (by simp [children])), ownCharacters, children]
  | rule width height raise => simp [layout, ownCharacters, children]

theorem characters_layoutOption (o : Option Atom) (h : ∀ a ∈ o, a.IsDrawable)
    (env : Environment α) :
    Box.charactersOfAll (layoutOption o env).toList = charactersOfAll o.toList := by
  cases o with
  | none => simp [layoutOption]
  | some a => simp [layoutOption, characters_layout a (h a rfl) env]

theorem characters_layoutAll (atoms : List Atom) (h : ∀ a ∈ atoms, a.IsDrawable)
    (env : Environment α) :
    Box.charactersOfAll (layoutAll atoms env) = charactersOfAll atoms := by
  cases atoms with
  | nil => simp [layoutAll]
  | cons a atoms =>
    rw [List.forall_mem_cons] at h
    simp [layoutAll, characters_layout a h.1 env, characters_layoutAll atoms h.2 env]

theorem characters_rowItems (atoms : List Atom) (h : ∀ a ∈ atoms, a.IsDrawable)
    (env : Environment α) (marks : List TintMark) (next : Nat) :
    Box.charactersOfAll ((rowItems atoms env marks next).1.map RowItem.box) =
      charactersOfAll atoms := by
  cases atoms with
  | nil => simp [rowItems]
  | cons a atoms =>
    rw [List.forall_mem_cons] at h
    cases a with
    | switch kind body =>
      have hbody : (switch kind body).characters = charactersOfAll body := by
        rw [characters_eq]
        simp [ownCharacters, children]
      rw [rowItems]
      simp [characters_rowItems body (fun b hb => h.1.child hb),
        characters_rowItems atoms h.2, hbody]
    | _ =>
      rw [rowItems]
      · simp [characters_layout _ h.1 env, characters_rowItems atoms h.2]
      · rintro _ _ ⟨⟩

theorem characters_layoutCells (cells : List (Cell Atom))
    (h : ∀ a ∈ cells.map Cell.content, a.IsDrawable) (env : Environment α) :
    Box.charactersOfAll (layoutCells cells env) = charactersOfAll (cells.map Cell.content) := by
  cases cells with
  | nil => simp [layoutCells]
  | cons c cells =>
    obtain ⟨content, color⟩ := c
    rw [List.map_cons, List.forall_mem_cons] at h
    simp [layoutCells, characters_layout content h.1 env, characters_layoutCells cells h.2 env]

theorem characters_layoutRows (rows : List (TableRow Atom))
    (h : ∀ a ∈ rows.flatMap (fun r => r.cells.map Cell.content), a.IsDrawable)
    (env : Environment α) :
    Box.charactersOfAll (layoutRows rows env).flatten =
      charactersOfAll (rows.flatMap fun r => r.cells.map Cell.content) := by
  cases rows with
  | nil => simp [layoutRows]
  | cons r rows =>
    obtain ⟨cells, rules, color, gap⟩ := r
    rw [List.flatMap_cons, List.forall_mem_append] at h
    simp [layoutRows, characters_layoutCells cells h.1 env, characters_layoutRows rows h.2 env]

end

end Atom

/-- **Layout draws every character once.** In every environment, the box of an atom has the
characters of all its parts, each as often as the parts ask for it: that of every sign, those of
every text and written operator without the spaces, every delimiter that is not empty, and a radical
sign for every radical. The strokes of the box draw the same characters. -/
theorem layout_draws_characters (a : Atom) (h : a.IsDrawable) (env : Environment α) :
    (a.layout env).characters = a.characters ∧
      ∀ (fg : Color) (x y : α), (↑((((a.layout env).draw fg x y).filterMap DrawCall.ink?).map
        Ink.character) : Multiset Char) = a.characters := by
  have hlayout := a.characters_layout h env
  refine ⟨hlayout, fun fg x y => ?_⟩
  rw [filterMap_draw, coe_map_character_ink, hlayout]

/-- A fence without a right delimiter around a radical over `a b` with a degree, and a table between
brackets. -/
theorem layout_draws_characters_fenced_table :
    let a : Atom := .row [
      .fenced (some '(') none [.radical (.text "a b" {}) (some (.ofChar '3')), .empty] [some '|'],
      .array { format := .centered, rows := [{ cells := [{ content := .ofChar 'x' }] }] }
        { left := some '[', right := some ']' }]
    let env : Environment Float := { style := .display, size := 20.0 }
    a.IsDrawable ∧ (a.layout env).characters =
      ↑['\u221a', '3', 'a', 'b', '(', '|', '[', ']', 'x'] := by
  intro a env
  have hdrawable : a.IsDrawable := by
    decide
  refine ⟨hdrawable, (layout_draws_characters a hdrawable env).1.trans ?_⟩
  decide

end Typeset
