import Typeset.Length
import Typeset.MathClass

/-!
# Column formats

The columns of a table and what stands between them.

* `ColumnItem`: the items of a column specification such as `|l|*{2}{c}r|`.
* `ColumnItem.readAll`: the items that a specification spells; characters that spell nothing are
  passed over.
* `ColumnFormat.push`: the columns and boundaries that the items describe, repeats written out.
* `ColumnFormat.read`: both steps.

Repeats stop before a copy once there are `maxColumns` columns.
-/

namespace Typeset

/-- One column: how its cells stand in it, and its least width. -/
structure ColumnSpec where
  align : HAlign := .center
  width : Option Length := none
  deriving DecidableEq, Repr

/-- What stands between two columns, or at an edge of the table. -/
structure ColumnBoundary where
  /-- The number of vertical rules. -/
  rules : Nat := 0
  /-- No space stands beside the rules. -/
  tight : Bool := false
  deriving DecidableEq, Repr

/-- Repeats add no copy once there are this many columns. -/
def maxColumns : Nat := 256

/-- An item of a column specification. -/
inductive ColumnItem where
  | rule
  | tight
  | column (spec : ColumnSpec)
  | times (count : Nat) (items : List ColumnItem)

namespace ColumnItem

/-- The alignment that a column letter stands for. -/
def alignOf? (c : Char) : Option HAlign :=
  match c with
  | 'l' => some .left
  | 'c' => some .center
  | 'r' => some .right
  | 'p' | 'm' | 'b' => some .left
  | _ => none

/-- The content of the group whose opening brace has been read `depth` groups deep, and what
follows it. A group that is not closed extends to the end. -/
def closeGroup : Nat → List Char → List Char × List Char
  | _, [] => ([], [])
  | depth, '{' :: cs =>
    let (body, rest) := closeGroup (depth + 1) cs
    ('{' :: body, rest)
  | 0, '}' :: cs => ([], cs)
  | depth + 1, '}' :: cs =>
    let (body, rest) := closeGroup depth cs
    ('}' :: body, rest)
  | depth, c :: cs =>
    let (body, rest) := closeGroup depth cs
    (c :: body, rest)

/-- The content of the group that starts the text, if one does, and what follows it. -/
def readGroup : List Char → Option (List Char) × List Char
  | '{' :: cs => let (body, rest) := closeGroup 0 cs; (some body, rest)
  | cs => (none, cs)

theorem closeGroup_length (depth : Nat) (cs : List Char) :
    (closeGroup depth cs).1.length + (closeGroup depth cs).2.length ≤ cs.length := by
  fun_induction closeGroup depth cs <;> simp_all <;> omega

/-- What a group leaves to read is no longer than the text. -/
theorem readGroup_rest_length (cs : List Char) : (readGroup cs).2.length ≤ cs.length := by
  unfold readGroup
  split
  · have := closeGroup_length 0 ‹_›
    simp only [List.length_cons]
    omega
  · exact Nat.le_refl _

/-- The content of a group and what follows it are together shorter than the text. -/
theorem readGroup_body_length {cs body : List Char} (h : (readGroup cs).1 = some body) :
    body.length + (readGroup cs).2.length < cs.length := by
  unfold readGroup at h ⊢
  split at h
  · rename_i cs'
    have := closeGroup_length 0 cs'
    simp only [Option.some.injEq] at h
    subst h
    simp only [List.length_cons]
    omega
  · exact absurd h (by simp)

/-- The items of a specification. A width follows its letter in braces; `@{}` closes the space of a
boundary; `*{n}{items}` repeats; decorations after `>`, `<` and `!` are passed over. -/
def readAll : List Char → List ColumnItem
  | [] => []
  | '|' :: cs => .rule :: readAll cs
  | '@' :: cs =>
    let rest := readAll (readGroup cs).2
    if (readGroup cs).1.map Text.trim = some [] then .tight :: rest else rest
  | '*' :: cs =>
    match _h : (readGroup (readGroup cs).2).1 with
    | none => readAll (readGroup (readGroup cs).2).2
    | some body =>
      let items := readAll body
      let rest := readAll (readGroup (readGroup cs).2).2
      match (readGroup cs).1.bind fun n => Text.readNat? (Text.trim n) with
      | none => rest
      | some count => .times count items :: rest
  | c :: cs =>
    if c = '>' ∨ c = '<' ∨ c = '!' then readAll (readGroup cs).2
    else if c = 'p' ∨ c = 'm' ∨ c = 'b' then
      .column { align := .left, width := (readGroup cs).1.bind Length.read? } ::
        readAll (readGroup cs).2
    else match alignOf? c with
      | some align => .column { align } :: readAll cs
      | none => readAll cs
termination_by cs => cs.length
decreasing_by
  all_goals grind [readGroup_rest_length, → readGroup_body_length]

end ColumnItem

/-- The columns of a table. A format without columns takes their number from the rows and goes
round `pattern` for their alignments. There is one boundary more than there are columns. -/
structure ColumnFormat where
  columns : List ColumnSpec
  boundaries : List ColumnBoundary
  pattern : List ColumnSpec
  deriving DecidableEq, Repr

namespace ColumnFormat

/-- No column yet, and the left edge. -/
def start : ColumnFormat := { columns := [], boundaries := [{}], pattern := [] }

/-- As many columns as the rows need, with alignments from a pattern. -/
def natural (pattern : List ColumnSpec) : ColumnFormat := { start with pattern }

/-- As many centred columns as the rows need. -/
def centered : ColumnFormat := natural [{}]

/-- A further column and the boundary to its right. -/
def addColumn (f : ColumnFormat) (c : ColumnSpec) : ColumnFormat :=
  { f with columns := f.columns ++ [c], boundaries := f.boundaries ++ [{}] }

/-- The format with its last boundary changed. -/
def changeLast (g : ColumnBoundary → ColumnBoundary) (f : ColumnFormat) : ColumnFormat :=
  { f with boundaries := f.boundaries.dropLast ++ (f.boundaries.getLast?.toList.map g) }

/-- `count` applications of `step`, none of them to a format with `maxColumns` columns. -/
def repeatUpTo (step : ColumnFormat → ColumnFormat) : Nat → ColumnFormat → ColumnFormat
  | 0, f => f
  | count + 1, f =>
    if maxColumns ≤ f.columns.length then f else repeatUpTo step count (step f)

mutual

/-- The format with one more item. -/
def push : ColumnItem → ColumnFormat → ColumnFormat
  | .rule, f => f.changeLast fun b => { b with rules := b.rules + 1 }
  | .tight, f => f.changeLast fun b => { b with tight := true }
  | .column c, f => f.addColumn c
  | .times count items, f => repeatUpTo (pushAll items) (min count maxColumns) f

/-- The format with more items. -/
def pushAll : List ColumnItem → ColumnFormat → ColumnFormat
  | [], f => f
  | item :: items, f => pushAll items (push item f)

end

/-- The format of a column specification. -/
def read (spec : List Char) : ColumnFormat := pushAll (ColumnItem.readAll spec) start

/-- The number of columns, if the format gives it. -/
def declared (f : ColumnFormat) : Option Nat :=
  if f.columns = [] then none else some f.columns.length

/-- Column number `i`. -/
def column (f : ColumnFormat) (i : Nat) : ColumnSpec :=
  match f.columns[i]? with
  | some c => c
  | none => (f.pattern[i % f.pattern.length]?).getD {}

/-- The boundary to the left of column number `i`. -/
def boundary (f : ColumnFormat) (i : Nat) : ColumnBoundary :=
  if f.columns = [] then {} else (f.boundaries[i]?).getD {}

end ColumnFormat

end Typeset
