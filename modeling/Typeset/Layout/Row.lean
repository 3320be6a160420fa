import Typeset.Box.Tint
import Typeset.Environment
import Typeset.Spacing

/-!
# Rows

Atoms side by side, with the space that their classes ask for.

* `resolveClasses`: a binary operator without an operand on both sides becomes ordinary.
* `RowItem`: an atom of a row that is laid out, declarations around it expanded.
* `rowPieces`: the boxes of a row with the space between them. Space after a binary operator or a
  relation is a place to break the line, and lies under the tints that its neighbours share.
-/

namespace Typeset

/-! ## Classes -/

/-- The first class that takes part in spacing. -/
def nextClass : List MathClass → Option MathClass
  | [] => none
  | .none :: cs => nextClass cs
  | c :: _ => some c

/-- A binary operator has a left operand after an atom of this class. -/
def isLeftOperand : Option MathClass → Bool
  | some .ord | some .closing | some .inner => true
  | _ => false

/-- A binary operator has a right operand before an atom of this class. -/
def isRightOperand : Option MathClass → Bool
  | none | some .rel | some .closing | some .punct => false
  | _ => true

/-- The classes of a row after an atom of class `prev`. A binary operator stays one only between
two operands. -/
def resolveFrom (prev : Option MathClass) : List MathClass → List MathClass
  | [] => []
  | .none :: cs => .none :: resolveFrom prev cs
  | .bin :: cs =>
    let c := if isLeftOperand prev && isRightOperand (nextClass cs) then .bin else .ord
    c :: resolveFrom (some c) cs
  | c :: cs => c :: resolveFrom (some c) cs

/-- The classes of a row. -/
def resolveClasses (cs : List MathClass) : List MathClass := resolveFrom none cs

/-! ## Boxes and the space between them -/

/-- An atom of a row, laid out. -/
structure RowItem (α : Type) where
  mathClass : MathClass
  /-- What the atom is set in; the space before it takes its style. -/
  env : Environment α
  /-- The color declarations around it, outermost first. -/
  marks : List TintMark
  box : Box α

/-- The openings that two chains start with. -/
def sharedMarks : List TintMark → List TintMark → List TintMark
  | m :: ms, n :: ns => if m.id = n.id then m :: sharedMarks ms ns else []
  | _, _ => []

variable {α : Type} [Scalar α]

/-- The space before an item of class `c`, after an atom of class `left` under the tints
`marks`. -/
def spaceBefore (left : MathClass) (marks : List TintMark) (item : RowItem α) (c : MathClass) :
    List (Tinted α) :=
  let mu := (Glue.between left c).mu item.env.style
  if mu = 0 then []
  else
    [{ box := .glue (Scalar.ofNat mu * item.env.mu) (left == .bin || left == .rel)
       marks := sharedMarks marks item.marks }]

/-- The boxes of items with resolved classes, and the space between them. `prev` is the class and
the tints of the last atom before them that takes part in spacing. -/
def rowPieces (prev : Option (MathClass × List TintMark)) :
    List (RowItem α × MathClass) → List (Tinted α)
  | [] => []
  | (item, .none) :: rest => { box := item.box, marks := item.marks } :: rowPieces prev rest
  | (item, c) :: rest =>
    (match prev with
      | none => []
      | some (left, marks) => spaceBefore left marks item c) ++
    { box := item.box, marks := item.marks } :: rowPieces (some (c, item.marks)) rest

/-- The box of a row. -/
def rowBox (items : List (RowItem α)) : Box α :=
  let classes := resolveClasses (items.map RowItem.mathClass)
  .hbox (wrapTinted (rowPieces none (items.zip classes)))

end Typeset
