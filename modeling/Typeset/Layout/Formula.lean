import Typeset.Box.Basic
import Typeset.Environment
import Typeset.Glyph
import Typeset.Symbol

/-!
# Constructions of formulas

The boxes of scripts, limits, fractions, radicals, fences and decorations, from the boxes of their
parts. Every construction names the parts by their boxes; which style a part is set in is settled
where the atoms are laid out.

* `scriptsBox`: superscripts and subscripts beside a nucleus, with the clearance between them.
* `limitsBox`: scripts above and below an operator.
* `fractionBox`: one box above another, with or without a bar on the axis.
* `fencedBox`: delimiters that cover what they enclose.
-/

namespace Typeset

variable {α : Type} [Scalar α]

/-! ## Characters -/

/-- The measures of a character at a font size. -/
def measuresAt (c : Char) (font : Font) (size : α) : GlyphMeasures α :=
  (glyphMeasures font c).scaled size

/-- A character in the font of the environment; the italic correction counts for the width if
`withItalic` is set. -/
def charBox (c : Char) (env : Environment α) (withItalic : Bool) : Box α :=
  let m := measuresAt c env.font env.em
  .glyph c env.font env.em (if withItalic then m.width + m.italic else m.width) m.height m.depth

/-- Size factor of large operators in display style. -/
def displayOperatorScale : α := 1.4

/-- A box lowered so that its middle lies on the axis. -/
def centeredOnAxis (b : Box α) (env : Environment α) : Box α :=
  .hbox [b.withShift ((b.height - b.depth) / 2.0 - env.axisHeight)]

/-- A large operator, enlarged in display style and centred on the axis. -/
def largeOperatorBox (c : Char) (env : Environment α) : Box α :=
  let size := if env.style.isDisplay then env.em * displayOperatorScale else env.em
  let m := measuresAt c env.font size
  centeredOnAxis (.glyph c env.font size m.width m.height m.depth) env

/-- Space between words. -/
def wordSpace (env : Environment α) : Box α := .kern (3.0 * 2.0 * env.mu)

/-- A character of running text. -/
def textCharBox (font : Font) (env : Environment α) (c : Char) : Box α :=
  if c = ' ' then wordSpace env
  else
    let m := measuresAt c font env.em
    .glyph c font env.em m.width m.height m.depth

/-- Running text: its characters side by side. -/
def textBox (text : String) (font : Font) (env : Environment α) : Box α :=
  .hbox (text.toList.map (textCharBox font env))

/-! ## Scripts -/

/-- What scripts are attached to. -/
structure Nucleus (α : Type) where
  box : Box α
  /-- The italic correction, by which a superscript moves to the right. -/
  italic : α
  /-- A single character: scripts do not follow its height and depth. -/
  isChar : Bool

/-- The least rise of a superscript, before its own depth counts. -/
def supRise (n : Nucleus α) (env : Environment α) : α :=
  let rise := if n.isChar then 0.0 else n.box.height - env.sup.param 0.386
  let least := if env.style = .display then 0.413 else if env.style.cramped then 0.289 else 0.363
  Scalar.larger rise (env.param least)

/-- The rise of a superscript. -/
def supShift (n : Nucleus α) (sup : Box α) (env : Environment α) : α :=
  Scalar.larger (supRise n env) (sup.depth + env.xHeight / 4.0)

/-- The drop that the nucleus asks of a subscript. -/
def subDrop (n : Nucleus α) (env : Environment α) : α :=
  if n.isChar then 0.0 else n.box.depth + env.sub.param 0.05

/-- The drop of a subscript without a superscript. -/
def subShift (n : Nucleus α) (sub : Box α) (env : Environment α) : α :=
  Scalar.larger (Scalar.larger (subDrop n env) (env.param 0.15)) (sub.height - 0.8 * env.xHeight)

/-- The space between a superscript raised by `u` and a subscript lowered by `v`. -/
def scriptGap (sup sub : Box α) (u v : α) : α := (u - sup.depth) - (sub.height - v)

/-- The rise and the drop of both scripts. There are at least four rule thicknesses between them;
where the space is enlarged, the superscript is then raised to four fifths of the x-height, and the
subscript with it. -/
def bothShifts (n : Nucleus α) (sup sub : Box α) (env : Environment α) : α × α :=
  let clearance := 4.0 * env.ruleThickness
  let u := supShift n sup env
  let v := Scalar.larger (subDrop n env) (env.param 0.247)
  let gap := scriptGap sup sub u v
  if gap < clearance then
    let v := v + (clearance - gap)
    let psi := 0.8 * env.xHeight - (u - sup.depth)
    if 0.0 < psi then (u + psi, v - psi) else (u, v)
  else (u, v)

/-- A nucleus with its scripts. -/
def scriptsBox (n : Nucleus α) (sup sub : Option (Box α)) (env : Environment α) : Box α :=
  let after := Box.kern (env.param 0.05)
  match sup, sub with
  | none, none => n.box
  | none, some sub => .hbox [n.box, sub.withShift (subShift n sub env), after]
  | some sup, none =>
    .hbox [n.box, .kern n.italic, sup.withShift (-supShift n sup env), after]
  | some sup, some sub =>
    let (u, v) := bothShifts n sup sub env
    let column := Box.vbox
      [.hbox [.kern n.italic, sup], .vkern (scriptGap sup sub u v), sub] 0
    .hbox [n.box, column.withShift (-u), after]

/-- An operator with its scripts above and below it. -/
def limitsBox (op : Box α) (sup sub : Option (Box α)) (env : Environment α) : Box α :=
  let width := Box.columnWidth (op :: (sup.toList ++ sub.toList))
  let padding := Box.vkern (env.param 0.1)
  let above := match sup with
    | none => []
    | some sup =>
      [padding, sup.aligned width .center,
        .vkern (Scalar.larger (env.param 0.111) (env.param 0.2 - sup.depth))]
  let below := match sub with
    | none => []
    | some sub =>
      [.vkern (Scalar.larger (env.param 0.167) (env.param 0.6 - sub.height)),
        sub.aligned width .center, padding]
  .vbox (above ++ op.aligned width .center :: below) above.length

/-! ## Fractions -/

/-- Width of the empty delimiter, and of the space beside a fraction. -/
def nullDelimiterSpace (env : Environment α) : α := env.param 0.12

/-- The rise of the numerator and the drop of the denominator of a fraction with a bar. The space
between bar and boxes is at least three rule thicknesses in display styles and one in others. -/
def ruledShifts (num den : Box α) (env : Environment α) : α × α :=
  let theta := env.ruleThickness
  let axis := env.axisHeight
  let display := env.style.isDisplay
  let u := env.param (if display then 0.677 else 0.394)
  let v := env.param (if display then 0.686 else 0.345)
  let clearance := if display then 3.0 * theta else theta
  let above := (u - num.depth) - (axis + theta / 2.0)
  let below := (axis - theta / 2.0) - (den.height - v)
  (if above < clearance then u + (clearance - above) else u,
    if below < clearance then v + (clearance - below) else v)

/-- The rise of the numerator and the drop of the denominator of a fraction without a bar. There
are at least seven rule thicknesses between the boxes in display styles and three in others. -/
def unruledShifts (num den : Box α) (env : Environment α) : α × α :=
  let theta := env.ruleThickness
  let display := env.style.isDisplay
  let u := env.param (if display then 0.677 else 0.444)
  let v := env.param (if display then 0.686 else 0.345)
  let clearance := if display then 7.0 * theta else 3.0 * theta
  let gap := (u - num.depth) - (den.height - v)
  if gap < clearance then (u + (clearance - gap) / 2.0, v + (clearance - gap) / 2.0) else (u, v)

/-- A fraction, with its bar or the place of it on the axis. -/
def fractionBox (num den : Box α) (rule : Bool) (env : Environment α) : Box α :=
  let axis := env.axisHeight
  let theta := if rule then env.ruleThickness else 0.0
  let (u, v) := if rule then ruledShifts num den env else unruledShifts num den env
  let width := Scalar.larger num.width den.width
  let bar := if rule then Box.rule width (theta / 2.0) (theta / 2.0) else .strut width 0.0 0.0
  let stack := Box.vbox
    [num.aligned width .center, .vkern ((u - num.depth) - (axis + theta / 2.0)), bar,
      .vkern ((axis - theta / 2.0) - (den.height - v)), den.aligned width .center] 2
  let beside := Box.kern (nullDelimiterSpace env)
  .hbox [beside, stack.withShift (-axis), beside]

/-! ## Radicals and decorations -/

/-- A radical sign over a body, with an optional degree above its left end. -/
def radicalBox (body : Box α) (degree : Option (Box α)) (env : Environment α) : Box α :=
  let theta := env.ruleThickness
  let phi := if env.style.isDisplay then env.xHeight else theta
  let psi := theta + phi / 4.0
  let surd := Box.delimiter radicalChar (env.param 0.833) (body.height + psi + theta) body.depth
  let overbar := Box.vbox [.rule body.width theta 0.0, .vkern psi, body] 2
  let before := match degree with
    | none => []
    | some degree =>
      [.kern (5.0 * env.mu), degree.withShift (-(0.6 * (surd.height - surd.depth))),
        .kern (-(10.0 : α) * env.mu)]
  .hbox (before ++ [surd, overbar])

/-- A line three rule thicknesses above a body. -/
def overlineBox (body : Box α) (env : Environment α) : Box α :=
  let theta := env.ruleThickness
  .vbox [.vkern theta, .rule body.width theta 0.0, .vkern (3.0 * theta), body] 3

/-- A line three rule thicknesses below a body. -/
def underlineBox (body : Box α) (env : Environment α) : Box α :=
  let theta := env.ruleThickness
  .vbox [body, .vkern (3.0 * theta), .rule body.width theta 0.0, .vkern theta] 0

/-! ## Fences -/

/-- A delimiter of at least the total height `target`: the character itself if it is tall enough,
else one stretched around the axis. The empty delimiter is space. -/
def delimiterBox (d : Delimiter) (target : α) (env : Environment α) : Box α :=
  match d with
  | none => .kern (nullDelimiterSpace env)
  | some c =>
    let natural := charBox c env true
    if target ≤ natural.total then natural
    else
      let axis := env.axisHeight
      .delimiter c natural.width (target / 2.0 + axis) (Scalar.larger (target / 2.0 - axis) 0.0)

/-- The total height of delimiters around boxes of the given height and depth. -/
def fenceSize (height depth : α) (env : Environment α) : α :=
  let axis := env.axisHeight
  let delta := Scalar.larger (height - axis) (depth + axis)
  Scalar.larger (2.0 * delta * 0.901) (2.0 * delta - env.param 0.5)

/-- Boxes with delimiters of the given size between each two of them; missing ones are empty. -/
def withMiddles (target : α) (env : Environment α) : List (Box α) → List Delimiter → List (Box α)
  | [], _ => []
  | [b], _ => [b]
  | b :: bs, [] => b :: delimiterBox none target env :: withMiddles target env bs []
  | b :: bs, d :: ds => b :: delimiterBox d target env :: withMiddles target env bs ds

/-- Boxes between delimiters of one size, which covers them all. -/
def fencedBox (left right : Delimiter) (boxes : List (Box α)) (middles : List Delimiter)
    (env : Environment α) : Box α :=
  let target := fenceSize (Box.rowHeight 0.0 boxes) (Box.rowDepth 0.0 boxes) env
  .hbox (delimiterBox left target env ::
    (withMiddles target env boxes middles ++ [delimiterBox right target env]))

/-! ## Lines of text -/

/-- A line with the least height and depth of lines. -/
def lineBox (b : Box α) (env : Environment α) : Box α :=
  .hbox [.strut 0.0 (0.7 * env.em) (0.3 * env.em), b]

/-- Where line number `i` of `n` stands: as `align` says, or the first on the left, the last on the
right and the others in the middle. -/
def lineAlign (align : Option HAlign) (n i : Nat) : HAlign :=
  align.getD <|
    if n ≤ 1 then .center else if i = 0 then .left else if i + 1 = n then .right else .center

/-- Lines below each other on the baseline of the first, in the width of the widest of them or of
the text. -/
def linesBox (boxes : List (Box α)) (align : Option HAlign) (env : Environment α) : Box α :=
  let lines := boxes.map fun b => lineBox b env
  let natural := Box.columnWidth lines
  let width := match env.textWidth with
    | none => natural
    | some w => Scalar.larger w natural
  let gap := Box.vkern (env.interline.getD (0.3 * env.em))
  let placed := lines.mapIdx fun i b => b.aligned width (lineAlign align lines.length i)
  .vbox (placed.intersperse gap) 0

end Typeset
