import Typeset.Atom
import Typeset.Layout.Grid
import Typeset.Layout.Row

/-!
# Layout

The box of an atom in an environment. Every atom has one.

* `Atom.layout`: the box of an atom; each part is set in the environment that its place asks for.
* `Atom.rowItems`: the atoms of a row. A declaration is no part of its own: its atoms join the row
  around it, in the environment that it makes.
-/

namespace Typeset

variable {α : Type} [Scalar α]

/-- What the atoms after a declaration are set in: their environment, the color declarations
around them, and the number of the next opening of a tint. -/
def SwitchKind.enter (kind : SwitchKind) (env : Environment α) (marks : List TintMark)
    (next : Nat) : Environment α × List TintMark × Nat :=
  match kind with
  | .style s => (env.withStyle s, marks, next)
  | .font c => (env.withFont (c.apply env.font), marks, next)
  | .color c => (env, marks ++ [{ id := next, tint := { fg := some c, bg := none } }], next + 1)

namespace Atom

/-- What scripts are attached to: a character of its own kind, or any other box. The italic
correction belongs to the character unless a superscript follows. -/
def nucleus (base : Atom) (box : Box α) (hasSup : Bool) (env : Environment α) : Nucleus α :=
  match base with
  | .symbol c k =>
    if (symbol c k).isLargeOperator then { box, italic := 0.0, isChar := false }
    else
      { box := charBox c env (!hasSup), italic := (measuresAt c env.font env.em).italic
        isChar := true }
  | _ => { box, italic := 0.0, isChar := false }

mutual

/-- The box of an atom. -/
def layout : Atom → Environment α → Box α
  | .empty, _ | .hrule _, _ | .cellColor _, _ | .rowColor _, _ => .empty
  | .symbol c k, env =>
    if (symbol c k).isLargeOperator then largeOperatorBox c env else charBox c env true
  | .row atoms, env => rowBox (rowItems atoms env [] 0).1
  | .scripts base sup sub, env =>
    let box := base.layout env
    let above := layoutOption sup env.sup
    let below := layoutOption sub env.sub
    if base.takesLimits env.style then limitsBox box above below env
    else scriptsBox (base.nucleus box sup.isSome env) above below env
  | .fraction num den bar, env => fractionBox (num.layout env.num) (den.layout env.den) bar env
  | .radical body degree, env =>
    radicalBox (body.layout env.cramped) (layoutOption degree (env.withStyle .scriptScript)) env
  | .color body fg bg, env => (body.layout env).colored fg bg
  | .framed body ruled frame bg, env =>
    (body.layout env).framed (if ruled then env.ruleThickness else 0.0) (env.param 0.3) frame bg
  | .array table options, env =>
    match tableBox table options env (layoutRows table.rows (env.withStyle options.style)) with
    | .ok box => box
    | .error _ => .empty
  | .fenced left right segments middles, env =>
    fencedBox left right (layoutAll segments env) middles env
  | .bigDelimiter c size _, env => delimiterBox c (env.param size.value) env
  | .lines parts align, env => linesBox (layoutAll parts env) align env
  | .styled s body, env => body.layout (env.withStyle s)
  | .font c body, env => body.layout (env.withFont (c.apply env.font))
  | .switch kind body, env =>
    let (inner, marks, next) := kind.enter env [] 0
    rowBox (rowItems body inner marks next).1
  | .space length, env =>
    let width := length.points env.em
    .glue width (decide (0.0 < width))
  | .text s c, env => textBox s (c.apply env.textFont) env
  | .classed _ body, env => body.layout env
  | .limits body _, env => body.layout env
  | .operator name _, env => textBox name env.textFont env
  | .vcentered body, env => centeredOnAxis (body.layout env) env
  | .decorated body .overline, env => overlineBox (body.layout env.cramped) env
  | .decorated body .underline, env => underlineBox (body.layout env) env
  | .rule width height raise, env =>
    let em := env.em
    .hbox [(Box.rule (width.points em) (height.points em) 0.0).withShift (-raise.points em)]

/-- The box of an atom that may be missing. -/
def layoutOption : Option Atom → Environment α → Option (Box α)
  | none, _ => none
  | some a, env => some (a.layout env)

/-- The boxes of atoms in one environment. -/
def layoutAll : List Atom → Environment α → List (Box α)
  | [], _ => []
  | a :: atoms, env => a.layout env :: layoutAll atoms env

/-- The atoms of a row under the color declarations `marks`, with declarations expanded, and the
number of the next opening of a tint. -/
def rowItems : List Atom → Environment α → List TintMark → Nat → List (RowItem α) × Nat
  | [], _, _, next => ([], next)
  | .switch kind body :: atoms, env, marks, next =>
    let (inner, innerMarks, innerNext) := kind.enter env marks next
    let (items, next) := rowItems body inner innerMarks innerNext
    let (rest, next) := rowItems atoms env marks next
    (items ++ rest, next)
  | a :: atoms, env, marks, next =>
    let (rest, next) := rowItems atoms env marks next
    ({ mathClass := a.mathClass, env, marks, box := a.layout env } :: rest, next)

/-- The boxes of the contents of cells. -/
def layoutCells : List (Cell Atom) → Environment α → List (Box α)
  | [], _ => []
  | ⟨content, _⟩ :: cells, env => content.layout env :: layoutCells cells env

/-- The boxes of the cells of rows. -/
def layoutRows : List (TableRow Atom) → Environment α → List (List (Box α))
  | [], _ => []
  | ⟨cells, _, _, _⟩ :: rows, env => layoutCells cells env :: layoutRows rows env

end

end Atom

/-- The box of a table of atoms; a row without a cell in every column is an error. -/
def Table.layout (t : Table Atom) (o : TableOptions) (env : Environment α) :
    Except DimensionError (Box α) :=
  tableBox t o env (Atom.layoutRows t.rows (env.withStyle o.style))

end Typeset
