import Typeset.Font
import Typeset.Table.Kind

/-!
# Atoms

The tree of a formula, as markup describes it.

* `Atom.mathClass`: the class that spaces an atom against its neighbours.
* `Atom.takesLimits`: the scripts of the atom go above and below it.
* `Atom.children`: the parts of an atom, in reading order.
-/

namespace Typeset

/-- A line over or under a formula. -/
inductive Decoration where
  | overline
  | underline
  deriving DecidableEq, Repr

/-- What a declaration changes for the atoms that follow it. -/
inductive SwitchKind where
  | style (s : Style)
  | font (c : FontChange)
  | color (c : Color)
  deriving DecidableEq, Repr

/-- A part of a formula. -/
inductive Atom where
  /-- Nothing. -/
  | empty
  | symbol (char : Char) (mathClass : MathClass)
  /-- Atoms on a common baseline. -/
  | row (atoms : List Atom)
  | scripts (base : Atom) (sup sub : Option Atom)
  /-- One atom above another; `rule` draws a bar between them. -/
  | fraction (num den : Atom) (rule : Bool)
  | radical (body : Atom) (degree : Option Atom)
  | color (body : Atom) (fg bg : Option Color)
  /-- A padded box; `ruled` draws its border. -/
  | framed (body : Atom) (ruled : Bool) (frame bg : Option Color)
  | array (table : Table Atom) (options : TableOptions)
  /-- Segments between delimiters that grow with them, one more than inner delimiters. -/
  | fenced (left right : Delimiter) (segments : List Atom) (middles : List Delimiter)
  /-- A delimiter of a fixed height in em. -/
  | bigDelimiter (char : Delimiter) (size : Decimal) (mathClass : MathClass)
  /-- Lines below each other; without an alignment the first stands left, the last right and the
  others in the middle. -/
  | lines (parts : List Atom) (align : Option HAlign)
  | styled (style : Style) (body : Atom)
  /-- A declaration and the atoms after it, which keep their spacing against the row around. -/
  | switch (kind : SwitchKind) (body : List Atom)
  | font (change : FontChange) (body : Atom)
  | space (length : Length)
  /-- Upright text. -/
  | text (text : String) (font : FontChange)
  /-- A formula with a class of its own. -/
  | classed (mathClass : MathClass) (body : Atom)
  /-- A written operator; `limits` puts its scripts above and below in display style. -/
  | operator (name : String) (limits : Bool)
  /-- An operator with the place of its scripts set. -/
  | limits (base : Atom) (limits : Bool)
  /-- A formula centred on the axis. -/
  | vcentered (body : Atom)
  | decorated (body : Atom) (decoration : Decoration)
  | rule (width height raise : Length)
  /-- Marks a horizontal rule of the table around. -/
  | hrule (rule : HRule)
  /-- Marks the background of the cell around. -/
  | cellColor (color : Color)
  /-- Marks the background of the row around. -/
  | rowColor (color : Color)

namespace Atom

/-- The atom of a typed character. -/
def ofChar (c : Char) : Atom := .symbol (Symbol.literalGlyph c) (Symbol.literalClass c)

/-- The prime of an apostrophe. -/
def prime : Atom := .symbol primeChar .ord

/-- Atoms as one atom: a single one is itself. -/
def ofList : List Atom → Atom
  | [a] => a
  | atoms => .row atoms

mutual

/-- The class that governs the space around the atom. -/
def mathClass : Atom → MathClass
  | .symbol _ c | .classed c _ | .bigDelimiter _ _ c => c
  | .scripts base _ _ => base.mathClass
  | .fraction .. | .fenced .. => .inner
  | .color body _ _ | .styled _ body | .font _ body => body.mathClass
  | .switch _ body => firstClass body
  | .operator .. | .limits .. => .op
  | .empty | .space _ | .hrule _ | .cellColor _ | .rowColor _ => .none
  | .row _ | .radical .. | .framed .. | .array .. | .lines .. | .text .. | .vcentered _
  | .decorated .. | .rule .. => .ord

/-- The first class of the atoms that takes part in spacing. -/
def firstClass : List Atom → MathClass
  | [] => .none
  | a :: atoms => if a.mathClass = .none then firstClass atoms else a.mathClass

end

/-- The scripts of the atom go above and below it in a style. -/
def takesLimits (s : Style) : Atom → Bool
  | .limits _ above => above
  | .operator _ above => above && s.isDisplay
  | .symbol c k => k == .op && Symbol.isLarge c && !Symbol.isIntegral c && s.isDisplay
  | _ => false

/-- A sign that grows in display style. -/
def isLargeOperator : Atom → Bool
  | .symbol c k => k == .op && Symbol.isLarge c
  | _ => false

mutual

/-- There is nothing in the atom. -/
def isEmpty : Atom → Bool
  | .empty => true
  | .row atoms | .switch _ atoms => allEmpty atoms
  | _ => false

/-- There is nothing in the atoms. -/
def allEmpty : List Atom → Bool
  | [] => true
  | a :: atoms => a.isEmpty && allEmpty atoms

end

mutual

/-- A prime, or a row of nothing but primes. -/
def isPrimes : Atom → Bool
  | .symbol c _ => c == primeChar
  | .row (a :: atoms) => a.isPrimes && allPrimes atoms
  | _ => false

/-- Every atom is a prime or a row of them. -/
def allPrimes : List Atom → Bool
  | [] => true
  | a :: atoms => a.isPrimes && allPrimes atoms

end

/-- The parts of the atom, in reading order. -/
def children : Atom → List Atom
  | .row atoms | .switch _ atoms => atoms
  | .scripts base sup sub => base :: (sup.toList ++ sub.toList)
  | .fraction num den _ => [num, den]
  | .radical body degree => body :: degree.toList
  | .color body _ _ | .framed body _ _ _ | .styled _ body | .font _ body | .classed _ body
  | .decorated body _ | .limits body _ | .vcentered body => [body]
  | .fenced _ _ segments _ => segments
  | .lines parts _ => parts
  | .array table _ => table.contents
  | _ => []

end Atom

end Typeset
