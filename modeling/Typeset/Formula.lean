import Typeset.Layout
import Typeset.Markup.Parse

/-!
# Formulas

The tree of a piece of markup or of plain text.

* `Formula.parse`: the formula of markup in the language of this library.
* `Formula.ofText`: lines of plain text.
* `Formula.centered`: the formula on the math axis.
-/

namespace Typeset

/-- A formula. -/
structure Formula where
  root : Atom

namespace Formula

/-- The formula of markup, in the language of this library or another registry. -/
def parse (markup : String) (o : ParseOptions := {}) (registry : Registry := .builtin) :
    Except ParseError Formula :=
  (registry.parse o markup).map Formula.mk

/-- The lines of plain text. A line ends at a line break, at `\\` and at `\cr`. -/
def textLines : List Char → List (List Char)
  | [] => [[]]
  | '\n' :: cs => [] :: textLines cs
  | '\\' :: '\\' :: cs => [] :: textLines cs
  | '\\' :: 'c' :: 'r' :: cs => [] :: textLines cs
  | c :: cs =>
    match textLines cs with
    | [] => [[c]]
    | line :: rest => (c :: line) :: rest

/-- Plain text in roman, with its lines aligned. -/
def ofText (text : String) (align : HAlign) : Formula :=
  let lines := (textLines text.toList).map fun line =>
    Atom.text (String.ofList line) (.toFamily .roman)
  match lines with
  | [line] => ⟨line⟩
  | lines => ⟨.lines lines (some align)⟩

/-- The formula, centred on the math axis. -/
def centered (f : Formula) : Formula := ⟨.vcentered f.root⟩

/-- There is nothing in the formula. -/
def isEmpty (f : Formula) : Bool := f.root.isEmpty

/-- The box of the formula in an environment. -/
def layout {α : Type} [Scalar α] (f : Formula) (env : Environment α) : Box α := f.root.layout env

end Formula

end Typeset
