import Typeset.Markup.Parse

/-!
# What a nest holds

The atoms that a nest holds anywhere: in rows and finished lines, in the cells of open tables, and
in the arguments, numerators, bases, scripts, segments and degrees of commands.

* `Nest.held`: all of them.
* `Move.brought`: the atoms that a token brings to the nest.
-/

namespace Typeset

/-- The degree of a radical whose body is still to come. -/
def ArgKind.degree? : ArgKind → Option Atom
  | sqrt degree => degree
  | _ => none

/-- The atoms that a command holds. -/
def CommandState.held : CommandState → List Atom
  | args kind as => kind.degree?.toList ++ as
  | switch _ atoms => atoms
  | division _ _ num den => num ++ den
  | fence _ segments _ current => segments ++ current
  | script base sup sub _ => base :: (sup.toList ++ sub.toList)
  | fresh _ | defined _ => []

/-- The atoms in the cells of a table under construction. -/
def TableBuilder.held (b : TableBuilder) : List Atom :=
  b.table.contents ++ b.row.cells.map Cell.content ++ b.cell

/-- The atoms that a level holds. -/
def Level.held : Level → List Atom
  | group atoms lines _ _ => lines ++ atoms
  | table b => b.held
  | environment .. => []
  | command c _ => c.state.held

/-- The atoms that a nest holds. -/
def Nest.held (n : Nest) : List Atom := n.flatMap Level.held

/-- The atoms that a command brings to the nest. -/
def Directive.brought : Directive → List Atom
  | done a => a.toList
  | consume s | stealRow s => s.held
  | setLimits _ | openEnvironment .. | closeEnvironment _ | rowSeparator _ | middle _
  | right _ => []

/-- The atoms that a token brings to the nest. -/
def Move.brought : Move → List Atom
  | atom a => [a]
  | prime => [.prime]
  | command _ d => d.brought
  | nothing | openGroup | closeGroup | script _ | column => []

end Typeset
