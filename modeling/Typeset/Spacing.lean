import Typeset.MathClass
import Typeset.Style
import Typeset.Length

/-!
# Spacing

The space between neighbouring atoms, by their classes. Conditional space appears in display and
text styles only. A binary operator has been made ordinary wherever a pair is impossible.
-/

namespace Typeset

/-- The space between two classes. -/
inductive Glue where
  | none
  | thin
  | condThin
  | condMedium
  | condThick
  /-- The pair does not occur. -/
  | impossible
  deriving DecidableEq, Repr

namespace Glue

/-- The space after an atom of class `left` and before one of class `right`. -/
def between (left right : MathClass) : Glue :=
  match left, right with
  | .none, _ | _, .none => none
  | .ord, .op | .closing, .op => thin
  | .ord, .bin | .closing, .bin | .inner, .bin => condMedium
  | .ord, .rel | .closing, .rel | .inner, .rel | .op, .rel => condThick
  | .ord, .inner | .closing, .inner | .op, .inner => condThin
  | .ord, _ | .closing, _ => none
  | .op, .ord | .op, .op | .inner, .op => thin
  | .op, .bin => impossible
  | .op, _ => none
  | .bin, .ord | .bin, .op | .bin, .opening | .bin, .inner => condMedium
  | .bin, _ => impossible
  | .rel, .bin => impossible
  | .rel, .ord | .rel, .op | .rel, .opening | .rel, .inner => condThick
  | .rel, _ => none
  | .opening, .bin => impossible
  | .opening, _ => none
  | .punct, .bin => impossible
  | .punct, _ => condThin
  | .inner, .closing => none
  | .inner, _ => condThin

/-- The width of the space in math units. -/
def mu (g : Glue) (s : Style) : Nat :=
  match g with
  | .thin => 3
  | .condThin => if s.isTight then 0 else 3
  | .condMedium => if s.isTight then 0 else 4
  | .condThick => if s.isTight then 0 else 5
  | .none | .impossible => 0

end Glue

/-- The commands for explicit space. -/
def spaceCommands : List (String × Length) :=
  [(",", .mu 3), ("thinspace", .mu 3), (":", .mu 4), (">", .mu 4), ("medspace", .mu 4),
    (";", .mu 5), ("thickspace", .mu 5), ("!", .negMu 3), ("negthinspace", .negMu 3),
    ("negmedspace", .negMu 4), ("negthickspace", .negMu 5), (" ", .mu 6), ("enspace", .mu 9),
    ("quad", .mu 18), ("qquad", .mu 36)]

end Typeset
