/-!
# Classes

The spacing class of an atom decides the space that separates it from its neighbours.
-/

namespace Typeset

/-- The spacing class of an atom. -/
inductive MathClass where
  | ord
  /-- Large operator. -/
  | op
  /-- Binary operator. -/
  | bin
  /-- Relation. -/
  | rel
  | opening
  | closing
  | punct
  | inner
  /-- Takes no part in the spacing between atoms. -/
  | none
  deriving DecidableEq, Repr

/-- Where a box stands in a wider one. -/
inductive HAlign where
  | left
  | center
  | right
  deriving DecidableEq, Repr

end Typeset
