import Typeset.Box.Basic
import Typeset.Number.Fixed

/-!
# Dumps

The tree of a box as text: one line per box, indented by its depth in the tree, with its measures
to three places. The shift is written if there is one.
-/

namespace Typeset.Box

/-- An optional color; a hyphen stands for none. -/
def colorText (c : Option Color) : String := (c.map Color.text).getD "-"

/-- What a box is, in words. -/
def label : BoxContent Float (Box Float) → String
  | .char c _ _ => "char '" ++ c.toString ++ "'"
  | .rule => "rule"
  | .strut => "strut"
  | .glue true => "glue (breakable)"
  | .glue false => "glue"
  | .delimiter c => "delimiter '" ++ c.toString ++ "'"
  | .hbox _ => "hbox"
  | .vbox _ baseline => "vbox (baseline " ++ toString baseline ++ ")"
  | .colored fg bg _ => "colored fg=" ++ colorText fg ++ " bg=" ++ colorText bg
  | .framed .. => "framed"

/-- The line of one box at a depth of the tree. -/
def dumpLine (level : Nat) (b : Box Float) : String :=
  let indent := String.ofList (List.replicate (2 * level) ' ')
  let measures := " w=" ++ fixedText 3 b.width ++ " h=" ++ fixedText 3 b.height ++ " d=" ++
    fixedText 3 b.depth
  let shift := if b.shift == 0.0 then "" else " shift=" ++ fixedText 3 b.shift
  indent ++ label b.content ++ measures ++ shift ++ "\n"

mutual

/-- The lines of a tree whose root is at a depth of the whole one. -/
def dumpAt (level : Nat) : Box Float → String
  | b@⟨_, _, _, _, .hbox children⟩ => dumpLine level b ++ dumpAll (level + 1) children
  | b@⟨_, _, _, _, .vbox children _⟩ => dumpLine level b ++ dumpAll (level + 1) children
  | b@⟨_, _, _, _, .colored _ _ child⟩ => dumpLine level b ++ child.dumpAt (level + 1)
  | b@⟨_, _, _, _, .framed _ _ _ _ child⟩ => dumpLine level b ++ child.dumpAt (level + 1)
  | b => dumpLine level b

/-- The lines of trees whose roots are at a depth of the whole one. -/
def dumpAll (level : Nat) : List (Box Float) → String
  | [] => ""
  | b :: bs => b.dumpAt level ++ dumpAll level bs

end

/-- The text of a tree. -/
def dump (b : Box Float) : String := b.dumpAt 0

end Typeset.Box
