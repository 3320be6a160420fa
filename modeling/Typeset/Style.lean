import Typeset.Scalar

/-!
# Styles

The eight styles of a formula: four sizes, each plain or cramped. The parts of a formula are set
in styles derived from its own, and no derived style is on a larger rung (`sup_size`, `num_size`,
`cramp_size`).
-/

namespace Typeset

/-- The size of a style, from displayed formulas down to scripts of scripts. -/
inductive Rung where
  | display
  | text
  | script
  | scriptScript
  deriving DecidableEq, Repr

/-- The place of a rung, counted downward from display. -/
def Rung.index : Rung → Nat
  | display => 0
  | text => 1
  | script => 2
  | scriptScript => 3

/-- The style of a formula; superscripts rise less in a cramped one. -/
structure Style where
  rung : Rung
  cramped : Bool := false
  deriving DecidableEq, Repr

namespace Style

def display : Style := ⟨.display, false⟩
def text : Style := ⟨.text, false⟩
def script : Style := ⟨.script, false⟩
def scriptScript : Style := ⟨.scriptScript, false⟩

/-- The place of the style's rung, counted downward from display. -/
def size (s : Style) : Nat := s.rung.index

def isDisplay (s : Style) : Bool := s.rung == .display

/-- Scripts and their scripts: conditional space vanishes in them. -/
def isTight (s : Style) : Bool := s.rung == .script || s.rung == .scriptScript

/-- Style of a superscript. -/
def sup (s : Style) : Style :=
  { s with
    rung := match s.rung with
      | .display | .text => .script
      | .script | .scriptScript => .scriptScript }

/-- The cramped style of the same size. -/
def cramp (s : Style) : Style := { s with cramped := true }

/-- Style of a subscript. -/
def sub (s : Style) : Style := s.sup.cramp

/-- Style of a numerator. -/
def num (s : Style) : Style :=
  { s with
    rung := match s.rung with
      | .display => .text
      | .text => .script
      | .script | .scriptScript => .scriptScript }

/-- Style of a denominator. -/
def den (s : Style) : Style := s.num.cramp

/-- Font size of the style, as a share of the base size. -/
def scale {α : Type} [Scalar α] (s : Style) : α :=
  match s.rung with
  | .display | .text => 1.0
  | .script => 0.7
  | .scriptScript => 0.5

theorem size_le_sup_size (s : Style) : s.size ≤ s.sup.size := by
  rcases s with ⟨_ | _, _ | _⟩ <;> decide

theorem size_le_num_size (s : Style) : s.size ≤ s.num.size := by
  rcases s with ⟨_ | _, _ | _⟩ <;> decide

theorem cramp_size (s : Style) : s.cramp.size = s.size := rfl

end Style

end Typeset
