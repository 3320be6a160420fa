import Typeset.Text

/-!
# Horizontal rules

A rule between the rows of a table, over all columns or over some of them.

* `HRule.readRange?`: the columns of a range such as `2-3`, counted from one.
* `HRule.span`: the columns that a rule covers, counted from zero.
-/

namespace Typeset

/-- A horizontal rule of a table; columns are counted from one, both ends included. -/
inductive HRule where
  | full
  | columns (first last : Nat)
  deriving DecidableEq, Repr

namespace HRule

/-- Two column numbers with a hyphen between them. A note in parentheses may stand before them. -/
def readRange? (cs : List Char) : Option (Nat × Nat) := do
  let cs := Text.trim cs
  let body := match cs with
    | '(' :: note => ((Text.splitOnce ')' note).map Prod.snd).getD cs
    | _ => cs
  let (first, last) ← Text.splitOnce '-' (Text.trim body)
  return (← Text.readNat? (Text.trim first), ← Text.readNat? (Text.trim last))

/-- The first and the last column under the rule in a table of `columns` columns, counted from
zero; none if the rule lies outside the table. -/
def span (columns : Nat) : HRule → Option (Nat × Nat)
  | .full => if 0 < columns then some (0, columns - 1) else none
  | .columns first last =>
    if first - 1 < min last columns then some (first - 1, min last columns - 1) else none

/-- A covered range lies in the table, and its ends are in order. -/
theorem span_bounds {columns : Nat} {r : HRule} {a b : Nat} (h : r.span columns = some (a, b)) :
    a ≤ b ∧ b < columns := by
  cases r with
  | full =>
    simp only [span] at h
    split at h
    · simp only [Option.some.injEq, Prod.mk.injEq] at h
      omega
    · exact absurd h (by simp)
  | columns first last =>
    simp only [span] at h
    split at h
    · simp only [Option.some.injEq, Prod.mk.injEq] at h
      omega
    · exact absurd h (by simp)

end HRule

end Typeset
