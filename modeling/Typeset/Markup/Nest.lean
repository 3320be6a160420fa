import Typeset.Markup.Command
import Typeset.Table.Builder

/-!
# The nest

What is open at a place in the markup: groups, environments with their tables, and commands that
wait for atoms. Atoms go to the innermost level.

* `Nest.deliver`: an atom goes to the innermost level, and on from there if it completes a command.
* `Nest.closeDeclarations`: declarations end where the row around them ends.
* `Nest.script`, `Nest.prime`, `Nest.column`, `Nest.rowSeparator`, `Nest.closeGroup`,
  `Nest.closeEnvironment`, `Nest.fenceDelimiter`: the marks of the markup.
* `Nest.finish`: the atom of the markup, if nothing is left open.
* `Nest.salvage`: the atom of what there is, whatever is open.
-/

namespace Typeset

/-- Something open. -/
inductive Level where
  /-- A group that started at a place, with its atoms and the lines before them; or the whole
  markup, the root. -/
  | group (atoms lines : List Atom) (start : Nat) (root : Bool)
  /-- The body of an environment. -/
  | table (b : TableBuilder)
  /-- The opening of an environment, below its body. -/
  | environment (name : String) (kind : TableKind) (start : Nat)
  | command (c : Command) (start : Nat)

namespace Level

/-- The atoms that scripts and fractions may take back. -/
def row? : Level → Option (List Atom)
  | group atoms _ _ _ => some atoms
  | table b => some b.cell
  | command c _ => c.state.currentRow?
  | environment .. => none

/-- The level with other atoms to take back. -/
def setRow (row : List Atom) : Level → Level
  | group _ lines start root => group row lines start root
  | table b => table { b with cell := row }
  | command c start => command { c with state := c.state.setCurrentRow row } start
  | environment name kind start => environment name kind start

end Level

/-- What is open, the innermost level first. -/
abbrev Nest := List Level

/-- An error, and what was open when it was found. -/
structure Failure where
  error : ParseError
  nest : Nest

/-- The atom of a group: its row, or centred lines if it has a row separator. -/
def groupAtom (atoms lines : List Atom) : Atom :=
  match lines with
  | [] => .row atoms
  | _ => .lines (lines ++ [.row atoms]) (some .center)

namespace Atom

/-- An atom as a base with its scripts. -/
def openScripts : Atom → Atom × Option Atom × Option Atom
  | .scripts base sup sub => (base, sup, sub)
  | a => (a, none, none)

/-- The atom with a prime; none if it has another superscript. -/
def primed? : Atom → Option Atom
  | .scripts base none sub => some (.scripts base (some prime) sub)
  | .scripts base (some sup) sub =>
    if sup.isPrimes then some (.scripts base (some (afterPrimes sup prime)) sub) else none
  | a => some (.scripts a (some prime) none)

end Atom

namespace Nest

/-- The nest at the start of markup. -/
def start : Nest := [.group [] [] 0 true]

/-! ## Atoms -/

/-- An atom goes to the innermost level. If it completes a command, the command's atom goes to the
next one. -/
def deliver (here : Nat) (a : Atom) : Nest → Except Failure Nest
  | .group atoms lines start root :: n => .ok (.group (atoms ++ [a]) lines start root :: n)
  | .table b :: n => .ok (.table (b.addAtom a) :: n)
  | .command c start :: n =>
    match c.add a with
    | .error e => .error ⟨e, .command c start :: n⟩
    | .ok (.pending, d) => .ok (.command d start :: n)
    | .ok (.complete b, _) => deliver here b n
  | n => .error ⟨.fault here .outsideGroup, n⟩

/-- Delivering opens nothing. -/
theorem deliver_length_le {here : Nat} {a : Atom} {n m : Nest} (h : deliver here a n = .ok m) :
    m.length ≤ n.length := by
  fun_induction deliver here a n with
  | case1 | case2 | case4 => cases h; simp
  | case3 => cases h
  | case5 _ _ _ _ _ _ _ ih => exact Nat.le_succ_of_le (ih h)
  | case6 => cases h

/-- Delivering opens nothing, also where it fails. -/
theorem deliver_failure_length_le {here : Nat} {a : Atom} {n : Nest} {f : Failure}
    (h : deliver here a n = .error f) : f.nest.length ≤ n.length := by
  fun_induction deliver here a n with
  | case1 | case2 | case4 => cases h
  | case3 => cases h; simp
  | case5 _ _ _ _ _ _ _ ih => exact Nat.le_succ_of_le (ih h)
  | case6 => cases h; simp

/-- The nest without the declarations at its top, whose atoms are delivered. -/
def closeDeclarations (here : Nat) : Nest → Except Failure Nest
  | .command c start :: n =>
    if c.state.isClosable then
      match c.state.close.1 with
      | none => closeDeclarations here n
      | some a =>
        match _h : deliver here a n with
        | .error f => .error f
        | .ok m => closeDeclarations here m
    else .ok (.command c start :: n)
  | n => .ok n
termination_by n => n.length
decreasing_by
  · simp
  · exact Nat.lt_succ_of_le (deliver_length_le ‹_›)

/-- The last atom of the current row, and the nest without it. -/
def takeLast? : Nest → Option (Atom × Nest)
  | [] => none
  | level :: n => do
    let row ← level.row?
    let a ← row.getLast?
    return (a, level.setRow row.dropLast :: n)

/-- The current row, and the nest without its atoms. -/
def takeRow? : Nest → Option (List Atom × Nest)
  | [] => none
  | level :: n => level.row?.map fun row => (row, level.setRow [] :: n)

/-! ## Groups and scripts -/

/-- A group starts. -/
def openGroup (pos : Nat) (n : Nest) : Nest := .group [] [] pos false :: n

/-- The name and the place of the innermost environment. -/
def environment? (n : Nest) : Option (String × Nat) :=
  n.findSome? fun
    | .environment name _ start => some (name, start)
    | _ => none

/-- The name of the innermost environment. -/
def environmentName (n : Nest) : String := (n.environment?.map Prod.fst).getD ""

/-- A group ends. -/
def closeGroup (pos here : Nat) (n : Nest) : Except Failure Nest := do
  let n ← closeDeclarations here n
  match n with
  | .group atoms lines _ false :: m => deliver here (groupAtom atoms lines) m
  | .group _ _ _ true :: _ | [] => .error ⟨.fault pos .unmatchedClosingBrace, n⟩
  | .table _ :: _ | .environment .. :: _ =>
    .error ⟨.faultIn pos (beginToken n.environmentName) .openEnvironmentBeforeBrace, n⟩
  | .command c _ :: _ => .error ⟨.faultIn pos c.name .missingArgument, n⟩

/-- The slot holds a script already. Primes leave room for a superscript. -/
def isTaken (sup sub : Option Atom) : ScriptSlot → Bool
  | .sup => sup.any fun a => !a.isPrimes
  | .sub => sub.isSome

/-- A script is announced: the last atom becomes its base. -/
def script (slot : ScriptSlot) (pos : Nat) (n : Nest) : Except Failure Nest :=
  match n.takeLast? with
  | none => .error ⟨.fault pos (.danglingScript slot), n⟩
  | some (a, m) =>
    let (base, sup, sub) := a.openScripts
    if isTaken sup sub slot then .error ⟨.fault pos (.doubleScript slot), m⟩
    else .ok (.command { name := slot.mark, state := .script base sup sub slot } pos :: m)

/-- The last atom gets a prime. Without one the prime stands on nothing. -/
def prime (pos here : Nat) (n : Nest) : Except Failure Nest :=
  let (a, m) := n.takeLast?.getD (.empty, n)
  match a.primed? with
  | none => .error ⟨.fault pos (.doubleScript .sup), m⟩
  | some b => deliver here b m

/-! ## Tables and fences -/

/-- A column ends. -/
def column (pos here : Nat) (n : Nest) : Except Failure Nest := do
  let n ← closeDeclarations here n
  match n with
  | .table b :: m => .ok (.table b.addColumn :: m)
  | _ => .error ⟨.fault pos .misplacedColumn, n⟩

/-- A row ends, or a line of a group. -/
def rowSeparator (gap : Option Length) (pos here : Nat) (n : Nest) : Except Failure Nest := do
  let n ← closeDeclarations here n
  match n with
  | .table b :: m => .ok (.table (b.addRow gap) :: m)
  | .group atoms lines start root :: m => .ok (.group [] (lines ++ [.row atoms]) start root :: m)
  | _ => .error ⟨.faultIn pos "\\\\" .misplacedRow, n⟩

/-- An environment ends. -/
def closeEnvironment (name : String) (pos here : Nat) (n : Nest) : Except Failure Nest := do
  let n ← closeDeclarations here n
  match n with
  | .table b :: .environment opened kind _ :: m =>
    if opened = name then
      match kind.finish b with
      | .ok a => deliver here a m
      | .error e => .error ⟨.dimension e, m⟩
    else .error ⟨.faultIn pos (endToken name) (.otherBegin opened), m⟩
  | .table _ :: m => .error ⟨.faultIn pos (endToken name) .noBegin, m.tail⟩
  | _ => .error ⟨.faultIn pos (endToken name) .noBegin, n⟩

/-- A delimiter inside a fence, or at its end. -/
def fenceDelimiter (d : Delimiter) (closing : Bool) (pos here : Nat) (n : Nest) :
    Except Failure Nest := do
  let n ← closeDeclarations here n
  let missing : Failure :=
    ⟨.faultIn pos (if closing then "\\right" else "\\middle") .missingLeft, n⟩
  match n with
  | .command c start :: m =>
    match c.state.fenceDelimiter d closing with
    | none => .error missing
    | some (.pending, state) => .ok (.command { c with state } start :: m)
    | some (.complete a, _) => deliver here a m
  | _ => .error missing

/-- The operator before a command gets the place of its scripts set. -/
def setLimits (name : String) (above : Bool) (here : Nat) (n : Nest) :
    Except Failure (Atom × Nest) :=
  match n.takeLast? with
  | none => .error ⟨.faultIn here name .noOperator, n⟩
  | some (a, m) => .ok (.limits a above, m)

/-- What a command asks for is done. -/
def perform (c : Command) (pos here : Nat) (n : Nest) : Directive → Except Failure Nest
  | .done none => .ok n
  | .done (some a) => deliver here a n
  | .consume state => .ok (.command { c with state } pos :: n)
  | .stealRow state =>
    match n.takeRow? with
    | none => .error ⟨.faultIn pos c.name .noNumerator, n⟩
    | some (row, m) => .ok (.command { c with state := state.steal row } pos :: m)
  | .setLimits above => do
    let (a, m) ← setLimits c.name above here n
    deliver here a m
  | .openEnvironment name kind format =>
    .ok (.table (.start format) :: .environment name kind pos :: n)
  | .closeEnvironment name => closeEnvironment name pos here n
  | .rowSeparator gap => rowSeparator gap pos here n
  | .middle d => fenceDelimiter d false pos here n
  | .right d => fenceDelimiter d true pos here n

/-! ## The end -/

/-- The atom of the markup. Whatever is still open, declarations apart, is an error. -/
def finish (here : Nat) (n : Nest) : Except Failure Atom := do
  let n ← closeDeclarations here n
  match n with
  | [] => .ok (.row [])
  | .group atoms lines _ true :: _ => .ok (groupAtom atoms lines)
  | .group _ _ start false :: _ => .error ⟨.fault start .missingClosingBrace, n⟩
  | .table _ :: _ | .environment .. :: _ =>
    let place := (n.environment?.map Prod.snd).getD 0
    .error ⟨.faultIn place (beginToken n.environmentName) .openEnvironment, n⟩
  | .command c start :: _ =>
    let fault : Fault := match c.state with
      | .fence .. => .missingRight
      | _ => .missingArgument
    .error ⟨.faultIn start c.name fault, n⟩

/-- The innermost level is taken off, with its atom: that of a group, of a command that ends early,
or of an environment whose table is sound. -/
def pop : Nest → Option Atom × Nest
  | [] => (none, [])
  | .group atoms lines _ _ :: n => (some (groupAtom atoms lines), n)
  | .command c _ :: n => (c.state.close.1, n)
  | .table b :: .environment _ kind _ :: n => ((kind.finish b).toOption, n)
  | .table _ :: n => (none, n.tail)
  | .environment .. :: n => (none, n)

theorem pop_length_lt {n : Nest} (h : n ≠ []) : n.pop.2.length < n.length := by
  fun_cases pop n <;> grind

/-- The innermost level is taken off, and its atom goes to the one below. -/
def fold (n : Nest) : Nest :=
  match n.pop with
  | (none, m) => m
  | (some a, m) =>
    match deliver 0 a m with
    | .ok m => m
    | .error f => f.nest

theorem fold_length_lt {n : Nest} (h : n ≠ []) : n.fold.length < n.length := by
  have hp := pop_length_lt h
  unfold fold
  split
  · rename_i m hm
    rwa [hm] at hp
  · rename_i a m hm
    rw [hm] at hp
    split
    · rename_i hd
      exact Nat.lt_of_le_of_lt (deliver_length_le hd) hp
    · rename_i hd
      exact Nat.lt_of_le_of_lt (deliver_failure_length_le hd) hp

/-- The atom of what there is: every level is folded into the one below it, and what cannot be
completed is dropped. -/
def salvage (n : Nest) : Atom :=
  if 1 < n.length then
    salvage n.fold
  else
    match n with
    | .group atoms lines _ _ :: _ => groupAtom atoms lines
    | _ => .row []
termination_by n.length
decreasing_by exact fold_length_lt (by rintro rfl; simp at *)

end Nest

end Typeset
