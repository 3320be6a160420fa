import Typeset.Markup.Nest
import Typeset.Markup.Start

/-!
# Parsing markup

One scan from left to right over the markup; a token is read, and then the nest changes.

* `Language.readMove`: what a token asks of the nest.
* `ParseState.step`: one token read and done; `ParseState.scan`: all of them.
* `Language.nested`: a language whose pieces of markup may nest to a given depth.
* `Registry.parse`: the atom of a text.
-/

namespace Typeset

/-- What a token asks of the nest. -/
inductive Move where
  | nothing
  | atom (a : Atom)
  | openGroup
  | closeGroup
  | script (slot : ScriptSlot)
  | prime
  | column
  | command (c : Command) (d : Directive)

/-- The command whose backslash stands at `pos` and has been read. -/
def Language.readCommand (l : Language) (pos : Nat) : Reading Move := do
  match ← Reading.commandName? with
  | none => Reading.fail (.fault pos .loneBackslash)
  | some name =>
    match l.resolve (← Reading.reader).scope (String.ofList name) pos with
    | .error e => Reading.fail e
    | .ok c => return .command c (← c.start l)

/-- What the token asks for whose first character `c` stands at `pos` and has been read. -/
def Language.readMove (l : Language) (pos : Nat) (c : Char) : Reading Move :=
  match c with
  | '%' => do
    Reading.move Cursor.skipLine Cursor.skipLine_follows
    return .nothing
  | '{' => return .openGroup
  | '}' => return .closeGroup
  | '^' => return .script .sup
  | '_' => return .script .sub
  | '\'' => return .prime
  | '&' => return .column
  | '\\' => l.readCommand pos
  | '~' => return .atom (.space (.mu 6))
  | '$' => return .nothing
  | c => return .atom (.ofChar c)

/-- A token that stands at `pos` is done; the markup is read up to `here`. -/
def Nest.apply (pos here : Nat) (n : Nest) : Move → Except Failure Nest
  | .nothing => .ok n
  | .atom a => n.deliver here a
  | .openGroup => .ok (n.openGroup pos)
  | .closeGroup => n.closeGroup pos here
  | .script slot => n.script slot pos
  | .prime => n.prime pos here
  | .column => n.column pos here
  | .command c d => n.perform c pos here d

/-- A place in the midst of a parse. -/
structure ParseState where
  reader : Reader
  nest : Nest := .start

namespace ParseState

/-- The start of a text. -/
def start (cs : List Char) (scope : Scope) : ParseState := { reader := .start cs scope }

/-- The state after the next token; none at the end of the text. -/
def step (l : Language) (s : ParseState) : Option (Except Failure ParseState) :=
  let c := s.reader.cursor.skipBlanks
  c.peek.map fun x =>
    match (l.readMove c.position x).run { s.reader with cursor := c.advance 1 } with
    | (.error e, _) => .error ⟨e, s.nest⟩
    | (.ok move, reader) => do
      return { reader, nest := ← s.nest.apply c.position reader.position move }

/-- A token takes at least one character. -/
theorem step_rest_lt {l : Language} {s t : ParseState} (h : s.step l = some (.ok t)) :
    t.reader.cursor.rest.length < s.reader.cursor.rest.length := by
  have hb := (Cursor.skipBlanks_follows s.reader.cursor).length_le
  simp only [step, Option.map_eq_some_iff] at h
  obtain ⟨x, hx, h⟩ := h
  have hr := (l.readMove s.reader.cursor.skipBlanks.position x).follows
    { s.reader with cursor := s.reader.cursor.skipBlanks.advance 1 }
  have hc : (s.reader.cursor.skipBlanks.advance 1).rest.length <
      s.reader.cursor.skipBlanks.rest.length := by
    revert hx
    cases hs : s.reader.cursor.skipBlanks.rest <;> simp [Cursor.peek, Cursor.advance, hs]
  split at h
  · cases h
  · rename_i move reader hm
    rw [hm] at hr
    cases ha : s.nest.apply s.reader.cursor.skipBlanks.position reader.position move with
    | error f => rw [ha] at h; cases h
    | ok n =>
      rw [ha] at h
      cases h
      exact Nat.lt_of_le_of_lt hr.length_le (Nat.lt_of_lt_of_le hc hb)

/-- The state after the last token. -/
def scan (l : Language) (s : ParseState) : Except Failure ParseState :=
  match _h : s.step l with
  | none => .ok s
  | some (.error f) => .error f
  | some (.ok t) => scan l t
termination_by s.reader.cursor.rest.length
decreasing_by exact step_rest_lt ‹_›

/-- The atom of a whole text. -/
def parse (l : Language) (scope : Scope) (cs : List Char) : Except Failure Atom := do
  let s ← scan l (start cs scope)
  s.nest.finish s.reader.cursor.skipBlanks.position

end ParseState

/-- A row of one atom as that atom. -/
def Atom.unwrapped : Atom → Atom
  | .row atoms => ofList atoms
  | a => a

/-- The language of a registry in which pieces of markup nest up to a depth. -/
def Language.nested (registry : Registry) : Nat → Language
  | 0 => { registry, fragment? := none }
  | depth + 1 =>
    { registry
      fragment? := some fun scope cs =>
        match ParseState.parse (nested registry depth) scope cs with
        | .ok a => .ok a.unwrapped
        | .error f => .error f.error }

/-- How deep pieces of markup may nest. -/
def maxDepth : Nat := 100

/-- How markup is parsed. -/
structure ParseOptions where
  /-- An error ends the markup, and what was parsed before it is kept. -/
  lenient : Bool := false
  /-- The packages that are active from the start. -/
  packages : List String := []
  deriving DecidableEq, Repr

/-- The language of a registry. -/
def Registry.language (r : Registry) : Language := .nested r maxDepth

/-- The atom of a text. -/
def Registry.parse (r : Registry) (o : ParseOptions) (markup : String) : Except ParseError Atom :=
  match ParseState.parse r.language { packages := o.packages } markup.toList with
  | .ok a => .ok a
  | .error f => if o.lenient then .ok f.nest.salvage else .error f.error

end Typeset
