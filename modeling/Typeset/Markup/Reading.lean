import Typeset.Color.Spec
import Typeset.Markup.Cursor
import Typeset.Markup.Registry

/-!
# Readings

What commands read for themselves: groups, lengths, colors, delimiters, names.

* `Reader`: a cursor, and the names that the markup has set up before it.
* `Reading`: a step of a reader that gives a value or an error. It can only move the cursor on, and
  what was read before an error stays read.
* `Language`: the commands, and the way to parse a piece of markup within the markup.
-/

namespace Typeset

/-- The names that markup has set up. -/
structure Scope where
  /-- The active packages, the last activated one at the end. -/
  packages : List String := []
  colors : Dictionary Color := {}
  definitions : Dictionary Definition := {}

/-- A cursor and the names set up before it. -/
structure Reader where
  cursor : Cursor
  scope : Scope := {}

namespace Reader

/-- A reader at the start of a text. -/
def start (cs : List Char) (scope : Scope) : Reader := { cursor := .start cs, scope }

/-- The offset of the next character. -/
def position (r : Reader) : Nat := r.cursor.position

end Reader

/-- A step of a reader, with the proof that it only goes on. -/
structure Reading (α : Type) where
  run : Reader → Except ParseError α × Reader
  follows : ∀ r, (run r).2.cursor.Follows r.cursor

namespace Reading

variable {α β : Type}

/-- Reads nothing. -/
def give (a : α) : Reading α where
  run r := (.ok a, r)
  follows r := .refl r.cursor

/-- One reading, and after it the one that its value asks for. -/
def andThen (x : Reading α) (f : α → Reading β) : Reading β where
  run r :=
    match x.run r with
    | (.ok a, s) => (f a).run s
    | (.error e, s) => (.error e, s)
  follows r := by
    have hx := x.follows r
    split
    · rename_i a s h
      rw [h] at hx
      exact ((f a).follows s).trans hx
    · rename_i e s h
      rw [h] at hx
      exact hx

instance : Monad Reading where
  pure := give
  bind := andThen

@[simp] theorem run_pure (a : α) (r : Reader) : (pure a : Reading α).run r = (.ok a, r) := rfl

theorem run_bind (x : Reading α) (f : α → Reading β) (r : Reader) :
    (x >>= f).run r =
      match x.run r with
      | (.ok a, s) => (f a).run s
      | (.error e, s) => (.error e, s) := rfl

/-- Stops with an error. -/
def fail (e : ParseError) : Reading α where
  run r := (.error e, r)
  follows r := .refl r.cursor

/-- The reader as it stands. -/
def reader : Reading Reader where
  run r := (.ok r, r)
  follows r := .refl r.cursor

/-- The offset of the next character. -/
def position : Reading Nat := return (← reader).position

/-- Changes the names that are set up. -/
def changeScope (f : Scope → Scope) : Reading Unit where
  run r := (.ok (), { r with scope := f r.scope })
  follows r := .refl r.cursor

/-- A reading of the cursor. -/
def ofCursor (f : Cursor → α × Cursor) (follows : ∀ c, (f c).2.Follows c) : Reading α where
  run r := (.ok (f r.cursor).1, { r with cursor := (f r.cursor).2 })
  follows r := follows r.cursor

/-- A move of the cursor. -/
def move (f : Cursor → Cursor) (follows : ∀ c, (f c).Follows c) : Reading Unit :=
  ofCursor (fun c => ((), f c)) follows

/-- A reading whose errors name a command, unless they name one already. -/
def inCommand (name : String) (x : Reading α) : Reading α where
  run r := ((x.run r).1.mapError (·.inCommand name), (x.run r).2)
  follows r := x.follows r

/-- Stops with a cause, found at the next character. -/
def failHere (f : Fault) : Reading α := do fail (.fault (← position) f)

/-- The value, or a cause found at the next character. -/
def orFail (f : Fault) : Option α → Reading α
  | some a => pure a
  | none => failHere f

/-- The value, or a cause found at the given place. -/
def orFailAt (position : Nat) (f : Fault) : Option α → Reading α
  | some a => pure a
  | none => fail (.fault position f)

/-! ## Raw pieces -/

/-- Passes over blanks and comments. -/
def skipIgnorable : Reading Unit := move Cursor.skipIgnorable Cursor.skipIgnorable_follows

/-- The next character. -/
def peek : Reading (Option Char) := return (← reader).cursor.peek

/-- The next character, which is read. -/
def next : Reading (Option Char) := ofCursor Cursor.next Cursor.next_follows

/-- Passes over blanks and then over `c`, if that is next. -/
def eat (c : Char) : Reading Bool := do
  move Cursor.skipBlanks Cursor.skipBlanks_follows
  ofCursor (Cursor.eat c) (Cursor.eat_follows c)

/-- The name of a command whose backslash has been read. -/
def commandName? : Reading (Option (List Char)) :=
  ofCursor Cursor.readName? Cursor.readName?_follows

/-- The content of brackets, if they follow. -/
def optional? : Reading (Option (List Char)) :=
  ofCursor Cursor.readOptional? Cursor.readOptional?_follows

/-- Everything before the next `stop`. -/
def readUntil (stop : Char) : Reading (List Char) :=
  ofCursor (Cursor.readUntil stop) (Cursor.readUntil_follows stop)

/-- The content of braces. -/
def group : Reading (List Char) := do
  skipIgnorable
  let here ← position
  if (← peek) = some '{' then
    orFailAt here .missingClosingBrace
      (← ofCursor (Cursor.readBalanced? '{' '}') (Cursor.readBalanced?_follows '{' '}'))
  else
    fail (.fault here .missingArgument)

/-- The argument of a defined command: the content of braces, a command, or one character. -/
def argument : Reading (List Char) := do
  skipIgnorable
  let here ← position
  if (← peek) = some '}' then
    fail (.fault here .missingArgument)
  else
    orFailAt here .missingArgument (← ofCursor Cursor.readArgument? Cursor.readArgument?_follows)

/-! ## Delimiters, lengths and colors -/

/-- The token of a delimiter: one character, or a command with its backslash. -/
def delimiterToken? : Reading (Option (List Char)) := do
  match ← next with
  | none => return none
  | some '\\' => return some ('\\' :: (← commandName?).getD [])
  | some c => return some [c]

/-- A delimiter. -/
def delimiter : Reading Delimiter := do
  skipIgnorable
  let here ← position
  match ← delimiterToken? with
  | none => fail (.fault here .missingDelimiter)
  | some token => orFailAt here (.invalidDelimiter (String.ofList token)) (delimiter? token)

/-- A length in braces. -/
def length : Reading Length := do
  let here ← position
  let text ← group
  orFailAt here (.invalidLength (String.ofList text)) (Length.read? (Text.trim text))

/-- A length in brackets, if they follow. -/
def optionalLength? : Reading (Option Length) := do
  match ← optional? with
  | none => return none
  | some text => return some (← orFail (.invalidLength (String.ofList text)) (Length.read? text))

/-- The color of a specification, in terms of the colors that the markup defined. -/
def resolveColor (model : Option (List Char)) (spec : List Char) : Reading Color := do
  let colors := (← reader).scope.colors
  orFail (.unknownColor (String.ofList (Text.trim spec)))
    (Color.read? colors.find? (model.map Text.trim) spec)

/-- A color: a specification in braces, after an optional model in brackets. -/
def color : Reading Color := do
  let model ← optional?
  let spec ← group
  resolveColor model spec

/-! ## Definitions -/

/-- The name that a definition gives a meaning to. -/
def definedName : Reading String := do
  let text ← argument
  orFail (.invalidName (String.ofList text)) (readDefinedName? text)

end Reading

/-- The commands that a parse knows, and how it parses a piece of markup within the markup. -/
structure Language where
  registry : Registry
  /-- The atom of a piece of markup that is met in a scope. Without it, pieces are nested too
  deeply. -/
  fragment? : Option (Scope → List Char → Except ParseError Atom)

namespace Language

/-- The name stands for something. -/
def isDefined (l : Language) (s : Scope) (name : String) : Bool :=
  s.definitions.contains name || l.registry.isDefined name s.packages

/-- The atom of a piece of markup, with the names that are set up here. -/
def fragment (l : Language) (cs : List Char) : Reading Atom := do
  match l.fragment? with
  | none => Reading.failHere .nestedTooDeeply
  | some parse =>
    match parse (← Reading.reader).scope cs with
    | .ok a => return a
    | .error e => Reading.fail e

/-- Gives a name its meaning, as far as the mode allows. -/
def define (l : Language) (mode : DefineMode) (d : Definition) : Reading Unit := do
  let isTaken := l.isDefined (← Reading.reader).scope d.name
  let store := Reading.changeScope fun s => { s with definitions := s.definitions.insert d.name d }
  match mode with
  | .always => store
  | .new => if isTaken then Reading.failHere (.alreadyDefined d.name) else store
  | .renew => if isTaken then store else Reading.failHere (.notDefined d.name)
  | .provide => if isTaken then return else store

/-- The scope with a package active, if the package has commands. -/
def activate (l : Language) (name : String) (s : Scope) : Scope :=
  if l.registry.hasPackage name && !s.packages.contains name then
    { s with packages := s.packages ++ [name] }
  else s

end Language

end Typeset
