import Typeset.Atom
import Typeset.Markup.Definition
import Typeset.Markup.Error

/-!
# Commands

A command between its name and its last atom.

* `Builtin`: what a command of the language does; a dictionary leads to it by name.
* `ArgKind.build`: the atom of a command from its arguments.
* `CommandState`: what a command has received so far.
* `CommandState.add`, `CommandState.close`, `CommandState.fenceDelimiter`: what it makes of a
  further atom, of the end of its group, and of a delimiter of a fence.
* `Directive`: what a command asks for once its name is read.
-/

namespace Typeset

/-- What a definition does with a name that is taken. -/
inductive DefineMode where
  /-- The name must be free. -/
  | new
  /-- The name must be taken. -/
  | renew
  /-- A taken name keeps its meaning. -/
  | provide
  /-- The name gets the meaning. -/
  | always
  deriving DecidableEq, Repr

/-- What a command of the language does. -/
inductive Builtin where
  | symbol (s : Symbol)
  | operator (name : String) (limits : Bool)
  | fraction (rule : Bool) (style : Option Style) (fenced : Bool)
  /-- A fraction of what stands before and after the command. -/
  | division (rule : Bool) (fence : Option (Char × Char))
  | sqrt
  | decorate (d : Decoration)
  | font (c : FontChange)
  | fontSwitch (c : FontChange)
  | text (c : FontChange)
  | classed (c : MathClass)
  | style (s : Style)
  | color
  | textColor
  | colorBox
  | frameColorBox
  | frameBox
  | defineColor
  | space (l : Length)
  | hspace
  | left
  | middle
  | right
  | bigDelimiter (size : Decimal) (c : MathClass)
  | limits (above : Bool)
  | operatorName
  | declareOperator
  | newCommand (mode : DefineMode)
  | define
  | openEnvironment
  | closeEnvironment
  | rowSeparator
  | hrule
  | columnRule
  | cellColor
  | rowColor
  | rule
  | usePackage
  | vcenter
  deriving DecidableEq, Repr

/-- What becomes of the arguments of a command. -/
inductive ArgKind where
  | fraction (rule : Bool) (style : Option Style) (fenced : Bool)
  | sqrt (degree : Option Atom)
  | decorate (d : Decoration)
  | font (c : FontChange)
  | classed (c : MathClass)
  | textColor (c : Color)
  | colorBox (c : Color)
  | frameColorBox (frame bg : Color)
  | frameBox
  | vcenter

namespace ArgKind

/-- The number of arguments. -/
def arity : ArgKind → Nat
  | fraction .. => 2
  | _ => 1

/-- An atom between two delimiters. -/
def fence (a : Atom) (left right : Char) : Atom := .fenced (some left) (some right) [a] []

/-- An atom in a style, if there is one. -/
def inStyle (style : Option Style) (a : Atom) : Atom :=
  match style with
  | none => a
  | some s => .styled s a

/-- The atom of a command from its arguments. -/
def build (kind : ArgKind) (args : List Atom) : Atom :=
  let first := args.head?.getD .empty
  let second := args.tail.head?.getD .empty
  match kind with
  | fraction rule style true => inStyle style (fence (.fraction first second rule) '(' ')')
  | fraction rule style false => inStyle style (.fraction first second rule)
  | sqrt degree => .radical first degree
  | decorate d => .decorated first d
  | font c => .font c first
  | classed c => .classed c first
  | textColor c => .color first (some c) none
  | colorBox c => .framed first false none (some c)
  | frameColorBox frame bg => .framed first true (some frame) (some bg)
  | frameBox => .framed first true none none
  | vcenter => .vcentered first

end ArgKind

/-- What a command has received. -/
inductive CommandState where
  /-- Nothing has been read after the name. -/
  | fresh (b : Builtin)
  /-- Waits for its arguments. -/
  | args (kind : ArgKind) (args : List Atom)
  /-- A declaration, which takes the atoms to the end of its group. -/
  | switch (kind : SwitchKind) (atoms : List Atom)
  /-- A fraction whose numerator stood before the command; it takes the denominator. -/
  | division (rule : Bool) (fence : Option (Char × Char)) (num den : List Atom)
  /-- A left delimiter with the segments so far, the delimiters between them, and the atoms of the
  current segment. -/
  | fence (left : Delimiter) (segments : List Atom) (middles : List Delimiter) (current : List Atom)
  /-- A nucleus waiting for a script. -/
  | script (base : Atom) (sup sub : Option Atom) (slot : ScriptSlot)
  /-- A defined command, which is replaced by its text. -/
  | defined (d : Definition)

/-- What a command makes of a further atom. -/
inductive Progress where
  | pending
  | complete (a : Atom)

/-- The atom after a row of primes, in one row with them. -/
def afterPrimes (primes a : Atom) : Atom :=
  match primes with
  | .row atoms => .row (atoms ++ [a])
  | p => .row [p, a]

namespace CommandState

/-- The command takes a further atom, unless it takes none. -/
def add (a : Atom) : CommandState → Option (Progress × CommandState)
  | args kind as =>
    if (as ++ [a]).length < kind.arity then some (.pending, args kind (as ++ [a]))
    else some (.complete (kind.build (as ++ [a])), args kind [])
  | switch kind atoms => some (.pending, switch kind (atoms ++ [a]))
  | division rule delims num den => some (.pending, division rule delims num (den ++ [a]))
  | fence left segments middles current =>
    some (.pending, fence left segments middles (current ++ [a]))
  | script base sup sub .sup =>
    let sup := match sup with
      | some primes => if primes.isPrimes then afterPrimes primes a else a
      | none => a
    some (.complete (.scripts base (some sup) sub), script .empty none none .sup)
  | script base sup _ .sub =>
    some (.complete (.scripts base sup (some a)), script .empty none none .sub)
  | fresh _ | defined _ => none

/-- The atom of a command that ends early, if it has one. -/
def close : CommandState → Option Atom × CommandState
  | switch kind atoms => (some (.switch kind atoms), switch kind [])
  | division rule delims num den =>
    let bare := Atom.fraction (.row num) (.row den) rule
    let a := match delims with
      | none => bare
      | some (left, right) => ArgKind.fence bare left right
    (some a, division rule delims [] [])
  | fence left segments middles current =>
    (some (.fenced left none (segments ++ [.row current]) middles), fence left [] [] [])
  | script base sup sub slot => (some (.scripts base sup sub), script .empty none none slot)
  | args kind as => (none, args kind as)
  | fresh b => (none, fresh b)
  | defined d => (none, defined d)

/-- The command ends with its group without being told to. -/
def isClosable : CommandState → Bool
  | switch .. | division .. => true
  | _ => false

/-- The command with the atoms that stood before it. -/
def steal (row : List Atom) : CommandState → CommandState
  | division rule delims _ den => division rule delims row den
  | s => s

/-- A further delimiter of a fence, the last one if `closing`; nothing else takes one. -/
def fenceDelimiter (d : Delimiter) (closing : Bool) :
    CommandState → Option (Progress × CommandState)
  | fence left segments middles current =>
    let segments := segments ++ [.row current]
    if closing then some (.complete (.fenced left d segments middles), fence left [] [] [])
    else some (.pending, fence left segments (middles ++ [d]) [])
  | _ => none

/-- The atoms that scripts and fractions may take back. -/
def currentRow? : CommandState → Option (List Atom)
  | switch _ atoms => some atoms
  | division _ _ _ den => some den
  | fence _ _ _ current => some current
  | _ => none

/-- The command with other atoms to take back. -/
def setCurrentRow (row : List Atom) : CommandState → CommandState
  | switch kind _ => switch kind row
  | division rule delims num _ => division rule delims num row
  | fence left segments middles _ => fence left segments middles row
  | s => s

end CommandState

/-- A command in use. -/
structure Command where
  /-- The package that gave it. -/
  package : Option String := none
  /-- The name as written, with its backslash. -/
  name : String
  state : CommandState

namespace Command

/-- The command takes a further atom; one that takes none is an error. -/
def add (c : Command) (a : Atom) : Except ParseError (Progress × Command) :=
  match c.state.add a with
  | none => .error (.faultIn 0 c.name .takesNoArguments)
  | some (progress, state) => .ok (progress, { c with state })

end Command

/-- What a command asks for once its name and what it reads itself are read. -/
inductive Directive where
  /-- The command is complete, with or without an atom. -/
  | done (a : Option Atom)
  /-- The command goes on in this state and takes the atoms that follow. -/
  | consume (state : CommandState)
  /-- The command goes on in this state, with the atoms that stand before it in its row. -/
  | stealRow (state : CommandState)
  /-- The atom before the command has the place of its scripts set. -/
  | setLimits (above : Bool)
  /-- An environment starts. -/
  | openEnvironment (name : String) (kind : TableKind) (format : ColumnFormat)
  /-- An environment ends. -/
  | closeEnvironment (name : String)
  /-- A row ends, with extra space below it. -/
  | rowSeparator (gap : Option Length)
  /-- A delimiter inside a fence. -/
  | middle (d : Delimiter)
  /-- The delimiter at the end of a fence. -/
  | right (d : Delimiter)

end Typeset
