import Typeset.Dictionary
import Typeset.Markup.Builtins

/-!
# Registries

The commands and environments that a parse knows.

* `Registry.lookup?`: a name is looked for in the active packages, the last activated one first,
  then among the global commands, then among the signs.
* `Registry.builtin`: the commands of the language and the package `braket`.
-/

namespace Typeset

/-- What a command name stands for. -/
inductive Prototype where
  | symbol (s : Symbol)
  | builtin (b : Builtin)
  | defined (d : Definition)
  deriving DecidableEq, Repr

/-- The state of a command before anything is read. -/
def Prototype.start : Prototype → CommandState
  | symbol s => .fresh (.symbol s)
  | builtin b => .fresh b
  | defined d => .defined d

/-- Commands and environments under their names. -/
structure Registry where
  commands : Dictionary Prototype := {}
  /-- The commands of packages, which count only while the package is active. -/
  packages : Dictionary (Dictionary Prototype) := {}
  environments : Dictionary TableKind := {}

namespace Registry

/-- A registry without commands of its own. -/
def empty : Registry := {}

/-- The registry with a global command. -/
def register (r : Registry) (name : String) (p : Prototype) : Registry :=
  { r with commands := r.commands.insert name p }

/-- The commands of a package. -/
def package (r : Registry) (name : String) : Dictionary Prototype :=
  (r.packages.find? name).getD .empty

/-- The registry with a command of a package. -/
def registerIn (r : Registry) (package name : String) (p : Prototype) : Registry :=
  { r with packages := r.packages.insert package ((r.package package).insert name p) }

/-- The registry with a defined command, global or of a package. -/
def define (r : Registry) (package : Option String) (d : Definition) : Registry :=
  match package with
  | none => r.register d.name (.defined d)
  | some p => r.registerIn p d.name (.defined d)

/-- The registry with an environment. -/
def registerEnvironment (r : Registry) (name : String) (k : TableKind) : Registry :=
  { r with environments := r.environments.insert name k }

/-- The package has commands. -/
def hasPackage (r : Registry) (name : String) : Bool := r.packages.contains name

/-- The packages with commands, in the order of their first one. -/
def packageNames (r : Registry) : List String := r.packages.names

/-- The kind of an environment. -/
def environment? (r : Registry) (name : String) : Option TableKind :=
  r.environments.find? name <|> TableKind.named? name

/-- The command of a name in the last of the packages that has it, and that package. -/
def lookupIn? (r : Registry) (name : String) (active : List String) : Option (String × Prototype) :=
  active.reverse.findSome? fun package => ((r.package package).find? name).map (package, ·)

/-- What a name stands for while packages are active, and the package that gives it. -/
def lookup? (r : Registry) (name : String) (active : List String) :
    Option (Option String × Prototype) :=
  ((r.lookupIn? name active).map fun (package, p) => (some package, p)) <|>
    ((r.commands.find? name).map (none, ·)) <|>
    ((Symbol.named? name).map fun s => (none, .symbol s))

/-- The name stands for something while packages are active. -/
def isDefined (r : Registry) (name : String) (active : List String) : Bool :=
  (r.lookup? name active).isSome

/-- A fresh command of a name, which is read at `position`. -/
def resolve (r : Registry) (name : String) (active : List String) (position : Nat) :
    Except ParseError Command :=
  match r.lookup? name active with
  | none => .error (.unknownCommand name position)
  | some (package, p) => .ok { package, name := "\\" ++ name, state := p.start }

/-- The commands of the package `braket`: angle brackets and bars around one argument. -/
def braket : List Definition :=
  [.withArguments "bra" 1 "\\left\\langle #1\\right|".toList,
    .withArguments "ket" 1 "\\left|#1\\right\\rangle".toList,
    .withArguments "braket" 1 "\\left\\langle #1\\right\\rangle".toList,
    .withArguments "set" 1 "\\left\\\x7b#1\\right\\\x7d".toList]

/-- The commands of the language and of the package `braket`. -/
def builtin : Registry :=
  { commands := { entries := Builtin.table.map fun (name, b) => (name, .builtin b) }
    packages := { entries :=
      [("braket", { entries := braket.map fun d => (d.name, .defined d) })] } }

end Registry

end Typeset
