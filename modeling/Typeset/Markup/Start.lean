import Typeset.Markup.Reading

/-!
# Starting commands

What a command does once its name is read: it reads what it takes as raw markup and gives a
directive for the atoms around it.

* `plainText`: the text of an argument that is set as it stands.
* `Builtin.start`: the commands of the language.
* `Language.expand`: a defined command becomes the atom of its replacement text.
* `Command.start`: any command; an error names it.
-/

namespace Typeset

/-- The text of an argument, without its inner braces. -/
def plainText : List Char → List Char
  | [] => []
  | ['\\'] => ['\\']
  | '\\' :: c :: cs =>
    if c ∈ ['{', '}', '%', '&', '#', '$', '_'] then c :: plainText cs
    else if c = ' ' ∨ c = ',' then ' ' :: plainText cs
    else '\\' :: c :: plainText cs
  | c :: cs =>
    if c = '{' ∨ c = '}' then plainText cs
    else if c = '~' then ' ' :: plainText cs
    else c :: plainText cs

/-- The names in a list with commas between them. -/
def packageNames (cs : List Char) : List String :=
  (((Text.split ',' cs).map Text.trim).filter (· ≠ [])).map String.ofList

/-- The command waits for its arguments. -/
def Directive.takeArguments (kind : ArgKind) : Directive := .consume (.args kind [])

/-- The declaration takes the rest of its group. -/
def Directive.declare (kind : SwitchKind) : Directive := .consume (.switch kind [])

namespace Reading

/-- A name for a color. -/
def newColor : Reading Unit := do
  let name ← group
  let model ← group
  let color ← resolveColor (some model) (← group)
  changeScope fun s => { s with colors := s.colors.insert (String.ofList (Text.trim name)) color }

/-- Part of a rule between the rows of a table. -/
def columnRule : Reading Atom := do
  let text ← group
  let (first, last) ← orFail (.invalidRange (String.ofList text)) (HRule.readRange? text)
  return .hrule (.columns first last)

/-- A filled rectangle. -/
def rule : Reading Atom := do
  let raise := (← optionalLength?).getD .zero
  let width ← length
  return .rule width (← length) raise

/-- The arguments of a defined command. -/
def arguments : List Parameter → Reading (List (List Char))
  | [] => return []
  | .required :: rest => return (← argument) :: (← arguments rest)
  | .optional value :: rest => return (← optional?).getD value :: (← arguments rest)

end Reading

namespace Language

variable (l : Language)

/-- A definition with a name, an optional number of arguments, and an optional default for the
first one. -/
def newCommand (mode : DefineMode) : Reading Unit := do
  let _ ← Reading.eat '*'
  let name ← Reading.definedName
  let count ← match ← Reading.optional? with
    | none => pure 0
    | some text => Reading.orFail (.invalidArgumentCount (String.ofList text)) (readCount? text)
  let value ← Reading.optional?
  let body ← Reading.group
  l.define mode <| match value with
    | some value => .withOptional name count value body
    | none => .withArguments name count body

/-- A definition with a name and the parameters as they stand in front of its body. -/
def newDefinition : Reading Unit := do
  let name ← Reading.definedName
  let parameters ← Reading.readUntil '{'
  let count ← Reading.orFail (.invalidParameters (String.ofList parameters))
    (parameterCount? parameters)
  l.define .always (.withArguments name count (← Reading.group))

/-- A definition of a written operator. -/
def newOperator : Reading Unit := do
  let limits ← Reading.eat '*'
  let name ← Reading.definedName
  l.define .new (.operator name (← Reading.group) limits)

/-- An environment starts. -/
def openEnvironment : Reading Directive := do
  let name := String.ofList (Text.trim (← Reading.group))
  match l.registry.environment? name with
  | none => Reading.fail (.faultIn (← Reading.position) (beginToken name) .unknownEnvironment)
  | some kind =>
    let spec ← if kind.takesSpec then some <$> Reading.group else pure none
    return .openEnvironment name kind (kind.format spec)

/-- A defined command becomes the atom of its replacement text; an empty one is nothing. -/
def expand (d : Definition) : Reading Directive := do
  match ← l.fragment (d.expand (← Reading.arguments d.parameters)) with
  | .row [] => return .done none
  | a => return .done (some a)

end Language

/-- What a command of the language reads, and what it asks for then. -/
def Builtin.start (l : Language) : Builtin → Reading Directive
  | symbol s => return .done (some (.symbol s.char s.mathClass))
  | operator name above => return .done (some (.operator name above))
  | fraction bar size fenced => return .takeArguments (.fraction bar size fenced)
  | division bar delims => return .stealRow (.division bar delims [] [])
  | sqrt => do
    match ← Reading.optional? with
    | none => return .takeArguments (.sqrt none)
    | some degree => return .takeArguments (.sqrt (some (← l.fragment degree)))
  | decorate d => return .takeArguments (.decorate d)
  | font c => return .takeArguments (.font c)
  | fontSwitch c => return .declare (.font c)
  | text c => return .done (some (.text (String.ofList (plainText (← Reading.group))) c))
  | classed c => return .takeArguments (.classed c)
  | style s => return .declare (.style s)
  | color => return .declare (.color (← Reading.color))
  | textColor => return .takeArguments (.textColor (← Reading.color))
  | colorBox => return .takeArguments (.colorBox (← Reading.color))
  | frameColorBox => return .takeArguments (.frameColorBox (← Reading.color) (← Reading.color))
  | frameBox => return .takeArguments .frameBox
  | defineColor => do Reading.newColor; return .done none
  | space length => return .done (some (.space length))
  | hspace => do
    let _ ← Reading.eat '*'
    return .done (some (.space (← Reading.length)))
  | left => return .consume (.fence (← Reading.delimiter) [] [] [])
  | middle => return .middle (← Reading.delimiter)
  | right => return .right (← Reading.delimiter)
  | bigDelimiter size c => return .done (some (.bigDelimiter (← Reading.delimiter) size c))
  | limits above => return .setLimits above
  | operatorName => do
    let above ← Reading.eat '*'
    return .done (some (.operator (String.ofList (plainText (← Reading.group))) above))
  | declareOperator => do l.newOperator; return .done none
  | newCommand mode => do l.newCommand mode; return .done none
  | define => do l.newDefinition; return .done none
  | openEnvironment => l.openEnvironment
  | closeEnvironment => return .closeEnvironment (String.ofList (Text.trim (← Reading.group)))
  | rowSeparator => return .rowSeparator (← Reading.optionalLength?)
  | hrule => return .done (some (.hrule .full))
  | columnRule => return .done (some (← Reading.columnRule))
  | cellColor => return .done (some (.cellColor (← Reading.color)))
  | rowColor => return .done (some (.rowColor (← Reading.color)))
  | rule => return .done (some (← Reading.rule))
  | usePackage => do
    let _ ← Reading.optional?
    let names := packageNames (← Reading.group)
    Reading.changeScope fun s => names.foldl (fun s name => l.activate name s) s
    return .done none
  | vcenter => return .takeArguments .vcenter

/-- What a command reads, and what it asks for then; one that has started goes on. -/
def CommandState.start (l : Language) : CommandState → Reading Directive
  | fresh b => b.start l
  | defined d => l.expand d
  | s => return .consume s

/-- What a command reads, and what it asks for then. Errors name the command. -/
def Command.start (l : Language) (c : Command) : Reading Directive :=
  Reading.inCommand c.name (c.state.start l)

/-- The command of a name that is read at a place, in a scope. -/
def Language.resolve (l : Language) (s : Scope) (name : String) (position : Nat) :
    Except ParseError Command :=
  match s.definitions.find? name with
  | some d => .ok { name := "\\" ++ name, state := .defined d }
  | none => l.registry.resolve name s.packages position

end Typeset
