import Typeset.Box.Dump
import Typeset.Picture

/-!
# The command line

The arguments name a formula and the options of its picture; the program prints the measures of the
picture and its box tree.

* `CommandLine.read`: the arguments.
* `CommandLine.run`: what is printed for a formula.
-/

namespace Typeset

/-- What the program is asked for. -/
structure CommandLine where
  /-- The formula; without it the standard input is the formula. -/
  formula : Option String := none
  size : Numeral := .ofDecimal 20 0
  style : Style := .display
  width : Option Numeral := none
  align : HAlign := .center
  interline : Option Numeral := none
  /-- An error ends the formula instead of the program. -/
  lenient : Bool := false

/-- An option with a value. -/
inductive CommandOption where
  | size
  | style
  | width
  | align
  | interline
  deriving DecidableEq, Repr

/-- Why the arguments are refused. -/
inductive UsageError where
  | unexpected (argument : String)
  | missingValue (option : String)
  | invalidValue (option value : String)
  deriving DecidableEq, Repr

/-- The words of an error. -/
def UsageError.message : UsageError → String
  | unexpected argument => "error: unexpected argument '" ++ argument ++ "' found"
  | missingValue option => "error: a value is required for '" ++ option ++ "' but none was supplied"
  | invalidValue option value => "error: invalid value '" ++ value ++ "' for '" ++ option ++ "'"

/-- What the program prints, and its exit code. -/
structure CommandOutput where
  code : Nat := 0
  out : String := ""
  err : String := ""
  deriving DecidableEq, Repr

namespace CommandOption

/-- The option of a long name. -/
def ofName? : String → Option CommandOption
  | "size" => some size
  | "style" => some style
  | "width" => some width
  | "align" => some align
  | "interline" => some interline
  | _ => none

/-- The option of a letter. -/
def ofLetter? : Char → Option CommandOption
  | 's' => some size
  | 'w' => some width
  | _ => none

end CommandOption

namespace CommandLine

/-- The style of a name. -/
def styleOf? : String → Option Style
  | "display" => some .display
  | "text" => some .text
  | "script" => some .script
  | "scriptscript" => some .scriptScript
  | _ => none

/-- The alignment of a name. -/
def alignOf? : String → Option HAlign
  | "left" => some .left
  | "center" => some .center
  | "right" => some .right
  | _ => none

/-- The request with an option set. -/
def set? (c : CommandLine) (o : CommandOption) (value : String) : Option CommandLine :=
  match o with
  | .size => (Numeral.read? value.toList).map fun size => { c with size }
  | .style => (styleOf? value).map fun style => { c with style }
  | .width => (Numeral.read? value.toList).map fun width => { c with width := some width }
  | .align => (alignOf? value).map fun align => { c with align }
  | .interline => (Numeral.read? value.toList).map fun space => { c with interline := some space }

/-- One argument. -/
inductive Argument where
  | formula (text : String)
  | lenient
  /-- An option, written as `token`, with its value if that is in the same argument. -/
  | option (o : CommandOption) (token : String) (value : Option String)
  | unknown

/-- The kind of an argument. A value follows an option after an equals sign, or after its letter. -/
def classify (argument : String) : Argument :=
  match argument.toList with
  | '-' :: '-' :: cs =>
    let (name, value) := ((Text.splitOnce '=' cs).map fun (n, v) => (n, some v)).getD (cs, none)
    let token := "--" ++ String.ofList name
    match CommandOption.ofName? (String.ofList name) with
    | some o => .option o token (value.map String.ofList)
    | none => if token = "--partial" ∧ value = none then .lenient else .unknown
  | '-' :: c :: cs =>
    let value := match cs with
      | [] => none
      | '=' :: rest => some rest
      | rest => some rest
    match CommandOption.ofLetter? c with
    | some o => .option o (String.ofList ['-', c]) (value.map String.ofList)
    | none => .unknown
  | _ => .formula argument

/-- The request with an option set. -/
def set (c : CommandLine) (o : CommandOption) (token value : String) :
    Except UsageError CommandLine :=
  match c.set? o value with
  | some c => .ok c
  | none => .error (.invalidValue token value)

/-- The request after further arguments. -/
def readFrom (c : CommandLine) : List String → Except UsageError CommandLine
  | [] => .ok c
  | argument :: rest =>
    match classify argument with
    | .formula text =>
      if c.formula.isSome then .error (.unexpected argument)
      else readFrom { c with formula := some text } rest
    | .lenient => readFrom { c with lenient := true } rest
    | .option o token (some value) => do readFrom (← c.set o token value) rest
    | .option o token none =>
      match rest with
      | [] => .error (.missingValue token)
      | value :: rest => do readFrom (← c.set o token value) rest
    | .unknown => .error (.unexpected argument)

/-- The request of the arguments. -/
def read (arguments : List String) : Except UsageError CommandLine := readFrom {} arguments

/-- The options of the picture. -/
def options (c : CommandLine) : PictureOptions Float :=
  { PictureOptions.display c.size.toFloat with
    style := c.style
    width := c.width.map fun w => (w.toFloat, c.align)
    interline := c.interline.map Numeral.toFloat }

/-- The measures of a picture and its box tree. -/
def report (p : Picture Float) : String :=
  "width=" ++ fixedText 3 p.width ++ " height=" ++ fixedText 3 p.height ++
    " depth=" ++ fixedText 3 p.depth ++ " colored=" ++ (if p.isColored then "true" else "false") ++
    "\n" ++ p.root.dump

/-- A message instead of a result. -/
def failure (message : String) : CommandOutput := { code := 1, err := message ++ "\n" }

/-- What is printed for a formula; blanks around it do not count. -/
def run (c : CommandLine) (markup : String) : CommandOutput :=
  let markup := String.ofList (Text.trim markup.toList)
  match Formula.parse markup { lenient := c.lenient } with
  | .error e => failure e.message
  | .ok formula =>
    match formula.picture c.options with
    | .error e => failure e.message
    | .ok picture => { out := report picture }

/-- What is printed for arguments that are refused. -/
def refusal (e : UsageError) : CommandOutput := { code := 2, err := e.message ++ "\n" }

end CommandLine

end Typeset
