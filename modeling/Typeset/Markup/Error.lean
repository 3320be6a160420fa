import Typeset.Table.Basic

/-!
# Errors of markup

What can be wrong with markup, and how it is told.

* `Fault`: the causes of a syntax error; `Fault.message` has the words of each.
* `ParseError`: an unknown command, a syntax error at a place in a command, or a table with a row
  that is too long.
-/

namespace Typeset

/-- The script that a mark announces. -/
inductive ScriptSlot where
  | sup
  | sub
  deriving DecidableEq, Repr

/-- The mark of a script. -/
def ScriptSlot.mark : ScriptSlot → String
  | sup => "^"
  | sub => "_"

/-- The cause of a syntax error. -/
inductive Fault where
  | missingClosingBrace
  | unmatchedClosingBrace
  | openEnvironment
  | openEnvironmentBeforeBrace
  | missingRight
  | missingLeft
  | missingArgument
  | missingDelimiter
  | invalidDelimiter (token : String)
  | invalidLength (text : String)
  | invalidRange (text : String)
  | invalidArgumentCount (text : String)
  | invalidName (text : String)
  | invalidParameters (text : String)
  | unknownColor (text : String)
  | unknownEnvironment
  | danglingScript (slot : ScriptSlot)
  | doubleScript (slot : ScriptSlot)
  | misplacedColumn
  | misplacedRow
  | loneBackslash
  | noNumerator
  | noOperator
  | noBegin
  | otherBegin (name : String)
  | alreadyDefined (name : String)
  | notDefined (name : String)
  | nestedTooDeeply
  | takesNoArguments
  | outsideGroup
  deriving DecidableEq, Repr

/-- An environment's opening, as markup writes it. -/
def beginToken (name : String) : String := "\\begin\x7b" ++ name ++ "\x7d"

/-- An environment's end, as markup writes it. -/
def endToken (name : String) : String := "\\end\x7b" ++ name ++ "\x7d"

/-- The words of a cause. -/
def Fault.message : Fault → String
  | missingClosingBrace => "missing '\x7d'"
  | unmatchedClosingBrace => "unmatched '\x7d'"
  | openEnvironment => "environment is not closed"
  | openEnvironmentBeforeBrace => "environment is not closed before '\x7d'"
  | missingRight => "missing \\right"
  | missingLeft => "missing \\left"
  | missingArgument => "missing argument"
  | missingDelimiter => "missing delimiter"
  | invalidDelimiter token => "invalid delimiter '" ++ token ++ "'"
  | invalidLength text => "invalid length '" ++ text ++ "'"
  | invalidRange text => "invalid column range '" ++ text ++ "'"
  | invalidArgumentCount text => "invalid argument count '" ++ text ++ "'"
  | invalidName text => "invalid macro name '" ++ text ++ "'"
  | invalidParameters text => "invalid parameter text '" ++ text ++ "'"
  | unknownColor text => "unknown color '" ++ text ++ "'"
  | unknownEnvironment => "unknown environment"
  | danglingScript slot => "dangling '" ++ slot.mark ++ "' without a base"
  | doubleScript .sup => "double superscript"
  | doubleScript .sub => "double subscript"
  | misplacedColumn => "misplaced '&'"
  | misplacedRow => "misplaced row separator"
  | loneBackslash => "lone '\\' at end of input"
  | noNumerator => "no row to take as numerator"
  | noOperator => "limit controls must follow a math operator"
  | noBegin => "no matching \\begin"
  | otherBegin name => "does not match " ++ beginToken name
  | alreadyDefined name => "command \\" ++ name ++ " already defined"
  | notDefined name => "command \\" ++ name ++ " is not defined"
  | nestedTooDeeply => "macro expansion is nested too deeply"
  | takesNoArguments => "command takes no arguments"
  | outsideGroup => "content outside of any group"

/-- The words of a row that is too long. -/
def DimensionError.message (e : DimensionError) : String :=
  "Dimension error: row " ++ toString e.row ++ " has " ++ toString e.cells ++
    " cells but the array has " ++ toString e.columns ++ " columns"

/-- Why markup has no tree. Positions are byte offsets. -/
inductive ParseError where
  | unknownCommand (name : String) (position : Nat)
  /-- `command` is the command or environment concerned. -/
  | syntaxError (position : Nat) (command : Option String) (fault : Fault)
  | dimension (error : DimensionError)
  deriving DecidableEq, Repr

namespace ParseError

/-- A syntax error that concerns no command. -/
def fault (position : Nat) (f : Fault) : ParseError := .syntaxError position none f

/-- A syntax error that concerns a command. -/
def faultIn (position : Nat) (command : String) (f : Fault) : ParseError :=
  .syntaxError position (some command) f

/-- The place of the error, if it has one. -/
def position : ParseError → Option Nat
  | unknownCommand _ position | syntaxError position _ _ => some position
  | dimension _ => none

/-- The error as one of a command: it names the command unless it names another. -/
def inCommand (command : String) : ParseError → ParseError
  | syntaxError position none f => syntaxError position (some command) f
  | e => e

/-- The words of an error. -/
def message : ParseError → String
  | unknownCommand name position =>
    "Unknown command '\\" ++ name ++ "' at position " ++ toString position
  | syntaxError position command f =>
    let concerned := match command with
      | none => ""
      | some name => " (" ++ name ++ ")"
    "Syntax error at position " ++ toString position ++ concerned ++ ": " ++ f.message
  | dimension e => e.message

end ParseError

end Typeset
