import Typeset.Text

/-!
# Definitions

Commands that markup or a package defines by a replacement text.

* `Definition.expand`: the replacement text with the arguments in their places. An argument is put
  in as it stands and not looked at again.
* `readDefinedName?`, `readCount?`, `parameterCount?`: the parts of a definition in markup.
-/

namespace Typeset

/-- An argument of a defined command. -/
inductive Parameter where
  | required
  /-- In brackets, or the given text without them. -/
  | optional (value : List Char)
  deriving DecidableEq, Repr

/-- A command that stands for a text. `#1` to `#9` mark the places of its arguments there. -/
structure Definition where
  name : String
  parameters : List Parameter
  body : List Char
  deriving DecidableEq, Repr

namespace Definition

/-- A command with required arguments. -/
def withArguments (name : String) (count : Nat) (body : List Char) : Definition :=
  { name, parameters := List.replicate count .required, body }

/-- A command without arguments. -/
def simple (name : String) (body : List Char) : Definition := withArguments name 0 body

/-- A command whose first argument is optional. -/
def withOptional (name : String) (count : Nat) (value body : List Char) : Definition :=
  { name, parameters := .optional value :: List.replicate (count - 1) .required, body }

/-- A command for a written operator; with `limits` its scripts go above and below. -/
def operator (name : String) (text : List Char) (limits : Bool) : Definition :=
  simple name ("\\operatorname".toList ++ (if limits then ['*'] else []) ++ '{' :: text ++ ['}'])

/-- The argument that a digit after a number sign stands for. -/
def argument? (args : List (List Char)) (d : Char) : Option (List Char) :=
  if '1' ≤ d ∧ d ≤ '9' then args[d.toNat - '1'.toNat]? else none

/-- A text with arguments in the places of `#1` to `#9`. Two number signs stand for one, and a
number sign without an argument stays. -/
def substitute (args : List (List Char)) : List Char → List Char
  | [] => []
  | [c] => [c]
  | c :: d :: cs =>
    if c = '#' then
      if d = '#' then '#' :: substitute args cs
      else match argument? args d with
        | some a => a ++ substitute args cs
        | none => '#' :: substitute args (d :: cs)
    else
      c :: substitute args (d :: cs)

/-- The replacement text with the arguments in their places. -/
def expand (d : Definition) (args : List (List Char)) : List Char := substitute args d.body

end Definition

/-- The name in `\name` or `{\name}`. -/
def readDefinedName? (cs : List Char) : Option String :=
  let inner := Text.trimEnd (· == '}') (Text.trimStart (· == '{') (Text.trim cs))
  match Text.trim inner with
  | '\\' :: c :: name => some (String.ofList (c :: name))
  | _ => none

/-- A number of arguments, up to nine. -/
def readCount? (cs : List Char) : Option Nat :=
  (Text.readNat? (Text.trim cs)).filter (· ≤ 9)

/-- The number of parameters of a text such as `#1#2`, after `count` of them. They are numbered in
order, with nothing but blanks between them. -/
def parametersFrom? (count : Nat) : List Char → Option Nat
  | [] => some count
  | ['#'] => none
  | c :: d :: cs =>
    if c = '#' then
      if d.isDigit ∧ d.toNat - '0'.toNat = count + 1 then parametersFrom? (count + 1) cs else none
    else if Text.isBlank c then parametersFrom? count (d :: cs)
    else none
  | [c] => if Text.isBlank c then some count else none

/-- The number of parameters that a parameter text names. -/
def parameterCount? (cs : List Char) : Option Nat := parametersFrom? 0 cs

end Typeset
