import Typeset.Color.Names
import Typeset.Number.Numeral

/-!
# Color specifications

The text that names a color in markup.

* With a model: comma separated channels (`RGB`, `rgb`, `cmyk`), one number (`gray`) or
  hexadecimal digits (`HTML`).
* Without one: a known name, a name of the document, hexadecimal digits, or a known name in
  capitals.
* `a!p!b` mixes `p` percent of `a` with `b`; the percentage is 50 and `b` white if they are not
  given.
-/

namespace Typeset.Color

/-- How the numbers of a specification are to be read. -/
inductive Model where
  /-- Three channels from 0 to 255. -/
  | bytes
  /-- Three channels from 0 to 1. -/
  | shares
  /-- Hexadecimal digits. -/
  | html
  /-- One brightness from 0 to 1. -/
  | gray
  /-- Four inks from 0 to 1. -/
  | inks

/-- The model of a name; any other name stands for no model. -/
def Model.named? (name : List Char) : Option Model :=
  match String.ofList (Text.trim name) with
  | "RGB" => some .bytes
  | "rgb" => some .shares
  | "HTML" => some .html
  | "gray" => some .gray
  | "cmyk" => some .inks
  | _ => none

/-- A channel given as a share of its full strength. -/
def share (v : Float) : UInt8 := byte (clamp 0.0 1.0 v * 255.0)

/-- One channel of a list: digits and points after an optional minus. -/
def readChannel? (piece : List Char) : Option Float :=
  let piece := Text.trim piece
  let body := match piece with
    | '-' :: rest => rest
    | _ => piece
  if body.all fun c => c.isDigit || c == '.' then (Numeral.read? piece).map Numeral.toFloat
  else none

/-- The channels of a comma separated list. -/
def readChannels? (spec : List Char) : Option (List Float) :=
  (Text.split ',' spec).mapM readChannel?

/-- A specification in a model. -/
def readIn? (model : Model) (spec : List Char) : Option Color :=
  match model with
  | .bytes => do
    let [r, g, b] ← readChannels? spec | none
    let channel v := byte (clamp 0.0 255.0 v)
    return rgb (channel r) (channel g) (channel b)
  | .shares => do
    let [r, g, b] ← readChannels? spec | none
    return rgb (share r) (share g) (share b)
  | .html => readHex? spec
  | .gray => do
    let v := share (← Numeral.read? spec).toFloat
    return rgb v v v
  | .inks => do
    let [c, m, y, k] ← readChannels? spec | none
    let light := 1.0 - clamp 0.0 1.0 k
    let channel v := share ((1.0 - clamp 0.0 1.0 v) * light)
    return rgb (channel c) (channel m) (channel y)

/-- Lower case, as far as a color name can be reached by it: the capitals of ASCII and the Kelvin
sign are the only characters whose lower case is an ASCII letter. -/
def lowerName (cs : List Char) : List Char :=
  cs.map fun c => if c.toNat = 0x212A then 'k' else c.toLower

/-- A color by its name or its hexadecimal digits; `known` finds the names of the document. -/
def readPlain? (known : String → Option Color) (spec : List Char) : Option Color :=
  let spec := Text.trim spec
  let name := String.ofList spec
  named? name <|> known name <|> readHex? spec <|> named? (String.ofList (lowerName spec))

/-- A percentage; what is no number counts as one half. -/
def readPercent (piece : List Char) : Float :=
  ((Numeral.read? (Text.trim piece)).map Numeral.toFloat).getD 50.0

/-- A color without a model: a plain one or a mixture. -/
def readMixture? (known : String → Option Color) (spec : List Char) : Option Color := do
  match Text.split '!' spec with
  | [] => none
  | [_] => readPlain? known spec
  | first :: percent :: more =>
    let c ← readPlain? known first
    let d ← match more with
      | [] => some white
      | second :: _ => readPlain? known second
    return mix c d (readPercent percent)

/-- The color of a specification in an optional model; `known` finds the names of the document. -/
def read? (known : String → Option Color) (model : Option (List Char)) (spec : List Char) :
    Option Color :=
  let spec := Text.trim spec
  match model.bind Model.named? with
  | some model => readIn? model spec
  | none => readMixture? known spec

end Typeset.Color
