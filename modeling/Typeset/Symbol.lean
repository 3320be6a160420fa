import Typeset.MathClass

/-!
# Symbols

The signs of formulas and their classes.

* `Symbol.table`: the commands that stand for one sign.
* `operatorNames`: the commands for operators that are written out, such as `\sin`.
* `Symbol.literal`: what a character typed in a formula stands for.
* `delimiter?`: the characters that can grow around a formula.
-/

namespace Typeset

/-- A sign with its class. -/
structure Symbol where
  char : Char
  mathClass : MathClass
  deriving DecidableEq, Repr

namespace Symbol

/-- Small Greek letters. -/
def greekLetters : List (String × Symbol) :=
  [("alpha", ⟨'\u03b1', .ord⟩), ("beta", ⟨'\u03b2', .ord⟩), ("gamma", ⟨'\u03b3', .ord⟩),
    ("delta", ⟨'\u03b4', .ord⟩), ("epsilon", ⟨'\u03f5', .ord⟩), ("varepsilon", ⟨'\u03b5', .ord⟩),
    ("zeta", ⟨'\u03b6', .ord⟩), ("eta", ⟨'\u03b7', .ord⟩), ("theta", ⟨'\u03b8', .ord⟩),
    ("vartheta", ⟨'\u03d1', .ord⟩), ("iota", ⟨'\u03b9', .ord⟩), ("kappa", ⟨'\u03ba', .ord⟩),
    ("lambda", ⟨'\u03bb', .ord⟩), ("mu", ⟨'\u03bc', .ord⟩), ("nu", ⟨'\u03bd', .ord⟩),
    ("xi", ⟨'\u03be', .ord⟩), ("pi", ⟨'\u03c0', .ord⟩), ("varpi", ⟨'\u03d6', .ord⟩),
    ("rho", ⟨'\u03c1', .ord⟩), ("varrho", ⟨'\u03f1', .ord⟩), ("sigma", ⟨'\u03c3', .ord⟩),
    ("varsigma", ⟨'\u03c2', .ord⟩), ("tau", ⟨'\u03c4', .ord⟩), ("upsilon", ⟨'\u03c5', .ord⟩),
    ("phi", ⟨'\u03d5', .ord⟩), ("varphi", ⟨'\u03c6', .ord⟩), ("chi", ⟨'\u03c7', .ord⟩),
    ("psi", ⟨'\u03c8', .ord⟩), ("omega", ⟨'\u03c9', .ord⟩)]

/-- Capital Greek letters. -/
def greekCapitals : List (String × Symbol) :=
  [("Gamma", ⟨'\u0393', .ord⟩), ("Delta", ⟨'\u0394', .ord⟩), ("Theta", ⟨'\u0398', .ord⟩),
    ("Lambda", ⟨'\u039b', .ord⟩), ("Xi", ⟨'\u039e', .ord⟩), ("Pi", ⟨'\u03a0', .ord⟩),
    ("Sigma", ⟨'\u03a3', .ord⟩), ("Upsilon", ⟨'\u03a5', .ord⟩), ("Phi", ⟨'\u03a6', .ord⟩),
    ("Psi", ⟨'\u03a8', .ord⟩), ("Omega", ⟨'\u03a9', .ord⟩)]

/-- Ordinary signs and dots. -/
def signs : List (String × Symbol) :=
  [("infty", ⟨'\u221e', .ord⟩), ("partial", ⟨'\u2202', .ord⟩), ("nabla", ⟨'\u2207', .ord⟩),
    ("forall", ⟨'\u2200', .ord⟩), ("exists", ⟨'\u2203', .ord⟩), ("nexists", ⟨'\u2204', .ord⟩),
    ("emptyset", ⟨'\u2205', .ord⟩), ("varnothing", ⟨'\u2205', .ord⟩), ("hbar", ⟨'\u210f', .ord⟩),
    ("ell", ⟨'\u2113', .ord⟩), ("wp", ⟨'\u2118', .ord⟩), ("Re", ⟨'\u211c', .ord⟩),
    ("Im", ⟨'\u2111', .ord⟩), ("aleph", ⟨'\u2135', .ord⟩), ("prime", ⟨'\u2032', .ord⟩),
    ("angle", ⟨'\u2220', .ord⟩), ("triangle", ⟨'\u25b3', .ord⟩), ("neg", ⟨'\u00ac', .ord⟩),
    ("lnot", ⟨'\u00ac', .ord⟩), ("top", ⟨'\u22a4', .ord⟩), ("bot", ⟨'\u22a5', .ord⟩),
    ("vdots", ⟨'\u22ee', .ord⟩), ("ddots", ⟨'\u22f1', .inner⟩), ("ldots", ⟨'\u2026', .inner⟩),
    ("dots", ⟨'\u2026', .inner⟩), ("cdots", ⟨'\u22ef', .inner⟩), ("#", ⟨'#', .ord⟩),
    ("$", ⟨'$', .ord⟩), ("%", ⟨'%', .ord⟩), ("&", ⟨'&', .ord⟩), ("_", ⟨'_', .ord⟩),
    ("backslash", ⟨'\\', .ord⟩), ("vert", ⟨'|', .ord⟩), ("Vert", ⟨'\u2016', .ord⟩),
    ("|", ⟨'\u2016', .ord⟩)]

/-- Binary operators. -/
def binaryOperators : List (String × Symbol) :=
  [("pm", ⟨'\u00b1', .bin⟩), ("mp", ⟨'\u2213', .bin⟩), ("times", ⟨'\u00d7', .bin⟩),
    ("div", ⟨'\u00f7', .bin⟩), ("cdot", ⟨'\u22c5', .bin⟩), ("ast", ⟨'\u2217', .bin⟩),
    ("star", ⟨'\u22c6', .bin⟩), ("circ", ⟨'\u2218', .bin⟩), ("bullet", ⟨'\u2219', .bin⟩),
    ("cap", ⟨'\u2229', .bin⟩), ("cup", ⟨'\u222a', .bin⟩), ("wedge", ⟨'\u2227', .bin⟩),
    ("land", ⟨'\u2227', .bin⟩), ("vee", ⟨'\u2228', .bin⟩), ("lor", ⟨'\u2228', .bin⟩),
    ("setminus", ⟨'\u2216', .bin⟩), ("oplus", ⟨'\u2295', .bin⟩), ("ominus", ⟨'\u2296', .bin⟩),
    ("otimes", ⟨'\u2297', .bin⟩), ("odot", ⟨'\u2299', .bin⟩), ("dagger", ⟨'\u2020', .bin⟩),
    ("ddagger", ⟨'\u2021', .bin⟩)]

/-- Relations and arrows. -/
def relations : List (String × Symbol) :=
  [("leq", ⟨'\u2264', .rel⟩), ("le", ⟨'\u2264', .rel⟩), ("geq", ⟨'\u2265', .rel⟩),
    ("ge", ⟨'\u2265', .rel⟩), ("neq", ⟨'\u2260', .rel⟩), ("ne", ⟨'\u2260', .rel⟩),
    ("equiv", ⟨'\u2261', .rel⟩), ("approx", ⟨'\u2248', .rel⟩), ("sim", ⟨'\u223c', .rel⟩),
    ("simeq", ⟨'\u2243', .rel⟩), ("cong", ⟨'\u2245', .rel⟩), ("propto", ⟨'\u221d', .rel⟩),
    ("ll", ⟨'\u226a', .rel⟩), ("gg", ⟨'\u226b', .rel⟩), ("in", ⟨'\u2208', .rel⟩),
    ("notin", ⟨'\u2209', .rel⟩), ("ni", ⟨'\u220b', .rel⟩), ("subset", ⟨'\u2282', .rel⟩),
    ("supset", ⟨'\u2283', .rel⟩), ("subseteq", ⟨'\u2286', .rel⟩), ("supseteq", ⟨'\u2287', .rel⟩),
    ("mid", ⟨'\u2223', .rel⟩), ("parallel", ⟨'\u2225', .rel⟩), ("perp", ⟨'\u22a5', .rel⟩),
    ("models", ⟨'\u22a8', .rel⟩), ("vdash", ⟨'\u22a2', .rel⟩), ("to", ⟨'\u2192', .rel⟩),
    ("rightarrow", ⟨'\u2192', .rel⟩), ("leftarrow", ⟨'\u2190', .rel⟩), ("gets", ⟨'\u2190', .rel⟩),
    ("leftrightarrow", ⟨'\u2194', .rel⟩), ("Rightarrow", ⟨'\u21d2', .rel⟩),
    ("Leftarrow", ⟨'\u21d0', .rel⟩), ("Leftrightarrow", ⟨'\u21d4', .rel⟩),
    ("mapsto", ⟨'\u21a6', .rel⟩), ("implies", ⟨'\u27f9', .rel⟩), ("iff", ⟨'\u27fa', .rel⟩),
    ("uparrow", ⟨'\u2191', .rel⟩), ("downarrow", ⟨'\u2193', .rel⟩)]

/-- Large operators. -/
def largeOperators : List (String × Symbol) :=
  [("sum", ⟨'\u2211', .op⟩), ("prod", ⟨'\u220f', .op⟩), ("coprod", ⟨'\u2210', .op⟩),
    ("int", ⟨'\u222b', .op⟩), ("iint", ⟨'\u222c', .op⟩), ("iiint", ⟨'\u222d', .op⟩),
    ("oint", ⟨'\u222e', .op⟩), ("bigcup", ⟨'\u22c3', .op⟩), ("bigcap", ⟨'\u22c2', .op⟩),
    ("bigoplus", ⟨'\u2a01', .op⟩), ("bigotimes", ⟨'\u2a02', .op⟩), ("bigvee", ⟨'\u22c1', .op⟩),
    ("bigwedge", ⟨'\u22c0', .op⟩)]

/-- Opening and closing delimiters. -/
def delimiters : List (String × Symbol) :=
  [("\x7b", ⟨'{', .opening⟩), ("\x7d", ⟨'}', .closing⟩), ("lbrace", ⟨'{', .opening⟩),
    ("rbrace", ⟨'}', .closing⟩), ("lbrack", ⟨'[', .opening⟩), ("rbrack", ⟨']', .closing⟩),
    ("langle", ⟨'\u27e8', .opening⟩), ("rangle", ⟨'\u27e9', .closing⟩),
    ("lfloor", ⟨'\u230a', .opening⟩), ("rfloor", ⟨'\u230b', .closing⟩),
    ("lceil", ⟨'\u2308', .opening⟩), ("rceil", ⟨'\u2309', .closing⟩), ("lvert", ⟨'|', .opening⟩),
    ("rvert", ⟨'|', .closing⟩), ("lVert", ⟨'\u2016', .opening⟩), ("rVert", ⟨'\u2016', .closing⟩)]

/-- Punctuation. -/
def punctuation : List (String × Symbol) :=
  [("colon", ⟨':', .punct⟩)]

/-- The commands that stand for one sign. -/
def table : List (String × Symbol) :=
  greekLetters ++ greekCapitals ++ signs ++ binaryOperators ++ relations ++ largeOperators ++
    delimiters ++ punctuation

/-- The sign of a command. -/
def named? (name : String) : Option Symbol := table.lookup name

/-- The sign drawn for a typed character: hyphens and stars become operators. -/
def literalGlyph (c : Char) : Char :=
  if c = '-' then '\u2212' else if c = '*' then '\u2217' else c

/-- The class of a typed character. -/
def literalClass (c : Char) : MathClass :=
  if c ∈ ['+', '-', '*', '\u2212', '\u00b1', '\u00d7', '\u00f7', '\u22c5'] then .bin
  else if c ∈ ['=', '<', '>', ':', '\u2264', '\u2265', '\u2260', '\u2192', '\u2208'] then .rel
  else if c ∈ ['(', '['] then .opening
  else if c ∈ [')', ']', '!', '?'] then .closing
  else if c ∈ [',', ';'] then .punct
  else if c ∈ ['\u2211', '\u220f', '\u222b'] then .op
  else .ord

/-- The sign that a typed character stands for. -/
def literal (c : Char) : Symbol := ⟨literalGlyph c, literalClass c⟩

/-- Integral signs keep their scripts beside them. -/
def isIntegral (c : Char) : Bool := c ∈ ['\u222b', '\u222c', '\u222d', '\u222e']

/-- Large operators grow in display style and stand centred on the axis. -/
def isLarge (c : Char) : Bool :=
  isIntegral c || c ∈ ['\u2211', '\u220f', '\u2210', '\u22c3', '\u22c2', '\u2a01', '\u2a02',
    '\u22c1', '\u22c0']

end Symbol

/-- The prime that an apostrophe stands for. -/
def primeChar : Char := '\u2032'

/-- The radical sign. -/
def radicalChar : Char := '\u221a'

/-- The operators whose name is their command; their scripts stay beside them. -/
def plainOperators : List String :=
  ["sin", "cos", "tan", "cot", "sec", "csc", "arcsin", "arccos", "arctan", "sinh", "cosh", "tanh",
    "coth", "log", "ln", "lg", "exp", "deg", "dim", "hom", "ker", "arg"]

/-- The operators whose name is their command; in display style their scripts are limits. -/
def limitOperators : List String := ["lim", "max", "min", "sup", "inf", "det", "gcd", "Pr"]

/-- The commands for operators: the written name, and whether scripts are limits in display. -/
def operatorNames : List (String × String × Bool) :=
  plainOperators.map (fun n => (n, n, false)) ++ limitOperators.map (fun n => (n, n, true)) ++
    [("liminf", "lim inf", true), ("limsup", "lim sup", true)]

/-- A delimiter: a character that grows with what it encloses, or nothing. -/
abbrev Delimiter := Option Char

/-- The commands that are delimiters although their class is neither opening nor closing. -/
def neutralDelimiters : List String := ["|", "vert", "Vert", "backslash", "uparrow", "downarrow"]

/-- The delimiter of a token, which is one character or a command with its backslash. A full stop
is the empty delimiter. -/
def delimiter? (token : List Char) : Option Delimiter :=
  match token with
  | ['.'] => some none
  | ['<'] => some (some '\u27e8')
  | ['>'] => some (some '\u27e9')
  | [c] => if c ∈ ['(', ')', '[', ']', '|', '/'] then some (some c) else none
  | '\\' :: rest => do
    let name := String.ofList rest
    let symbol ← Symbol.named? name
    if symbol.mathClass = .opening ∨ symbol.mathClass = .closing ∨ name ∈ neutralDelimiters then
      some (some symbol.char)
    else
      none
  | _ => none

end Typeset
