import Typeset.Markup.Command
import Typeset.Spacing

/-!
# Commands of the language

The names of the commands that every document knows, the signs of the symbol table apart. No name
is listed twice.
-/

namespace Typeset.Builtin

def romanChange : FontChange := .toFamily .roman
def sansChange : FontChange := .toFamily .sansSerif
def typewriterChange : FontChange := .toFamily .typewriter
def boldChange : FontChange := { romanChange with bold := some true }
def italicChange : FontChange := { romanChange with italic := some true }
def heavyChange : FontChange := { bold := some true }

/-- Fractions, radicals and lines. -/
def fractions : List (String × Builtin) :=
  [("frac", .fraction true none false), ("cfrac", .fraction true (some .display) false),
    ("dfrac", .fraction true (some .display) false), ("tfrac", .fraction true (some .text) false),
    ("binom", .fraction false none true), ("dbinom", .fraction false (some .display) true),
    ("tbinom", .fraction false (some .text) true), ("over", .division true none),
    ("atop", .division false none), ("choose", .division false (some ('(', ')'))),
    ("brace", .division false (some ('{', '}'))), ("brack", .division false (some ('[', ']'))),
    ("sqrt", .sqrt), ("overline", .decorate .overline), ("underline", .decorate .underline)]

/-- Fonts and running text. -/
def fonts : List (String × Builtin) :=
  [("mathrm", .font romanChange), ("mathbf", .font boldChange), ("mathit", .font italicChange),
    ("mathsf", .font sansChange), ("mathtt", .font typewriterChange),
    ("mathnormal", .font (.toFamily .math)), ("boldsymbol", .font heavyChange),
    ("bm", .font heavyChange), ("rm", .fontSwitch romanChange), ("bf", .fontSwitch boldChange),
    ("it", .fontSwitch italicChange), ("sf", .fontSwitch sansChange),
    ("tt", .fontSwitch typewriterChange), ("text", .text romanChange),
    ("textrm", .text romanChange), ("textnormal", .text romanChange), ("mbox", .text romanChange),
    ("textbf", .text boldChange), ("textit", .text italicChange), ("textsf", .text sansChange),
    ("texttt", .text typewriterChange)]

/-- Classes and styles. -/
def classes : List (String × Builtin) :=
  [("mathord", .classed .ord), ("mathop", .classed .op), ("mathbin", .classed .bin),
    ("mathrel", .classed .rel), ("mathopen", .classed .opening), ("mathclose", .classed .closing),
    ("mathpunct", .classed .punct), ("mathinner", .classed .inner),
    ("displaystyle", .style .display), ("textstyle", .style .text),
    ("scriptstyle", .style .script), ("scriptscriptstyle", .style .scriptScript)]

/-- Colors, frames and fences. -/
def boxes : List (String × Builtin) :=
  [("color", .color), ("textcolor", .textColor), ("colorbox", .colorBox),
    ("fcolorbox", .frameColorBox), ("fbox", .frameBox), ("boxed", .frameBox),
    ("definecolor", .defineColor), ("left", .left), ("middle", .middle), ("right", .right),
    ("limits", .limits true), ("nolimits", .limits false)]

/-- Definitions. -/
def definitions : List (String × Builtin) :=
  [("operatorname", .operatorName), ("DeclareMathOperator", .declareOperator),
    ("newcommand", .newCommand .new), ("renewcommand", .newCommand .renew),
    ("providecommand", .newCommand .provide), ("def", .define), ("usepackage", .usePackage)]

/-- Environments and tables, rules and space. -/
def tables : List (String × Builtin) :=
  [("begin", .openEnvironment), ("end", .closeEnvironment), ("\\", .rowSeparator),
    ("cr", .rowSeparator), ("hline", .hrule), ("cline", .columnRule), ("cellcolor", .cellColor),
    ("rowcolor", .rowColor), ("rule", .rule), ("hspace", .hspace), ("vcenter", .vcenter)]

/-- The height in em of the four sizes of delimiters. -/
def delimiterSizes : List (String × Decimal) :=
  [("big", { digits := 12, exponent := -1 }), ("Big", { digits := 18, exponent := -1 }),
    ("bigg", { digits := 24, exponent := -1 }), ("Bigg", { digits := 30, exponent := -1 })]

/-- The delimiters of one class; `letter` follows the names of the sizes. -/
def delimitersOf (letter : String) (c : MathClass) : List (String × Builtin) :=
  delimiterSizes.map fun (name, size) => (name ++ letter, .bigDelimiter size c)

/-- Delimiters of a fixed size. -/
def bigDelimiters : List (String × Builtin) :=
  delimitersOf "" .ord ++ delimitersOf "l" .opening ++ delimitersOf "r" .closing ++
    delimitersOf "m" .rel

/-- Explicit space. -/
def spaces : List (String × Builtin) := spaceCommands.map fun (name, l) => (name, .space l)

/-- Written operators. -/
def operators : List (String × Builtin) :=
  operatorNames.map fun (name, written, above) => (name, .operator written above)

/-- The commands of the language with their names. -/
def table : List (String × Builtin) :=
  fractions ++ fonts ++ classes ++ boxes ++ definitions ++ tables ++ bigDelimiters ++ spaces ++
    operators

/-- No name is listed twice. -/
theorem table_names_nodup : (table.map Prod.fst).Nodup := by decide +kernel

end Typeset.Builtin
