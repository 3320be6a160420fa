import Typeset.Color.Basic

/-!
# Color names

The names that every document knows: the basic colors in lower case, and the named inks of color
printing, each with a capital.
-/

namespace Typeset.Color

/-- The basic colors. -/
def basicNames : List (String × Nat) :=
  [("black", 0x000000), ("white", 0xFFFFFF), ("red", 0xFF0000), ("green", 0x00FF00),
    ("blue", 0x0000FF), ("yellow", 0xFFFF00), ("cyan", 0x00FFFF), ("magenta", 0xFF00FF),
    ("orange", 0xFF8000), ("purple", 0xBF0040), ("pink", 0xFFBFBF), ("brown", 0xBF8040),
    ("gray", 0x808080), ("grey", 0x808080), ("darkgray", 0x404040), ("lightgray", 0xBFBFBF),
    ("lime", 0xBFFF00), ("olive", 0x808000), ("teal", 0x008080), ("violet", 0x800080)]

/-- The inks of color printing. -/
def inkNames : List (String × Nat) :=
  [("Apricot", 0xFBB982), ("Aquamarine", 0x00B5BE), ("Bittersweet", 0xC04F17),
    ("BlueViolet", 0x473992), ("BrickRed", 0xB6321C), ("BurntOrange", 0xF7921D),
    ("CadetBlue", 0x74729A), ("CarnationPink", 0xF282B4), ("Cerulean", 0x00A2E3),
    ("CornflowerBlue", 0x41B0E4), ("Dandelion", 0xFDBC42), ("DarkOrchid", 0xA4538A),
    ("Emerald", 0x00A99D), ("ForestGreen", 0x009B55), ("Goldenrod", 0xFFDF42),
    ("JungleGreen", 0x00A99A), ("Lavender", 0xF49EC4), ("LimeGreen", 0x8DC73E),
    ("Mahogany", 0xA9341F), ("Maroon", 0xAF3235), ("MidnightBlue", 0x006795),
    ("NavyBlue", 0x006EB8), ("OliveGreen", 0x3C8031), ("OrangeRed", 0xED135A),
    ("Orchid", 0xAF72B0), ("Peach", 0xF7965A), ("Plum", 0x92268F), ("RoyalBlue", 0x0071BC),
    ("Salmon", 0xF69289), ("SeaGreen", 0x3FBC9D), ("SkyBlue", 0x46C5DD), ("Tan", 0xDA9D76),
    ("TealBlue", 0x00AEB3), ("Turquoise", 0x00B4CE), ("VioletRed", 0xEF58A0),
    ("WildStrawberry", 0xEE2967), ("YellowGreen", 0x98CC70), ("YellowOrange", 0xFAA21A)]

/-- The color of a known name, spelled exactly. -/
def named? (name : String) : Option Color :=
  ((basicNames ++ inkNames).lookup name).map ofNat

end Typeset.Color
