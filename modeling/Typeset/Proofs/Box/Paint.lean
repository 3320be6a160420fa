import Typeset.Box.Paint
import Typeset.Proofs.Box.Tint

/-!
# Ink

What is drawn of a box wherever it stands: its characters and delimiters, in order, with their
sizes and colors.

* `Box.ink`: the ink of a box, by its tree; `Box.filterMap_draw`: that of its strokes, from whatever
  place it is drawn.
* `Box.ink_eq_flatMap_tintedPieces`: a row has the ink of its pieces in their colors.
-/

namespace Typeset

variable {α : Type}

/-- A character or delimiter as it is drawn, without its place. -/
inductive Ink (α : Type) where
  | char (char : Char) (font : Font) (size : α) (color : Color)
  | delimiter (char : Char) (width height : α) (color : Color)

/-- The character or delimiter that the stroke draws. -/
def DrawCall.ink? : DrawCall α → Option (Ink α)
  | char c font size _ _ color => some (.char c font size color)
  | delimiter c _ _ width height color => some (.delimiter c width height color)
  | fill .. | stroke .. => none

/-- The color inside tints, in a color around them. -/
def Tint.colorWithin (fg : Color) (chain : List Tint) : Color :=
  chain.foldl (fun color tint => tint.fg.getD color) fg

theorem Tint.colorWithin_append (fg : Color) (chain : List Tint) (t : Tint) :
    colorWithin fg (chain ++ [t]) = t.fg.getD (colorWithin fg chain) := by
  simp [colorWithin]

namespace Box

variable [Scalar α]

mutual

/-- The characters and delimiters of a box in a color. -/
def ink (fg : Color) : Box α → List (Ink α)
  | ⟨_, _, _, _, .char c font size⟩ => [.char c font size fg]
  | b@⟨w, _, _, _, .delimiter c⟩ => [.delimiter c w b.total fg]
  | ⟨_, _, _, _, .hbox children⟩ | ⟨_, _, _, _, .vbox children _⟩ => inkAll fg children
  | ⟨_, _, _, _, .colored color _ child⟩ => child.ink (color.getD fg)
  | ⟨_, _, _, _, .framed _ _ _ _ child⟩ => child.ink fg
  | ⟨_, _, _, _, .rule⟩ | ⟨_, _, _, _, .strut⟩ | ⟨_, _, _, _, .glue _⟩ => []

/-- The characters and delimiters of boxes. -/
def inkAll (fg : Color) : List (Box α) → List (Ink α)
  | [] => []
  | b :: bs => b.ink fg ++ inkAll fg bs

end

/-- A background draws no ink. -/
theorem filterMap_background (b : Box α) (x y : α) (bg : Option Color) :
    (b.background x y bg).filterMap DrawCall.ink? = [] := by
  cases bg <;> rfl

mutual

/-- The place where a box is drawn makes no difference to its ink. -/
theorem filterMap_draw (fg : Color) (x y : α) (b : Box α) :
    (b.draw fg x y).filterMap DrawCall.ink? = b.ink fg := by
  obtain ⟨w, h, d, s, content⟩ := b
  cases content with
  | char | rule | strut | glue | delimiter => simp [draw, ink, DrawCall.ink?, fill]
  | hbox children => rw [draw, ink, filterMap_drawRow]
  | vbox children baseline => rw [draw, ink, filterMap_drawStack]
  | colored color bg child =>
    rw [draw, ink, List.filterMap_append, filterMap_background, filterMap_draw, List.nil_append]
  | framed thickness padding frame bg child =>
    rw [draw, ink, List.filterMap_append, List.filterMap_append, filterMap_background,
      filterMap_draw]
    split <;> rfl

theorem filterMap_drawRow (fg : Color) (x y : α) (bs : List (Box α)) :
    (drawRow fg x y bs).filterMap DrawCall.ink? = inkAll fg bs := by
  cases bs with
  | nil => rw [drawRow, inkAll, List.filterMap_nil]
  | cons b bs => rw [drawRow, inkAll, List.filterMap_append, filterMap_draw, filterMap_drawRow]

theorem filterMap_drawStack (fg : Color) (x top : α) (bs : List (Box α)) :
    (drawStack fg x top bs).filterMap DrawCall.ink? = inkAll fg bs := by
  cases bs with
  | nil => rw [drawStack, inkAll, List.filterMap_nil]
  | cons b bs => rw [drawStack, inkAll, List.filterMap_append, filterMap_draw, filterMap_drawStack]

end

/-! ## The ink of pieces -/

theorem inkAll_eq_flatMap (fg : Color) (bs : List (Box α)) :
    inkAll fg bs = bs.flatMap (ink fg) := by
  induction bs with
  | nil => rw [inkAll, List.flatMap_nil]
  | cons b bs ih => rw [inkAll, ih, List.flatMap_cons]

/-- The ink of a piece in the color that its tints make. -/
def pieceInk (fg : Color) (piece : Box α × List Tint) : List (Ink α) :=
  piece.1.ink (Tint.colorWithin fg piece.2)

/-- Opening colored rows keeps the ink. -/
theorem flatMap_opened (fg : Color) (path : List Tint) (bs : List (Box α)) :
    (opened path bs).flatMap (pieceInk fg) = inkAll (Tint.colorWithin fg path) bs := by
  fun_induction opened path bs with
  | case1 => rw [inkAll, List.flatMap_nil]
  | case2 path bs _ _ _ _ color bg _ _ _ _ children _ ihchildren ih =>
    rw [List.flatMap_append, ihchildren, ih, Tint.colorWithin_append, inkAll, ink, ink]
  | case3 path bs _ _ _ _ color bg _ _ _ _ children _ ih | case4 path b bs _ ih =>
    rw [List.flatMap_cons, ih, inkAll, pieceInk]

theorem ink_eq_inkAll_children (fg : Color) {b : Box α} (h : b.isHBox = true) :
    b.ink fg = inkAll fg b.children := by
  obtain ⟨w, h', d, s, content⟩ := b
  cases content with
  | hbox bs => rw [ink, children, BoxContent.children]
  | _ => cases h

/-- A row has the ink of its pieces in their colors. -/
theorem ink_eq_flatMap_tintedPieces (fg : Color) {b : Box α} (h : b.isHBox = true) :
    b.ink fg = b.tintedPieces.flatMap (pieceInk fg) := by
  rw [tintedPieces_eq_opened, flatMap_opened, ink_eq_inkAll_children fg h]
  rfl

/-- Breakable space draws nothing. -/
theorem pieceInk_of_isBreakable (fg : Color) {piece : Box α × List Tint}
    (h : piece.1.isBreakable = true) : pieceInk fg piece = [] := by
  obtain ⟨⟨w, h', d, s, content⟩, chain⟩ := piece
  cases content with
  | glue => rw [pieceInk, ink]
  | _ => cases h

end Box

end Typeset
