import Mathlib.Tactic.Ring
import Typeset.Box.Paint
import Typeset.Proofs.Box.Measured
import Typeset.Proofs.Scalar

/-!
# Places

Where the boxes of a tree are drawn, said by the measures of the boxes around them, with exact
lengths. The painter walks the tree and adds up as it goes; the places here are sums over the boxes
around a box.

* `Box.Built`: the box comes from the ways to build boxes, also at other shifts.
* `Placement`, `Box.placements`: a box in a tree with what is around it; all of them, in the order
  of drawing.
* `Placement.left`, `Placement.baseline`, `Placement.foreground`: where it is drawn, and in which
  color; `Placement.path`: the way to it.
* `Box.draw_eq_flatMap_strokes`: the strokes of a box are the strokes of the boxes in it, each at
  its place; `Box.draw_translate`: so they move with the pen.
* `Placement.Agrees`: what the measures of rows and columns say of the places of their children;
  `Box.Built.agrees`: a built box keeps to that.
* `Box.Built.draw_agrees`: painting agrees with the measures.
-/

namespace Typeset

namespace Box

/-! ## Built boxes -/

section Built

variable {α : Type} [Scalar α]

/-- The box comes from the ways to build boxes. The baseline of boxes below each other is that of
one of them, if there are any. -/
inductive Built : Box α → Prop
  | strut (width height depth : α) : Built (strut width height depth)
  | rule (width height depth : α) : Built (rule width height depth)
  | glue (width : α) (breakable : Bool) : Built (glue width breakable)
  | glyph (c : Char) (font : Font) (size width height depth : α) :
    Built (glyph c font size width height depth)
  | delimiter (c : Char) (width height depth : α) : Built (delimiter c width height depth)
  | hbox {children : List (Box α)} (h : ∀ c ∈ children, Built c) : Built (hbox children)
  | vbox {children : List (Box α)} {baseline : Nat} (h : ∀ c ∈ children, Built c)
    (hbaseline : children = [] ∨ baseline < children.length) : Built (vbox children baseline)
  | colored {child : Box α} (h : Built child) (fg bg : Option Color) : Built (child.colored fg bg)
  | framed {child : Box α} (h : Built child) (thickness padding : α) (frame bg : Option Color) :
    Built (child.framed thickness padding frame bg)
  | withShift {b : Box α} (h : Built b) (shift : α) : Built (b.withShift shift)

namespace Built

variable {b : Box α}

/-- A box that is moved into a wider one is built, too. -/
theorem aligned (h : b.Built) (width : α) (align : HAlign) : (b.aligned width align).Built := by
  unfold Box.aligned
  simp only
  split
  · exact h
  · cases align <;> exact hbox (by simp [h, kern, Built.glue])

theorem child {c : Box α} (h : b.Built) (hc : c ∈ b.children) : c.Built := by
  induction h with
  | strut | rule | glue | glyph | delimiter => cases hc
  | hbox h | vbox h => exact h c hc
  | colored h | framed h => exact List.mem_singleton.mp hc ▸ h
  | withShift _ _ ih => exact ih hc

/-- A row is as wide as its children together. -/
theorem width_eq {children : List (Box α)} (h : b.Built) (hb : b.content = .hbox children) :
    b.width = Scalar.sum (children.map width) := by
  induction h with
  | hbox => cases hb; rfl
  | withShift _ _ ih => exact ih hb
  | _ => cases hb

/-- A column has the height and depth of its children below each other. -/
theorem stackMeasures {children : List (Box α)} {baseline : Nat} (h : b.Built)
    (hb : b.content = .vbox children baseline) :
    StackMeasures children baseline b.height b.depth := by
  induction h with
  | vbox _ hbaseline => cases hb; exact stackMeasures_vbox hbaseline
  | withShift _ _ ih => exact ih hb
  | _ => cases hb

end Built

end Built

/-! ## Places -/

/-- How far right of the pen of a box that of child number `i` is. -/
def childRight (b : Box Rat) (i : Nat) : Rat :=
  match b.content with
  | .hbox children => ((children.take i).map width).sum
  | .framed thickness padding .. => thickness + padding
  | _ => 0

/-- How far below the pen of a box that of child number `i` is. -/
def childDown (b : Box Rat) (i : Nat) : Rat :=
  match b.content with
  | .hbox children => (children[i]?.map shift).getD 0
  | .vbox children _ =>
    ((children.take i).map total).sum + (children[i]?.map height).getD 0 - b.height
  | _ => 0

/-- The foreground that a box sets for what is in it. -/
def foreground? {α : Type} (b : Box α) : Option Color :=
  match b.content with
  | .colored fg _ _ => fg
  | _ => none

/-- The strokes of the box itself, without those of its children. -/
def ownStrokes (fg : Color) (x y : Rat) (b : Box Rat) : List (DrawCall Rat) :=
  match b.content with
  | .char c font size => [.char c font size x y fg]
  | .rule => [b.fill x y fg]
  | .delimiter c => [.delimiter c x (y - b.height) b.width b.total fg]
  | .colored _ bg _ => b.background x y bg
  | .framed thickness _ frame bg _ =>
    b.background x y bg ++
      if 0 < thickness then [.stroke x (y - b.height) b.width b.total thickness (frame.getD fg)]
      else []
  | .strut | .glue _ | .hbox _ | .vbox _ _ => []

end Box

/-- A box in a tree, with the boxes around it. -/
structure Placement where
  /-- The boxes around it from the outermost one, each with the number of its child on the way. -/
  around : List (Box Rat × Nat)
  box : Box Rat

namespace Placement

/-- Child number `i`, which is `c`. -/
def child (n : Placement) (i : Nat) (c : Box Rat) : Placement := ⟨n.around ++ [(n.box, i)], c⟩

/-- The left end, if the tree is drawn at `x`. -/
def left (x : Rat) (n : Placement) : Rat := x + (n.around.map fun a => a.1.childRight a.2).sum

/-- The right end. -/
def right (x : Rat) (n : Placement) : Rat := n.left x + n.box.width

/-- The baseline, if the tree is drawn at `y`. -/
def baseline (y : Rat) (n : Placement) : Rat := y + (n.around.map fun a => a.1.childDown a.2).sum

/-- The upper edge. -/
def top (y : Rat) (n : Placement) : Rat := n.baseline y - n.box.height

/-- The lower edge. -/
def bottom (y : Rat) (n : Placement) : Rat := n.baseline y + n.box.depth

/-- The foreground of the innermost box around it that sets one, else that of the tree. -/
def foreground (fg : Color) (n : Placement) : Color :=
  (n.around.reverse.findSome? fun a => a.1.foreground?).getD fg

/-- The strokes of the box itself, if the tree is drawn at (`x`, `y`) in the color `fg`. -/
def strokes (fg : Color) (x y : Rat) (n : Placement) : List (DrawCall Rat) :=
  n.box.ownStrokes (n.foreground fg) (n.left x) (n.baseline y)

variable (n : Placement) (i : Nat) (c : Box Rat)

/-- The numbers of the children that lead to the box. -/
def path (n : Placement) : List Nat := n.around.map Prod.snd

@[simp] theorem box_child : (n.child i c).box = c := rfl

@[simp] theorem path_child : (n.child i c).path = n.path ++ [i] := by simp [path, child]

theorem path_prefix_child : n.path <+: (n.child i c).path := by
  rw [path_child]
  exact List.prefix_append _ _

@[simp]
theorem left_child (x : Rat) : (n.child i c).left x = n.left x + n.box.childRight i := by
  simp [left, child, add_assoc]

@[simp]
theorem baseline_child (y : Rat) :
    (n.child i c).baseline y = n.baseline y + n.box.childDown i := by
  simp [baseline, child, add_assoc]

@[simp]
theorem foreground_child (fg : Color) :
    (n.child i c).foreground fg = n.box.foreground?.getD (n.foreground fg) := by
  simp only [foreground, child, List.reverse_append, List.reverse_singleton, List.singleton_append,
    List.findSome?_cons]
  cases n.box.foreground? <;> rfl

end Placement

namespace Box

mutual

/-- The boxes of the tree of a box inside others, each before its children. -/
def placementsIn (around : List (Box Rat × Nat)) : Box Rat → List Placement
  | b@⟨_, _, _, _, .hbox children⟩ | b@⟨_, _, _, _, .vbox children _⟩ =>
    ⟨around, b⟩ :: placementsFrom around b 0 children
  | b@⟨_, _, _, _, .colored _ _ child⟩ | b@⟨_, _, _, _, .framed _ _ _ _ child⟩ =>
    ⟨around, b⟩ :: child.placementsIn (around ++ [(b, 0)])
  | b => [⟨around, b⟩]

/-- The boxes of the trees of the children from number `i` on. -/
def placementsFrom (around : List (Box Rat × Nat)) (parent : Box Rat) (i : Nat) :
    List (Box Rat) → List Placement
  | [] => []
  | c :: cs => c.placementsIn (around ++ [(parent, i)]) ++ placementsFrom around parent (i + 1) cs

end

/-- The boxes of a tree, each before its children. -/
def placements (b : Box Rat) : List Placement := b.placementsIn []

theorem placementsFrom_eq (around : List (Box Rat × Nat)) (parent : Box Rat) (i : Nat)
    (cs : List (Box Rat)) :
    placementsFrom around parent i cs =
      (cs.zipIdx i).flatMap fun ci => ci.1.placementsIn (around ++ [(parent, ci.2)]) := by
  induction cs generalizing i with
  | nil => rw [placementsFrom, List.zipIdx_nil, List.flatMap_nil]
  | cons c cs ih => rw [placementsFrom, ih, List.zipIdx_cons, List.flatMap_cons]

/-- A box comes before the boxes of its children. -/
theorem placementsIn_eq (around : List (Box Rat × Nat)) (b : Box Rat) :
    b.placementsIn around = ⟨around, b⟩ ::
      b.children.zipIdx.flatMap fun ci => ci.1.placementsIn (around ++ [(b, ci.2)]) := by
  obtain ⟨w, h, d, s, content⟩ := b
  cases content with
  | hbox | vbox => rw [placementsIn, placementsFrom_eq]; rfl
  | colored | framed => rw [placementsIn]; simp [children, BoxContent.children]
  | _ => rw [placementsIn] <;> simp [children, BoxContent.children]

theorem sizeOf_lt_of_mem_children {b c : Box Rat} (h : c ∈ b.children) : sizeOf c < sizeOf b := by
  obtain ⟨w, h', d, s, content⟩ := b
  cases content with
  | hbox children | vbox children =>
    have hlt : sizeOf c < sizeOf children := List.sizeOf_lt_of_mem h
    simp only [mk.sizeOf_spec, BoxContent.hbox.sizeOf_spec, BoxContent.vbox.sizeOf_spec]
    omega
  | colored | framed =>
    rw [List.mem_singleton.mp h]
    simp only [mk.sizeOf_spec, BoxContent.colored.sizeOf_spec, BoxContent.framed.sizeOf_spec]
    omega
  | _ => cases h

/-- What holds of a box if it holds of its children holds of every box. -/
@[elab_as_elim]
theorem children_induction {P : Box Rat → Prop}
    (h : ∀ b : Box Rat, (∀ c ∈ b.children, P c) → P b) (b : Box Rat) : P b :=
  h b fun c hc =>
    have := sizeOf_lt_of_mem_children hc
    children_induction h c
termination_by b

/-! ## Strokes -/

section Strokes

variable (fg : Color) (x y : Rat)

/-- Each child of a row starts where the one before it ends. -/
theorem drawRow_eq (b : Box Rat) (before cs : List (Box Rat))
    (h : b.content = .hbox (before ++ cs)) :
    drawRow fg (x + (before.map width).sum) y cs =
      (cs.zipIdx before.length).flatMap fun ci =>
        ci.1.draw (b.foreground?.getD fg) (x + b.childRight ci.2) (y + b.childDown ci.2) := by
  induction cs generalizing before with
  | nil => rw [drawRow, List.zipIdx_nil, List.flatMap_nil]
  | cons c cs ih =>
    have hrest := ih (before ++ [c]) (by simpa using h)
    rw [List.map_append, List.sum_append, List.map_singleton, List.sum_singleton, ← add_assoc,
      List.length_append, List.length_singleton] at hrest
    rw [drawRow, hrest, List.zipIdx_cons, List.flatMap_cons]
    simp [foreground?, childRight, childDown, h]

/-- Each child of a column starts below the one above it. -/
theorem drawStack_eq (b : Box Rat) (above cs : List (Box Rat)) {baseline : Nat}
    (h : b.content = .vbox (above ++ cs) baseline) :
    drawStack fg x (y - b.height + (above.map total).sum) cs =
      (cs.zipIdx above.length).flatMap fun ci =>
        ci.1.draw (b.foreground?.getD fg) (x + b.childRight ci.2) (y + b.childDown ci.2) := by
  induction cs generalizing above with
  | nil => rw [drawStack, List.zipIdx_nil, List.flatMap_nil]
  | cons c cs ih =>
    have hrest := ih (above ++ [c]) (by simpa using h)
    rw [List.map_append, List.sum_append, List.map_singleton, List.sum_singleton, ← add_assoc,
      List.length_append, List.length_singleton] at hrest
    have hdown : y - b.height + (above.map total).sum + c.height =
        y + ((above.map total).sum + c.height - b.height) := by ring
    rw [drawStack, hrest, List.zipIdx_cons, List.flatMap_cons, hdown]
    simp [foreground?, childRight, childDown, h]

/-- A box draws itself, and then each child at its place. -/
theorem draw_eq (b : Box Rat) :
    b.draw fg x y = b.ownStrokes fg x y ++ b.children.zipIdx.flatMap fun ci =>
      ci.1.draw (b.foreground?.getD fg) (x + b.childRight ci.2) (y + b.childDown ci.2) := by
  obtain ⟨w, h, d, s, content⟩ := b
  cases content with
  | hbox cs =>
    have hrow := drawRow_eq fg x y ⟨w, h, d, s, .hbox cs⟩ [] cs rfl
    rw [List.map_nil, List.sum_nil, add_zero] at hrow
    rw [draw, hrow]
    rfl
  | vbox cs baseline =>
    have hstack := drawStack_eq fg x y ⟨w, h, d, s, .vbox cs baseline⟩ [] cs rfl
    rw [List.map_nil, List.sum_nil, add_zero] at hstack
    rw [draw, hstack]
    rfl
  | _ =>
    simp [draw, ownStrokes, children, BoxContent.children, foreground?, childRight, childDown,
      Scalar.zero_rat, add_assoc]

/-- The strokes of the boxes of a tree inside others are what is drawn at its place. -/
theorem flatMap_strokes_placementsIn (around : List (Box Rat × Nat)) (b : Box Rat) :
    (b.placementsIn around).flatMap (Placement.strokes fg x y) =
      b.draw (Placement.foreground fg ⟨around, b⟩) (Placement.left x ⟨around, b⟩)
        (Placement.baseline y ⟨around, b⟩) := by
  induction b using children_induction generalizing around with
  | h b ih =>
    have hchild : ∀ ci ∈ b.children.zipIdx,
        (ci.1.placementsIn (around ++ [(b, ci.2)])).flatMap (Placement.strokes fg x y) =
          ci.1.draw (b.foreground?.getD (Placement.foreground fg ⟨around, b⟩))
            (Placement.left x ⟨around, b⟩ + b.childRight ci.2)
            (Placement.baseline y ⟨around, b⟩ + b.childDown ci.2) := by
      intro ci hci
      rw [ih ci.1 (List.fst_mem_of_mem_zipIdx hci),
        ← Placement.foreground_child ⟨around, b⟩ ci.2 ci.1,
        ← Placement.left_child ⟨around, b⟩ ci.2 ci.1,
        ← Placement.baseline_child ⟨around, b⟩ ci.2 ci.1, Placement.child]
    rw [placementsIn_eq, draw_eq, List.flatMap_cons, List.flatMap_assoc]
    exact congrArg (_ ++ ·) (List.flatMap_congr hchild)

/-- The strokes of a box are those of the boxes in it, each at its place. -/
theorem draw_eq_flatMap_strokes (b : Box Rat) :
    b.draw fg x y = b.placements.flatMap (Placement.strokes fg x y) := by
  rw [placements, flatMap_strokes_placementsIn]
  simp [Placement.foreground, Placement.left, Placement.baseline]

end Strokes

end Box

/-! ## Moving the pen -/

/-- The stroke at a place that is `dx` to the right and `dy` down. -/
def DrawCall.translate (dx dy : Rat) : DrawCall Rat → DrawCall Rat
  | char c font size x y color => char c font size (dx + x) (dy + y) color
  | delimiter c x y width height color => delimiter c (dx + x) (dy + y) width height color
  | fill x y width height color => fill (dx + x) (dy + y) width height color
  | stroke x y width height thickness color =>
    stroke (dx + x) (dy + y) width height thickness color

namespace Box

theorem ownStrokes_translate (fg : Color) (dx dy x y : Rat) (b : Box Rat) :
    b.ownStrokes fg (dx + x) (dy + y) = (b.ownStrokes fg x y).map (.translate dx dy) := by
  have hbackground (bg : Option Color) :
      b.background (dx + x) (dy + y) bg = (b.background x y bg).map (.translate dx dy) := by
    cases bg <;> simp [background, fill, DrawCall.translate, add_sub_assoc]
  cases hb : b.content with
  | framed thickness padding frame bg child =>
    by_cases ht : 0 < thickness <;>
      simp [ownStrokes, hb, ht, hbackground, DrawCall.translate, add_sub_assoc]
  | _ => simp [ownStrokes, hb, hbackground, DrawCall.translate, fill, add_sub_assoc]

/-- What is drawn moves with the pen. -/
theorem draw_translate (fg : Color) (x y : Rat) (b : Box Rat) :
    b.draw fg x y = (b.draw fg 0 0).map (.translate x y) := by
  have hstrokes (n : Placement) : n.strokes fg x y = (n.strokes fg 0 0).map (.translate x y) := by
    rw [Placement.strokes, Placement.strokes, ← ownStrokes_translate]
    simp [Placement.left, Placement.baseline]
  rw [draw_eq_flatMap_strokes, draw_eq_flatMap_strokes, List.map_flatMap, funext hstrokes]

/-! ## Places and measures -/

/-- The tree as a box of itself. -/
def root (b : Box Rat) : Placement := ⟨[], b⟩

@[simp] theorem box_root (b : Box Rat) : b.root.box = b := rfl

@[simp] theorem baseline_root (b : Box Rat) (y : Rat) : b.root.baseline y = y := by
  simp [root, Placement.baseline]

theorem root_mem_placements (b : Box Rat) : b.root ∈ b.placements := by
  rw [placements, placementsIn_eq]
  exact List.mem_cons_self

/-- The children of the boxes of a tree are boxes of the tree. -/
theorem child_mem_placementsIn {around : List (Box Rat × Nat)} {b c : Box Rat} {n : Placement}
    {i : Nat} (h : n ∈ b.placementsIn around) (hc : n.box.children[i]? = some c) :
    n.child i c ∈ b.placementsIn around := by
  induction b using children_induction generalizing around with
  | h b ih =>
    rw [placementsIn_eq, List.mem_cons, List.mem_flatMap] at h ⊢
    rcases h with rfl | ⟨ci, hci, h⟩
    · refine .inr ⟨(c, i), List.mem_zipIdx_iff_getElem?.mpr hc, ?_⟩
      rw [placementsIn_eq]
      exact List.mem_cons_self
    · exact .inr ⟨ci, hci, ih ci.1 (List.fst_mem_of_mem_zipIdx hci) h⟩

/-- The boxes of a built tree are built. -/
theorem Built.of_mem_placementsIn {around : List (Box Rat × Nat)} {b : Box Rat} {n : Placement}
    (hb : b.Built) (h : n ∈ b.placementsIn around) : n.box.Built := by
  induction b using children_induction generalizing around with
  | h b ih =>
    rw [placementsIn_eq, List.mem_cons, List.mem_flatMap] at h
    rcases h with rfl | ⟨ci, hci, h⟩
    · exact hb
    · have hmem := List.fst_mem_of_mem_zipIdx hci
      exact ih ci.1 hmem (hb.child hmem) h

end Box

namespace Placement

/-- The places of the children agree with the measures. In a row each child starts after the widths
of those before it, lowered by its shift, and the row ends after the last one. In a column the child
of the baseline stands on it; the first child starts at the upper edge, each starts where the one
above it ends, and the last ends at the lower edge. -/
def Agrees (x y : Rat) (n : Placement) : Prop :=
  match n.box.content with
  | .hbox children =>
    (∀ i c, children[i]? = some c →
      (n.child i c).left x = n.left x + ((children.take i).map Box.width).sum ∧
        (n.child i c).baseline y = n.baseline y + c.shift) ∧
      n.left x + (children.map Box.width).sum = n.right x
  | .vbox children baseline =>
    (∀ i c, children[i]? = some c → (n.child i c).left x = n.left x) ∧
      (∀ c, children[baseline]? = some c → (n.child baseline c).baseline y = n.baseline y) ∧
      (∀ c, children[0]? = some c → (n.child 0 c).top y = n.top y) ∧
      (∀ i c d, children[i]? = some c → children[i + 1]? = some d →
        (n.child (i + 1) d).top y = (n.child i c).bottom y) ∧
      ∀ i c, children[i]? = some c → i + 1 = children.length →
        (n.child i c).bottom y = n.bottom y
  | _ => True

variable {n : Placement} {children : List (Box Rat)} {base : Nat}

theorem bottom_eq (n : Placement) (y : Rat) : n.bottom y = n.top y + n.box.total := by
  rw [bottom, top, Box.total]
  ring

/-- A child of a column starts below the totals of those above it. -/
theorem top_child (h : n.box.content = .vbox children base) {i : Nat} {c : Box Rat}
    (hc : children[i]? = some c) (y : Rat) :
    (n.child i c).top y = n.top y + ((children.take i).map Box.total).sum := by
  simp only [top, baseline_child, Box.childDown, h, hc, Option.map_some, Option.getD_some]
  rw [child]
  ring

/-- A child of a column ends below its own total and those above it. -/
theorem bottom_child (h : n.box.content = .vbox children base) {i : Nat} {c : Box Rat}
    (hc : children[i]? = some c) (y : Rat) :
    (n.child i c).bottom y = n.top y + ((children.take (i + 1)).map Box.total).sum := by
  rw [bottom_eq, top_child h hc, List.take_add_one, hc, List.map_append, List.sum_append,
    Option.toList_some, List.map_singleton, List.sum_singleton, add_assoc]
  rfl

end Placement

/-- A column is as high and deep together as its children. -/
theorem Box.StackMeasures.sum_totals {children : List (Box Rat)} {baseline : Nat}
    {height depth : Rat} (h : StackMeasures children baseline height depth) :
    (children.map total).sum = height + depth := by
  rcases h with ⟨rfl, rfl, rfl⟩ | ⟨above, b, below, rfl, -, rfl, rfl⟩
  · simp [Scalar.zero_rat]
  · simp only [Scalar.sum_rat, List.map_append, List.map_cons, List.sum_append, List.sum_cons]
    rw [show b.total = b.height + b.depth from rfl]
    ring

/-- A column has over its baseline what is above the child of the baseline, and the height of that
child. -/
theorem Box.StackMeasures.height_eq {children : List (Box Rat)} {baseline : Nat}
    {height depth : Rat} (h : StackMeasures children baseline height depth) {c : Box Rat}
    (hc : children[baseline]? = some c) :
    height = ((children.take baseline).map total).sum + c.height := by
  rcases h with ⟨rfl, -, -⟩ | ⟨above, b, below, rfl, rfl, rfl, -⟩
  · cases hc
  · obtain rfl : b = c := by simpa using hc
    rw [Scalar.sum_rat, List.take_left]

/-- A built box and its children agree. -/
theorem Placement.agrees_of_built {n : Placement} (h : n.box.Built) (x y : Rat) : n.Agrees x y := by
  unfold Agrees
  split
  · rename_i children hcontent
    refine ⟨fun i c hc => ?_, ?_⟩
    · simp [Box.childRight, Box.childDown, hcontent, hc]
    · rw [right, h.width_eq hcontent, Scalar.sum_rat]
  · rename_i children baseline hcontent
    have hstack := h.stackMeasures hcontent
    refine ⟨fun i c _ => ?_, fun c hc => ?_, fun c hc => ?_, fun i c d hc hd => ?_,
      fun i c hc hi => ?_⟩
    · simp [Box.childRight, hcontent]
    · simp [Box.childDown, hcontent, hc, hstack.height_eq hc]
    · simp [top_child hcontent hc]
    · rw [top_child hcontent hd, bottom_child hcontent hc]
    · rw [bottom_child hcontent hc, hi, List.take_length, hstack.sum_totals, bottom_eq, Box.total]
  · trivial

namespace Box

/-- **Painting agrees with the measures.** A built box, with exact lengths, is drawn as follows from
any pen position. The strokes are those from the origin, moved to the pen, in the same order. They
are the strokes of the boxes of the tree, each box before its children; a box is drawn at a place of
its own, in the foreground of the innermost colored box around it that sets one, else in the color
that is handed in. The children of every box of the tree are boxes of the tree, and their places
agree with the measures of rows and columns. -/
theorem Built.draw_agrees {b : Box Rat} (h : b.Built) (fg : Color) (x y : Rat) :
    b.draw fg x y = (b.draw fg 0 0).map (.translate x y) ∧
      b.draw fg x y = b.placements.flatMap (Placement.strokes fg x y) ∧
      ∀ n ∈ b.placements,
        (∀ i c, n.box.children[i]? = some c → n.child i c ∈ b.placements) ∧ n.Agrees x y :=
  ⟨draw_translate fg x y b, draw_eq_flatMap_strokes fg x y b, fun _ hn =>
    ⟨fun _ _ => child_mem_placementsIn hn,
      Placement.agrees_of_built (h.of_mem_placementsIn hn) x y⟩⟩

/-- A letter and, lowered by 2, a rule over a letter in white. -/
def letterAndColumn : Box Rat :=
  hbox [glyph 'a' .math 10 5 7 0,
    (vbox [rule 4 1 1, (glyph 'b' .math 10 3 6 2).colored (some .white) none] 1).withShift 2]

/-- The letter of the column stands on the lowered baseline, and the rule above it. -/
theorem strokes_letterAndColumn :
    letterAndColumn.Built ∧
      letterAndColumn.placements.flatMap (Placement.strokes .black 30 40) =
        [.char 'a' .math 10 30 40 .black, .fill 35 34 4 2 .black,
          .char 'b' .math 10 35 42 .white] := by
  have hcolumn : (vbox [rule 4 1 1, (glyph 'b' .math 10 3 6 2).colored (some .white) none] 1 :
      Box Rat).Built :=
    .vbox (by simpa using ⟨.rule .., .colored (.glyph ..) ..⟩) (by simp)
  have hbuilt : letterAndColumn.Built := .hbox (by simpa using ⟨.glyph .., hcolumn.withShift 2⟩)
  refine ⟨hbuilt, ?_⟩
  rw [← (hbuilt.draw_agrees .black 30 40).2.1, letterAndColumn, hbox, unshifted, draw]
  simp [draw, drawRow, drawStack, glyph, unshifted, withShift, vbox, rule, colored, fill,
    background, total, stackHeight, Scalar.zero_rat]
  norm_num

end Box

end Typeset
