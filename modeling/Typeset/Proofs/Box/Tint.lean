import Typeset.Box.Lines

/-!
# Opening and wrapping colored rows

Opening a row gives its pieces with the tints they are drawn in, and wrapping tinted pieces gives a
row again. Opening that row gives the pieces back.

* `Box.tintedPieces`: the pieces of a row, each with its chain of tints.
* `Box.opened`: the same without numbers for the openings (`Box.openRuns_eq_opened`).
* `Tinted.Coherent`: one number is one tint, and no piece is a row to be opened. The pieces of a row
  are coherent (`Box.coherent_pieces`).
* `Tinted.Coherent.opened_wrapTinted`: what is wrapped can be opened again.
-/

namespace Typeset

variable {α : Type} [Scalar α]

/-- The colors of the tints that the piece is drawn in, outermost first. -/
def Tinted.chain (p : Tinted α) : List Tint := p.marks.map TintMark.tint

namespace Box

/-- The pieces of a row, each with the tints it is drawn in. -/
def tintedPieces (b : Box α) : List (Box α × List Tint) := b.pieces.map fun p => (p.box, p.chain)

/-- The box is a colored row that is opened. -/
def isColoredRow : Box α → Bool
  | ⟨_, _, _, shift, .colored _ _ ⟨_, _, _, inner, .hbox _⟩⟩ =>
    Scalar.isZero shift && Scalar.isZero inner
  | _ => false

/-- The pieces of boxes side by side that are drawn in the tints `path`. -/
def opened (path : List Tint) : List (Box α) → List (Box α × List Tint)
  | [] => []
  | b :: bs =>
    match b with
    | ⟨_, _, _, shift, .colored fg bg ⟨_, _, _, inner, .hbox children⟩⟩ =>
      if Scalar.isZero shift && Scalar.isZero inner then
        opened (path ++ [{ fg, bg }]) children ++ opened path bs
      else (b, path) :: opened path bs
    | _ => (b, path) :: opened path bs
termination_by bs => bs
decreasing_by
  all_goals
    simp only [List.cons.sizeOf_spec, mk.sizeOf_spec, BoxContent.colored.sizeOf_spec,
      BoxContent.hbox.sizeOf_spec]
    omega

/-- The numbers of the openings do not matter for the tints. -/
theorem openRuns_eq_opened (path : List TintMark) (next : Nat) (bs : List (Box α)) :
    (openRuns path next bs).1.map (fun p => (p.box, p.chain)) =
      opened (path.map TintMark.tint) bs := by
  fun_induction openRuns path next bs with
  | case1 => simp [opened]
  | case2 path next bs _ _ _ _ fg bg _ _ _ _ children hz mark o n ho r n' hr iho ihr =>
    rw [opened, if_pos hz, ← ihr, hr]
    have hopened := iho
    rw [ho, List.map_append] at hopened
    rw [List.map_append, hopened]
    rfl
  | case3 path next bs _ _ _ _ fg bg _ _ _ _ children hz r n hr ihr =>
    rw [opened, if_neg hz, ← ihr, hr]
    rfl
  | case4 path next b bs r n hr hb ihr =>
    rw [opened, ← ihr, hr]
    · rfl
    · exact hb

theorem tintedPieces_eq_opened (b : Box α) : b.tintedPieces = opened [] b.children :=
  openRuns_eq_opened [] 0 b.children

/-- A box that is no colored row is one piece. -/
theorem opened_cons_of_not {b : Box α} (h : b.isColoredRow = false) (path : List Tint)
    (bs : List (Box α)) : opened path (b :: bs) = (b, path) :: opened path bs := by
  rw [opened.eq_def]
  simp only
  split
  · exact if_neg (by simpa [isColoredRow] using h)
  · rfl

end Box

/-! ## Coherence -/

/-- One number is one tint, and no piece is a row to be opened. -/
def Tinted.Coherent (items : List (Tinted α)) : Prop :=
  ∃ tints : Nat → Tint, ∀ p ∈ items,
    p.box.isColoredRow = false ∧ ∀ m ∈ p.marks, m.tint = tints m.id

theorem Tinted.Coherent.of_subset {items others : List (Tinted α)} (h : Tinted.Coherent items)
    (hs : others ⊆ items) : Tinted.Coherent others := by
  obtain ⟨tints, ht⟩ := h
  exact ⟨tints, fun p hp => ht p (hs hp)⟩

namespace Box

/-- The pieces that are opened number their tints from `next` on, beside those of the path. -/
theorem exists_tints (path : List TintMark) (next : Nat) (bs : List (Box α)) (tints : Nat → Tint)
    (hpath : ∀ m ∈ path, m.id < next ∧ m.tint = tints m.id) :
    ∃ tints' : Nat → Tint, (∀ i < next, tints' i = tints i) ∧ next ≤ (openRuns path next bs).2 ∧
      ∀ p ∈ (openRuns path next bs).1, p.box.isColoredRow = false ∧
        ∀ m ∈ p.marks, m.id < (openRuns path next bs).2 ∧ m.tint = tints' m.id := by
  -- Tints for a piece in front, drawn in the path, are those of the pieces after it.
  have hcons {path : List TintMark} {next n : Nat} {r : List (Tinted α)} {tints : Nat → Tint}
      {b : Box α} (hb : b.isColoredRow = false)
      (hpath : ∀ m ∈ path, m.id < next ∧ m.tint = tints m.id)
      (hr : ∃ tints' : Nat → Tint, (∀ i < next, tints' i = tints i) ∧ next ≤ n ∧
        ∀ p ∈ r, p.box.isColoredRow = false ∧ ∀ m ∈ p.marks, m.id < n ∧ m.tint = tints' m.id) :
      ∃ tints' : Nat → Tint, (∀ i < next, tints' i = tints i) ∧ next ≤ n ∧
        ∀ p ∈ { box := b, marks := path } :: r, p.box.isColoredRow = false ∧
          ∀ m ∈ p.marks, m.id < n ∧ m.tint = tints' m.id := by
    obtain ⟨tints', hagree, hle, hall⟩ := hr
    refine ⟨tints', hagree, hle, fun p hp => ?_⟩
    rcases List.mem_cons.mp hp with rfl | hp
    · exact ⟨hb, fun m hm => ⟨Nat.lt_of_lt_of_le (hpath m hm).1 hle,
        by rw [hagree _ (hpath m hm).1, (hpath m hm).2]⟩⟩
    · exact hall p hp
  fun_induction openRuns path next bs generalizing tints with
  | case1 path next => exact ⟨tints, fun _ _ => rfl, Nat.le_refl _, by simp⟩
  | case2 path next bs _ _ _ _ fg bg _ _ _ _ children hz mark o n ho r n' hr iho ihr =>
    rw [ho] at iho
    rw [hr] at ihr
    -- The new opening has the next number; the path has smaller ones.
    have hinner : ∀ m ∈ path ++ [mark],
        m.id < next + 1 ∧ m.tint = if m.id = next then mark.tint else tints m.id := by
      intro m hm
      rcases List.mem_append.mp hm with hm | hm
      · have hlt := (hpath m hm).1
        exact ⟨by omega, by rw [if_neg (by omega), (hpath m hm).2]⟩
      · obtain rfl : m = mark := by simpa using hm
        exact ⟨Nat.lt_succ_self _, (if_pos rfl).symm⟩
    obtain ⟨inner, hagree, hn, hopened⟩ :=
      iho (fun i => if i = next then mark.tint else tints i) hinner
    have hbelow (i : Nat) (hi : i < next) : inner i = tints i := by
      rw [hagree i (by omega), if_neg (by omega)]
    have houter : ∀ m ∈ path, m.id < n ∧ m.tint = inner m.id := by
      intro m hm
      have hlt := (hpath m hm).1
      simp only at hn
      exact ⟨by omega, by rw [hbelow _ hlt, (hpath m hm).2]⟩
    obtain ⟨outer, hagree', hn', hrest⟩ := ihr inner houter
    simp only at hn hn'
    refine ⟨outer, fun i hi => by rw [hagree' i (by omega), hbelow i hi], by omega, fun p hp => ?_⟩
    rcases List.mem_append.mp hp with hp | hp
    · refine ⟨(hopened p hp).1, fun m hm => ?_⟩
      obtain ⟨hlt, htint⟩ := (hopened p hp).2 m hm
      simp only at hlt
      exact ⟨by omega, by rw [hagree' _ hlt, htint]⟩
    · exact hrest p hp
  | case3 path next bs _ _ _ _ fg bg _ _ _ _ children hz r n hr ihr =>
    have hrest := ihr tints hpath
    rw [hr] at hrest
    exact hcons (by simpa [isColoredRow] using hz) hpath hrest
  | case4 path next b bs r n hr hb ihr =>
    have hrest := ihr tints hpath
    rw [hr] at hrest
    refine hcons ?_ hpath hrest
    unfold isColoredRow
    split
    · exact (hb _ _ _ _ _ _ _ _ _ _ _ rfl).elim
    · rfl

/-- The pieces of a row are coherent. -/
theorem coherent_pieces (b : Box α) : Tinted.Coherent b.pieces := by
  obtain ⟨tints, -, -, h⟩ := exists_tints [] 0 b.children (fun _ => ⟨none, none⟩) (by simp)
  exact ⟨tints, fun p hp => ⟨(h p hp).1, fun m hm => ((h p hp).2 m hm).2⟩⟩

end Box

/-! ## Runs -/

namespace TintRun

mutual

/-- The boxes of a run, each with the tints it is drawn in, under the tints `path`. -/
def leaves (path : List Tint) : TintRun α → List (Box α × List Tint)
  | plain box => [(box, path)]
  | run mark inner => leavesAll (path ++ [mark.tint]) inner

/-- The boxes of runs. -/
def leavesAll (path : List Tint) : List (TintRun α) → List (Box α × List Tint)
  | [] => []
  | r :: rs => r.leaves path ++ leavesAll path rs

end

mutual

/-- Every box in the run has `P`, and every opening `Q`. -/
def All (P : Box α → Prop) (Q : TintMark → Prop) : TintRun α → Prop
  | plain box => P box
  | run mark inner => Q mark ∧ AllIn P Q inner

/-- The same of several runs. -/
def AllIn (P : Box α → Prop) (Q : TintMark → Prop) : List (TintRun α) → Prop
  | [] => True
  | r :: rs => r.All P Q ∧ AllIn P Q rs

end

section

variable {P : Box α → Prop} {Q : TintMark → Prop}

omit [Scalar α] in
theorem AllIn.push {box : Box α} {marks : List TintMark} {runs : List (TintRun α)} (hbox : P box)
    (hmarks : ∀ m ∈ marks, Q m) (h : AllIn P Q runs) : AllIn P Q (TintRun.push box marks runs) := by
  fun_induction TintRun.push box marks runs with
  | case1 runs => exact ⟨hbox, h⟩
  | case2 m ms n inner runs _ ih =>
    exact ⟨⟨hmarks m (by simp), ih (fun k hk => hmarks k (by simp [hk])) h.1.2⟩, h.2⟩
  | case3 m ms n inner runs _ ih | case4 m ms runs _ ih =>
    exact ⟨⟨hmarks m (by simp), ih (fun k hk => hmarks k (by simp [hk])) trivial⟩, h⟩

omit [Scalar α] in
/-- The runs of tinted boxes are made of these boxes and their openings. -/
theorem allIn_ofList {items : List (Tinted α)}
    (h : ∀ p ∈ items, P p.box ∧ ∀ m ∈ p.marks, Q m) : AllIn P Q (ofList items) := by
  induction items with
  | nil => trivial
  | cons p items ih =>
    have hp := h p (by simp)
    exact AllIn.push hp.1 hp.2 (ih fun q hq => h q (by simp [hq]))

end

variable {tints : Nat → Tint}

/-- No box of the runs is a row to be opened, and their openings have the tints of their numbers. -/
def Keeps (tints : Nat → Tint) (runs : List (TintRun α)) : Prop :=
  AllIn (fun b => b.isColoredRow = false) (fun m => m.tint = tints m.id) runs

/-- A box that is put in front of runs is the first of their boxes, in its own tints. -/
theorem leavesAll_push (box : Box α) {marks : List TintMark} {runs : List (TintRun α)}
    (hmarks : ∀ m ∈ marks, m.tint = tints m.id) (h : Keeps tints runs) (path : List Tint) :
    leavesAll path (push box marks runs) =
      (box, path ++ marks.map TintMark.tint) :: leavesAll path runs := by
  fun_induction push box marks runs generalizing path with
  | case1 runs => simp [leavesAll, leaves]
  | case2 m ms n inner runs hid ih =>
    have htint : m.tint = n.tint := by rw [hmarks m (by simp), h.1.1, hid]
    simp [leavesAll, leaves, ih (fun k hk => hmarks k (by simp [hk])) h.1.2, htint]
  | case3 m ms n inner runs _ ih | case4 m ms runs _ ih =>
    simp [leavesAll, leaves, ih (fun k hk => hmarks k (by simp [hk])) trivial]

mutual

/-- The box of a run is opened into the boxes of the run. -/
theorem opened_toBox (hz : Scalar.isZero (0.0 : α) = true) (path : List Tint) (r : TintRun α)
    (h : Keeps tints [r]) (bs : List (Box α)) :
    Box.opened path (r.toBox :: bs) = r.leaves path ++ Box.opened path bs := by
  cases r with
  | plain box => exact Box.opened_cons_of_not h.1 path bs
  | run mark inner =>
    rw [toBox, leaves, ← opened_toBoxes hz _ inner h.1.2, Box.colored, Box.hbox, Box.unshifted,
      Box.unshifted, Box.opened, if_pos (by simp [hz])]

theorem opened_toBoxes (hz : Scalar.isZero (0.0 : α) = true) (path : List Tint)
    (runs : List (TintRun α)) (h : Keeps tints runs) :
    Box.opened path (toBoxes runs) = leavesAll path runs := by
  cases runs with
  | nil => simp [toBoxes, Box.opened, leavesAll]
  | cons r rs =>
    rw [toBoxes, opened_toBox hz path r ⟨h.1, trivial⟩, opened_toBoxes hz path rs h.2, leavesAll]

end

end TintRun

/-- Pieces that are wrapped in their tints can be opened again. -/
theorem Tinted.Coherent.opened_wrapTinted (hz : Scalar.isZero (0.0 : α) = true)
    {items : List (Tinted α)} (h : Tinted.Coherent items) :
    Box.opened [] (wrapTinted items) = items.map fun p => (p.box, p.chain) := by
  obtain ⟨tints, ht⟩ := h
  have hleaves : TintRun.leavesAll [] (TintRun.ofList items) =
      items.map fun p => (p.box, p.chain) := by
    induction items with
    | nil => rfl
    | cons p items ih =>
      have hrest : ∀ q ∈ items, q.box.isColoredRow = false ∧ ∀ m ∈ q.marks, m.tint = tints m.id :=
        fun q hq => ht q (by simp [hq])
      have hpush := TintRun.leavesAll_push p.box (ht p (by simp)).2
        (TintRun.allIn_ofList hrest) []
      rw [ih hrest] at hpush
      exact hpush
  rw [wrapTinted, TintRun.opened_toBoxes hz [] _ (TintRun.allIn_ofList ht), hleaves]

end Typeset
