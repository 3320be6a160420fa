import Typeset.Layout.Row
import Typeset.Proofs.Scalar

/-!
# Boxes of no size

A row keeps its measures where boxes of no size are put in, as long as no run of a tint is split by
them. So that this holds of rounded lengths as well, the sums of the row are never reordered.

* `Padded`: a list with further elements put in.
* `Scalar.NeutralZero`: what is asked of the lengths. Exact lengths have it
  (`Scalar.neutralZero_rat`), and so have floats (`Scalar.neutralZero_float`).
* `Box.measures_hbox_of_padded`: the measures of a row count the extents of its boxes.
* `TintRun.Pads`: runs with boxes of no size put in. A box in front of both joins as many runs of
  the one as of the other (`TintRun.joined`), or the runs of the other are split.
* `Tinted.Pads.measures_eq`: the rows of both have the same measures.
-/

namespace Typeset

/-! ## Lists with elements put in -/

/-- The second list is the first one with further elements put in, each of which has `P`. -/
inductive Padded {β : Type} (P : β → Prop) : List β → List β → Prop
  | nil : Padded P [] []
  | keep (b : β) {bs cs : List β} (rest : Padded P bs cs) : Padded P (b :: bs) (b :: cs)
  | pad {b : β} (h : P b) {bs cs : List β} (rest : Padded P bs cs) : Padded P bs (b :: cs)

namespace Padded

variable {β γ : Type} {P : β → Prop} {bs cs : List β}

theorem refl (P : β → Prop) (bs : List β) : Padded P bs bs := by
  induction bs with
  | nil => exact .nil
  | cons b bs ih => exact .keep b ih

theorem append {bs' cs' : List β} (h : Padded P bs cs) (h' : Padded P bs' cs') :
    Padded P (bs ++ bs') (cs ++ cs') := by
  induction h with
  | nil => exact h'
  | keep b _ ih => exact .keep b ih
  | pad hb _ ih => exact .pad hb ih

theorem map {Q : γ → Prop} {f : β → γ} (hf : ∀ b, P b → Q (f b)) (h : Padded P bs cs) :
    Padded Q (bs.map f) (cs.map f) := by
  induction h with
  | nil => exact .nil
  | keep b _ ih => exact .keep (f b) ih
  | pad hb _ ih => exact .pad (hf _ hb) ih

theorem subset (h : Padded P bs cs) : bs ⊆ cs := by
  induction h with
  | nil => exact List.Subset.refl _
  | keep b _ ih => exact List.cons_subset_cons b ih
  | pad _ _ ih => exact fun _ hb => List.mem_cons_of_mem _ (ih hb)

/-- What changes no result of a fold may stand anywhere in the list. -/
theorem foldl_eq {op : β → β → β} {start z : β}
    (hz : ∀ xs : List β, op (xs.foldl op start) z = xs.foldl op start)
    (h : Padded (· = z) bs cs) : bs.foldl op start = cs.foldl op start := by
  have hfrom (front : List β) :
      bs.foldl op (front.foldl op start) = cs.foldl op (front.foldl op start) := by
    induction h generalizing front with
    | nil => rfl
    | keep b _ ih => simpa using ih (front ++ [b])
    | pad hb _ ih => rw [List.foldl_cons, hb, hz, ih]
  exact hfrom []

end Padded

/-! ## Lengths -/

/-- No length adds nothing to a sum of lengths, and is not above the largest of lengths. -/
structure Scalar.NeutralZero (α : Type) [Scalar α] : Prop where
  sum_add (xs : List α) : Scalar.sum xs + 0.0 = Scalar.sum xs
  larger_sub (xs : List α) :
    Scalar.larger (Scalar.largest 0.0 xs) (0.0 - 0.0) = Scalar.largest 0.0 xs
  larger_add (xs : List α) :
    Scalar.larger (Scalar.largest 0.0 xs) (0.0 + 0.0) = Scalar.largest 0.0 xs

theorem Scalar.neutralZero_rat : Scalar.NeutralZero Rat where
  sum_add xs := by rw [Scalar.zero_rat, add_zero]
  larger_sub xs := by
    rw [Scalar.larger_rat, show (0.0 - 0.0 : Rat) = 0.0 by norm_num]
    exact max_eq_left (Scalar.le_largest_rat _ _)
  larger_add xs := by
    rw [Scalar.larger_rat, show (0.0 + 0.0 : Rat) = 0.0 by norm_num]
    exact max_eq_left (Scalar.le_largest_rat _ _)

variable {α : Type} [Scalar α]

/-! ## Rows -/

namespace Box

/-- The width, the height and the depth of a box. -/
def measures (b : Box α) : α × α × α := (b.width, b.height, b.depth)

/-- What a row counts of a box: its width, and how far it stands out above and below. -/
def extent (b : Box α) : α × α × α := (b.width, b.height - b.shift, b.depth + b.shift)

/-- The extent of a box of no size. -/
def noExtent : α × α × α := (0.0, 0.0 - 0.0, 0.0 + 0.0)

theorem extent_empty : (empty : Box α).extent = noExtent := rfl

/-- Boxes of no size do not count. -/
theorem measures_hbox_of_padded (hz : Scalar.NeutralZero α) {bs cs : List (Box α)}
    (h : Padded (· = noExtent) (bs.map extent) (cs.map extent)) :
    (hbox bs).measures = (hbox cs).measures := by
  have hpart (f : Box α → α) (g : α × α × α → α) (hf : g ∘ extent = f) :
      Padded (· = g noExtent) (bs.map f) (cs.map f) := by
    have hmap := h.map (Q := (· = g noExtent)) (f := g) fun e he => by rw [he]
    rwa [List.map_map, List.map_map, hf] at hmap
  have hwidth := hpart width (fun e => e.1) rfl
  have hheight := hpart (fun b => b.height - b.shift) (fun e => e.2.1) rfl
  have hdepth := hpart (fun b => b.depth + b.shift) (fun e => e.2.2) rfl
  exact Prod.ext (hwidth.foldl_eq hz.sum_add)
    (Prod.ext (hheight.foldl_eq hz.larger_sub) (hdepth.foldl_eq hz.larger_add))

end Box

/-! ## Runs -/

namespace TintRun

open Box

/-- The number of openings whose runs a box in the tints joins when it is put in front. -/
def joined : List TintMark → List (TintRun α) → Nat
  | m :: ms, .run n inner :: _ => if m.id = n.id then joined ms inner + 1 else 0
  | _, _ => 0

/-- The second runs are the first ones with boxes of no size put in. A run that holds nothing else
stands in front of a run of another opening. -/
inductive Pads : List (TintRun α) → List (TintRun α) → Prop
  | nil : Pads [] []
  | plain (b : Box α) {rs ss : List (TintRun α)} (rest : Pads rs ss) :
    Pads (plain b :: rs) (plain b :: ss)
  | run {m n : TintMark} (hid : m.id = n.id) {is js rs ss : List (TintRun α)}
    (inner : Pads is js) (rest : Pads rs ss) : Pads (run m is :: rs) (run n js :: ss)
  | padPlain {b : Box α} (hb : b.extent = noExtent) {rs ss : List (TintRun α)}
    (rest : Pads rs ss) : Pads rs (plain b :: ss)
  | padRun {m : TintMark} {js rs ss : List (TintRun α)} (hm : joined [m] rs = 0)
    (inner : Pads [] js) (rest : Pads rs ss) : Pads rs (run m js :: ss)

variable {b : Box α} {m : TintMark} {ms : List TintMark} {rs ss : List (TintRun α)}

omit [Scalar α] in
/-- A box has a run of its own, or joins the first run. -/
theorem push_cases (b : Box α) (m : TintMark) (ms : List TintMark) (rs : List (TintRun α)) :
    joined (m :: ms) rs = 0 ∧ push b (m :: ms) rs = run m (push b ms []) :: rs ∨
      ∃ n inner rest, rs = run n inner :: rest ∧ m.id = n.id ∧
        joined (m :: ms) rs = joined ms inner + 1 ∧
        push b (m :: ms) rs = run m (push b ms inner) :: rest := by
  cases rs with
  | nil => exact .inl ⟨rfl, rfl⟩
  | cons r rest =>
    cases r with
    | plain c => exact .inl ⟨rfl, rfl⟩
    | run n inner =>
      by_cases hid : m.id = n.id
      · exact .inr ⟨n, inner, rest, rfl, hid, if_pos hid, if_pos hid⟩
      · exact .inl ⟨if_neg hid, if_neg hid⟩

omit [Scalar α] in
theorem joined_nil (ms : List TintMark) : joined ms ([] : List (TintRun α)) = 0 := by
  cases ms <;> rfl

omit [Scalar α] in
/-- The first opening decides whether any run is joined. -/
theorem joined_eq_zero {n : TintMark} {ns : List TintMark} (h : joined (n :: ns) rs = 0)
    (hid : m.id = n.id) (ms : List TintMark) : joined (m :: ms) rs = 0 := by
  unfold joined at h ⊢
  split
  · simp_all
  · rfl

omit [Scalar α] in
theorem joined_push (ms ps : List TintMark) (b : Box α) (rs : List (TintRun α)) :
    joined ms (push b ps rs) = (sharedMarks ms ps).length := by
  induction ps generalizing ms rs with
  | nil => cases ms <;> simp [push, joined, sharedMarks]
  | cons p ps ih =>
    have hrun (inner rest : List (TintRun α)) :
        joined ms (run p (push b ps inner) :: rest) = (sharedMarks ms (p :: ps)).length := by
      cases ms with
      | nil => simp [joined, sharedMarks]
      | cons m ms =>
        rw [joined, sharedMarks, ih]
        split <;> rfl
    obtain ⟨-, hpush⟩ | ⟨n, inner, rest, -, -, -, hpush⟩ := push_cases b p ps rs
    · rw [hpush, hrun]
    · rw [hpush, hrun]

/-- A box may be put in front of both where it joins as many runs of the second. -/
theorem Pads.push (h : Pads rs ss) (b : Box α) (hj : joined ms rs ≤ joined ms ss) :
    Pads (push b ms rs) (push b ms ss) := by
  induction ms generalizing rs ss with
  | nil => exact .plain b h
  | cons m ms ih =>
    have hnew : Pads (TintRun.push b ms []) (TintRun.push b ms []) := ih .nil (Nat.le_refl _)
    -- A box that joins no run of the second joins none of the first, by `hj`.
    obtain ⟨hss, hpush⟩ | ⟨n, js, ss, rfl, hid, hss, hpush⟩ := push_cases b m ms ss
    · obtain ⟨-, hpush'⟩ | ⟨_, _, _, -, -, hrs, -⟩ := push_cases b m ms rs
      · rw [hpush, hpush']
        exact .run rfl hnew h
      · omega
    · rw [hpush]
      cases h with
      | @run k n hid' is js rs ss inner rest =>
        have hk : m.id = k.id := hid.trans hid'.symm
        rw [joined, if_pos hk, hss] at hj
        rw [TintRun.push, if_pos hk]
        exact .run rfl (ih inner (by omega)) rest
      | padRun hn inner rest =>
        -- The run that is joined was put in: in the first runs the box has one of its own.
        obtain ⟨-, hpush'⟩ | ⟨_, _, _, -, -, hrs, -⟩ := push_cases b m ms rs
        · rw [hpush']
          exact .run rfl (ih inner ((joined_nil ms).trans_le (Nat.zero_le _))) rest
        · rw [joined_eq_zero hn hid] at hrs
          cases hrs

/-- A box of no size may be put in front of the second. -/
theorem Pads.push_right (h : Pads rs ss) (hb : b.extent = noExtent)
    (hj : joined ms rs ≤ joined ms ss) : Pads rs (TintRun.push b ms ss) := by
  induction ms generalizing rs ss with
  | nil => exact .padPlain hb h
  | cons m ms ih =>
    obtain ⟨hss, hpush⟩ | ⟨n, js, ss, rfl, hid, hss, hpush⟩ := push_cases b m ms ss
    · have hrs : joined (m :: ms) rs = 0 := by omega
      rw [hpush]
      exact .padRun (joined_eq_zero hrs rfl []) (ih .nil (Nat.le_refl _)) h
    · rw [hpush]
      cases h with
      | @run k n hid' is js rs ss inner rest =>
        have hk : m.id = k.id := hid.trans hid'.symm
        rw [joined, if_pos hk, hss] at hj
        exact .run hk.symm (ih inner (by omega)) rest
      | padRun hn inner rest =>
        exact .padRun (joined_eq_zero hn hid [])
          (ih inner ((joined_nil ms).trans_le (Nat.zero_le _))) rest

/-- The boxes of the second are those of the first and boxes of no size. -/
theorem Pads.padded_extent (hz : Scalar.NeutralZero α) (h : Pads rs ss) :
    Padded (· = noExtent) ((toBoxes rs).map extent) ((toBoxes ss).map extent) := by
  have hrun (m : TintMark) (inner : List (TintRun α)) : (TintRun.run m inner).toBox.extent =
      ((hbox (toBoxes inner)).measures.1, (hbox (toBoxes inner)).measures.2.1 - 0.0,
        (hbox (toBoxes inner)).measures.2.2 + 0.0) := rfl
  induction h with
  | nil => exact .nil
  | plain b _ ih => exact .keep _ ih
  | run hid _ _ ihinner ih =>
    rw [toBoxes, toBoxes, List.map_cons, List.map_cons, hrun, hrun,
      measures_hbox_of_padded hz ihinner]
    exact .keep _ ih
  | padPlain hb _ ih =>
    refine .pad ?_ ih
    exact hb
  | padRun _ _ _ ihinner ih =>
    rw [toBoxes, List.map_cons, hrun, ← measures_hbox_of_padded hz ihinner]
    refine .pad ?_ ih
    rfl

end TintRun

/-! ## Tinted boxes -/

namespace Tinted

open Box

/-- The number of openings that the box shares with the first of the boxes behind it. -/
def sharedWith (p : Tinted α) : List (Tinted α) → Nat
  | [] => 0
  | q :: _ => (sharedMarks p.marks q.marks).length

omit [Scalar α] in
theorem joined_ofList (p : Tinted α) (qs : List (Tinted α)) :
    TintRun.joined p.marks (TintRun.ofList qs) = p.sharedWith qs := by
  cases qs with
  | nil => exact TintRun.joined_nil _
  | cons q qs => exact TintRun.joined_push _ _ _ _

/-- The second boxes are the first ones with boxes of no size put in, none of which splits a run:
each box shares as much with what is put in behind it as with the next of the first boxes. -/
inductive Pads : List (Tinted α) → List (Tinted α) → Prop
  | nil : Pads [] []
  | keep (p : Tinted α) {qs rs : List (Tinted α)} (h : p.sharedWith qs ≤ p.sharedWith rs)
    (rest : Pads qs rs) : Pads (p :: qs) (p :: rs)
  | pad {p : Tinted α} (hp : p.box.extent = noExtent) {qs rs : List (Tinted α)}
    (h : p.sharedWith qs ≤ p.sharedWith rs) (rest : Pads qs rs) : Pads qs (p :: rs)

variable {qs rs : List (Tinted α)}

theorem Pads.ofList (h : Pads qs rs) : TintRun.Pads (TintRun.ofList qs) (TintRun.ofList rs) := by
  induction h with
  | nil => exact .nil
  | keep p hp _ ih =>
    rw [← joined_ofList, ← joined_ofList] at hp
    exact ih.push p.box hp
  | pad hbox hp _ ih =>
    rw [← joined_ofList, ← joined_ofList] at hp
    exact ih.push_right hbox hp

/-- Boxes of no size that split no run do not change the measures of a row. -/
theorem Pads.measures_eq (hz : Scalar.NeutralZero α) (h : Pads qs rs) :
    (hbox (wrapTinted qs)).measures = (hbox (wrapTinted rs)).measures :=
  measures_hbox_of_padded hz (h.ofList.padded_extent hz)

end Tinted

end Typeset
