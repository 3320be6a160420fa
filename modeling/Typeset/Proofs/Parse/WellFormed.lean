import Typeset.Proofs.Parse.Conservation

/-!
# The atoms of a parse are well formed

No token brings an atom whose parts do not go together, and the operations on nests make none
(`Nest.Sound.conserves_apply`), so there is none in any nest of a parse, nor in the atom that it
ends in. What is salvaged from an open script may lack that script; everything else goes together
there too (`Nest.Sound.pick_salvage`).

* `Atom.isFlawed`, `Atom.isMisfit`: what no strict parse and no parse at all comes to.
* `ParseState.flawless_parse`: the atom of a strict parse, and the nest of an error.
* `atoms_of_parse_wellFormed`: what that says about the parts of the atom.
-/

namespace Typeset

open Atom

namespace Atom

/-- The children of the atom do not go together. -/
def isMisfit (a : Atom) : Bool := !a.fits

/-- The children of the atom do not go together, or its scripts are missing. -/
def isFlawed (a : Atom) : Bool := !(a.fits && a.hasScript)

theorem spares_isFlawed : Spares isFlawed := by
  intro a h
  simp_all [isFlawed, isBuilt]

theorem isMisfit_of_fits (a : Atom) (h : a.fits = true) : a.isMisfit = false := by
  simp [isMisfit, h]

/-- Where nothing is flawed, nothing is a misfit. -/
theorem pickAll_isMisfit_eq_zero {atoms : List Atom} (h : pickAll isFlawed atoms = 0) :
    pickAll isMisfit atoms = 0 := by
  refine Multiset.eq_zero_of_forall_notMem fun b hb => ?_
  obtain ⟨hmem, hmisfit⟩ := mem_pickAll.mp hb
  have hflawed : b ∈ pickAll isFlawed atoms :=
    mem_pickAll.mpr ⟨hmem, by simp_all [isMisfit, isFlawed]⟩
  simp [h] at hflawed

theorem hasPlainBase_of_pick_isFlawed {a : Atom} (h : a.pick isFlawed = 0) : a.HasPlainBase := by
  have ha : a.fits = true := by
    have := pick_eq_zero.mp h a (by simp [parts])
    simp_all [isFlawed]
  cases a with
  | scripts base sup sub =>
    change base.isScripts = false
    simpa [fits] using ha
  | _ => trivial

end Atom

/-! ## Tokens -/

/-- The pieces of markup come out without flaws. -/
def Language.HasFlawlessFragments (l : Language) : Prop :=
  l.EnsuresFragments fun a => a.pick isFlawed = 0

namespace Language

variable {l : Language}

theorem HasFlawlessFragments.sound (hl : l.HasFlawlessFragments) : l.HasSoundFragments :=
  hl.mono fun _ => hasPlainBase_of_pick_isFlawed

/-- No token brings anything flawed. -/
theorem HasFlawlessFragments.ensures_readMove (hl : l.HasFlawlessFragments) (pos : Nat) (x : Char) :
    (l.readMove pos x).Ensures fun move => pickAll isFlawed move.brought = 0 := by
  have hb (b : Builtin) : (b.start l).Ensures fun d => pickAll isFlawed d.brought = 0 := by
    cases hb : b.bringsSigns with
    | false => exact (b.ensures_plain l hb).mono fun _ => (·.pick_brought spares_isFlawed)
    | true =>
      cases b with
      | symbol => exact .pure rfl
      | sqrt =>
        refine Reading.ensures_optional?.andThen fun degree => ?_
        split
        · exact .pure rfl
        · exact (hl.fragment _).bind fun a ha => .pure
            (by simpa [Directive.brought, Directive.takeArguments, CommandState.held,
              ArgKind.degree?] using ha)
      | _ => cases hb
  have hd (d : Definition) : (l.expand d).Ensures fun d => pickAll isFlawed d.brought = 0 := by
    refine (Reading.ensures_arguments _).andThen fun as => (hl.fragment _).bind fun a ha => ?_
    split
    · exact .pure rfl
    · exact .pure (by simpa [Directive.brought] using ha)
  refine (l.ensures_readMove_of hb hd pos x).mono ?_
  rintro move ⟨hatom, hcommand⟩
  cases move with
  | atom a => obtain rfl | rfl := hatom a rfl <;> rfl
  | command c d => exact hcommand c d rfl
  | _ => rfl

end Language

/-! ## The course of a parse -/

namespace ParseState

variable {l : Language} {s t : ParseState}

/-- A token leaves no flaws in a sound nest without flaws, also where it is refused. -/
theorem flawless_step (hl : l.HasFlawlessFragments) (hs : s.nest.Sound)
    (h0 : s.nest.pick isFlawed = 0) {o : Except Failure ParseState} :
    s.step l = some o → match o with
      | .ok t => t.nest.pick isFlawed = 0
      | .error f => f.nest.pick isFlawed = 0 := by
  intro h
  obtain ⟨x, -, ⟨e, r, -, rfl⟩ | ⟨move, r, hm, rfl⟩⟩ := step_cases h
  · exact h0
  · have hbrought := hl.ensures_readMove s.reader.cursor.skipBlanks.position x
      { s.reader with cursor := s.reader.cursor.skipBlanks.advance 1 }
    rw [hm] at hbrought
    have hkept := hs.conserves_apply spares_isFlawed (by simp [Nest.PicksNoScripts, h0])
      s.reader.cursor.skipBlanks.position r.position (l.stealsForDivision_readMove hl.sound hm)
    simp only at hbrought
    rw [h0, hbrought, add_zero] at hkept
    cases ha : s.nest.apply s.reader.cursor.skipBlanks.position r.position move with
    | ok n =>
      rw [ha] at hkept
      exact hkept
    | error f =>
      rw [ha] at hkept
      exact Multiset.le_zero.mp hkept

theorem Reached.flawless (hl : l.HasFlawlessFragments) (hs : s.nest.Sound)
    (h0 : s.nest.pick isFlawed = 0) (h : Reached l s t) : t.nest.pick isFlawed = 0 := by
  induction h with
  | start => exact h0
  | token ht hu ih => exact flawless_step hl (ht.sound hl.sound hs) ih hu

/-- A parse ends in an atom without flaws, or with an error and a nest without flaws. -/
theorem flawless_parse (hl : l.HasFlawlessFragments) (scope : Scope) (cs : List Char) :
    match parse l scope cs with
    | .ok a => a.pick isFlawed = 0
    | .error f => f.nest.pick isFlawed = 0 := by
  have hs : (start cs scope).nest.Sound := Nest.sound_start
  obtain ⟨t, ht, ⟨hn, -⟩ | ⟨f, hf, he⟩⟩ := exists_reached_scan l (start cs scope)
  · have h0 := ht.flawless hl hs rfl
    rw [ht.parse_eq hn]
    split
    · rename_i a ha
      rw [(ht.sound hl.sound hs).pick_finish spares_isFlawed ha, h0]
    · rename_i f hf
      have hle := (ht.sound hl.sound hs).pick_finish_error spares_isFlawed hf
      rw [h0] at hle
      exact Multiset.le_zero.mp hle
  · unfold parse
    rw [he]
    exact flawless_step hl (ht.sound hl.sound hs) (ht.flawless hl hs rfl) hf

end ParseState

/-- Pieces of markup come out without flaws at every depth. -/
theorem Language.hasFlawlessFragments_nested (registry : Registry) (depth : Nat) :
    (nested registry depth).HasFlawlessFragments := by
  induction depth with
  | zero => rintro parse ⟨⟩
  | succ depth ih =>
    rintro parse ⟨⟩ scope cs
    have h := ParseState.flawless_parse ih scope cs
    have hs := ParseState.safe_parse ih.sound scope cs
    cases hp : ParseState.parse (nested registry depth) scope cs with
    | ok a =>
      rw [hp] at h
      simp only [hp]
      rwa [spares_isFlawed.pick_unwrapped]
    | error f =>
      rw [hp] at hs
      simp only [hp]
      exact hs.2

/-- What a parse comes to has no misfits, and no flaws unless it is lenient. -/
theorem Registry.pick_parse {registry : Registry} {o : ParseOptions} {text : String} {a : Atom}
    (h : registry.parse o text = .ok a) :
    a.pick isMisfit = 0 ∧ (o.lenient = false → a.pick isFlawed = 0) := by
  have hl : registry.language.HasFlawlessFragments :=
    Language.hasFlawlessFragments_nested registry maxDepth
  have hflawless := ParseState.flawless_parse hl { packages := o.packages } text.toList
  have hsafe := ParseState.safe_parse hl.sound { packages := o.packages } text.toList
  unfold Registry.parse at h
  cases hp : ParseState.parse registry.language { packages := o.packages } text.toList with
  | ok b =>
    rw [hp] at h hflawless
    cases h
    have hmisfit : pickAll isMisfit [a] = 0 := pickAll_isMisfit_eq_zero (by simpa using hflawless)
    exact ⟨by simpa using hmisfit, fun _ => hflawless⟩
  | error f =>
    rw [hp] at h hflawless hsafe
    simp only at h
    split at h
    · rename_i ho
      cases h
      refine ⟨?_, fun hstrict => by simp [ho] at hstrict⟩
      have hle := hsafe.1.pick_salvage isMisfit_of_fits
      rw [Nest.pick, pickAll_isMisfit_eq_zero hflawless] at hle
      exact Multiset.le_zero.mp hle
    · cases h

/-- **The atoms of a parse are well formed.** In the atom that a parse comes to, strict or lenient,
scripts never stand on an atom that has scripts, and after a strict parse they are never missing; a
fence has one more segment than inner delimiters; and a table has a cell in every column of every
row, so that its layout never meets an uneven row. -/
theorem atoms_of_parse_wellFormed (registry : Registry) (o : ParseOptions) (text : String)
    (a : Atom) (h : registry.parse o text = .ok a) :
    ∀ b ∈ a.parts,
      (∀ base sup sub, b = .scripts base sup sub →
        base.isScripts = false ∧ (o.lenient = false → sup.isSome ∨ sub.isSome)) ∧
      (∀ left right segments middles, b = .fenced left right segments middles →
        segments.length = middles.length + 1) ∧
      ∀ t options, b = .array t options →
        (∀ r ∈ t.rows, r.cells.length = t.columnCount) ∧
          ∀ (α : Type) [Scalar α] (env : Environment α),
            t.layout options env = .ok (b.layout env) := by
  obtain ⟨hmisfit, hflawed⟩ := Registry.pick_parse h
  intro b hb
  have hfits : b.fits = true := by simpa [isMisfit] using pick_eq_zero.mp hmisfit b hb
  refine ⟨?_, ?_, ?_⟩
  · rintro base sup sub rfl
    refine ⟨by simpa [fits] using hfits, fun ho => ?_⟩
    have hb := pick_eq_zero.mp (hflawed ho) _ hb
    cases sup with
    | none => exact .inr (by simpa [isFlawed, hfits, hasScript] using hb)
    | some => exact .inl rfl
  · rintro left right segments middles rfl
    simpa [fits] using hfits
  · rintro t options rfl
    have ht : t.IsChecked := by simpa [fits] using hfits
    refine ⟨ht, fun α _ env => ?_⟩
    obtain ⟨box, hbox⟩ := ht.exists_layout options env
    rw [hbox, Atom.layout]
    rw [Table.layout] at hbox
    rw [hbox]

/-- In `x^2`, the base is the letter and there is a superscript. -/
theorem atoms_of_parse_wellFormed_superscript :
    let x := Atom.ofChar 'x'
    let a := Atom.scripts x (some (.ofChar '2')) none
    Registry.empty.parse {} "x^2" = .ok (.row [a]) ∧ a ∈ (Atom.row [a]).parts ∧
      x.isScripts = false ∧ ((some (Atom.ofChar '2')).isSome ∨ (none : Option Atom).isSome) := by
  intro x a
  let s : ParseState :=
    { reader := { cursor := { rest := [], position := 3 } }, nest := [.group [a] [] 0 true] }
  have hs : ParseState.Reached Registry.empty.language (.start "x^2".toList {}) s :=
    .token (.token (.token .start rfl) rfl) rfl
  have hfinish : s.nest.finish 3 = .ok (.row [a]) := by
    rw [Nest.finish, Nest.closeDeclarations_of_endsInDeclaration rfl]
    rfl
  have hparse : Registry.empty.parse {} "x^2" = .ok (.row [a]) :=
    (Registry.parse_eq_ok_iff rfl).mpr ((hs.parse_eq rfl).trans hfinish)
  have ha : a ∈ (Atom.row [a]).parts := by simp [parts, inside, partsOfAll]
  have h := (atoms_of_parse_wellFormed .empty {} "x^2" _ hparse a ha).1 _ _ _ rfl
  exact ⟨hparse, ha, h.1, h.2 rfl⟩

end Typeset
