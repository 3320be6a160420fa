import Typeset.Proofs.Nest.Braces
import Typeset.Proofs.Nest.Salvage

/-!
# Scripts of the last atom

A mark with a group after it, and a prime, put another atom in the place of the last one.

* `Atom.withScript?`: an atom with one more script; `Atom.isFull`: there is no room for it.
* `Atom.isFull_of_withScripts?`: scripts in different slots fill them.
* `Nest.editLast?`: the nest with another atom in the place of the last one.
* `Nest.after_script`, `Nest.after_prime`: scripts and primes are such edits.
* `Nest.after_script_comm`, `Nest.after_primes_comm`: a subscript may stand before or behind a
  superscript, and before or behind primes.
-/

namespace Typeset

namespace Atom

variable {a b : Atom} {slot slot' : ScriptSlot}

/-- There is no room for the script: the slot holds one already, above not of primes alone. -/
def isFull (slot : ScriptSlot) (a : Atom) : Bool :=
  Nest.isTaken a.openScripts.2.1 a.openScripts.2.2 slot

/-- The superscript that a further one makes of what stands above; primes stay in front of it. -/
def supWith (sup : Option Atom) (g : Atom) : Atom :=
  match sup with
  | none => g
  | some primes => afterPrimes primes g

/-- The atom with one more script; none if there is no room for it. -/
def withScript? (slot : ScriptSlot) (g a : Atom) : Option Atom :=
  if a.isFull slot then none
  else match slot with
    | .sup => some (.scripts a.openScripts.1 (some (supWith a.openScripts.2.1 g)) a.openScripts.2.2)
    | .sub => some (.scripts a.openScripts.1 a.openScripts.2.1 (some g))

theorem withScript?_eq_none_iff {g : Atom} :
    withScript? slot g a = none ↔ a.isFull slot = true := by
  unfold withScript?
  cases slot <;> simp

theorem isMarker_withScript? {g : Atom} (h : withScript? slot g a = some b) :
    b.isMarker = false := by
  unfold withScript? at h
  split at h
  · cases h
  · cases slot <;> cases h <;> rfl

theorem isMarker_primed? (h : a.primed? = some b) : b.isMarker = false := by
  unfold primed? at h
  split at h
  · cases h
    rfl
  · split at h
    · cases h
      rfl
    · cases h
  · cases h
    rfl

theorem allPrimes_append (as : List Atom) (g : Atom) :
    allPrimes (as ++ [g]) = (allPrimes as && g.isPrimes) := by
  induction as with
  | nil => simp [allPrimes]
  | cons a as ih => rw [List.cons_append, allPrimes, ih, allPrimes, Bool.and_assoc]

/-- What stands behind primes is primes, or the row is not. -/
theorem isPrimes_afterPrimes {p : Atom} (hp : p.isPrimes = true) (g : Atom) :
    (afterPrimes p g).isPrimes = g.isPrimes := by
  cases p with
  | row atoms =>
    cases atoms with
    | nil => cases hp
    | cons a as =>
      rw [isPrimes, Bool.and_eq_true] at hp
      rw [afterPrimes, List.cons_append, isPrimes, allPrimes_append, hp.1, hp.2]
      rfl
  | symbol c k => simp [afterPrimes, isPrimes, allPrimes, show (c == primeChar) = true from hp]
  | _ => cases hp

/-- A slot with a script has no more room, unless the script is of primes alone and stands above. -/
theorem isFull_of_withScript? {g : Atom} (h : withScript? slot g a = some b) :
    b.isFull slot = (slot == .sub || !g.isPrimes) := by
  unfold withScript? at h
  split at h
  · cases h
  · rename_i hfull
    cases slot with
    | sub =>
      cases h
      rfl
    | sup =>
      cases h
      have hsup : (supWith a.openScripts.2.1 g).isPrimes = g.isPrimes := by
        simp only [isFull, Nest.isTaken] at hfull
        cases hs : a.openScripts.2.1 with
        | none => rfl
        | some p => exact isPrimes_afterPrimes (by simpa [hs] using hfull) g
      exact congrArg (!·) hsup

/-- A script leaves the other slot as it is. -/
theorem isFull_of_withScript?_ne {g : Atom} (h : withScript? slot g a = some b)
    (hne : slot' ≠ slot) : b.isFull slot' = a.isFull slot' := by
  unfold withScript? at h
  split at h
  · cases h
  · cases slot <;> cases slot' <;> first | exact absurd rfl hne | (cases h; rfl)

/-- The atom with some more scripts, one after the other. -/
def withScripts? (ss : List (ScriptSlot × Atom)) (a : Atom) : Option Atom :=
  ss.foldlM (fun a s => withScript? s.1 s.2 a) a

theorem withScripts?_cons (s : ScriptSlot × Atom) (ss : List (ScriptSlot × Atom)) (a : Atom) :
    withScripts? (s :: ss) a = (withScript? s.1 s.2 a).bind fun b => withScripts? ss b :=
  List.foldlM_cons

section Distinct

variable {ss : List (ScriptSlot × Atom)}

theorem ne_of_nodup_cons {s : ScriptSlot × Atom} (h : ((s :: ss).map Prod.fst).Nodup) :
    ∀ t ∈ ss, t.1 ≠ s.1 := fun t ht he =>
  (List.nodup_cons.mp h).1 (List.mem_map.mpr ⟨t, ht, he⟩)

/-- Scripts in different slots fill them, and leave the other slots as they are. -/
theorem isFull_of_withScripts? (hss : (ss.map Prod.fst).Nodup) (h : withScripts? ss a = some b) :
    (∀ s ∈ ss, b.isFull s.1 = (s.1 == .sub || !s.2.isPrimes)) ∧
      ∀ slot ∉ ss.map Prod.fst, b.isFull slot = a.isFull slot := by
  induction ss generalizing a with
  | nil =>
    cases h
    exact ⟨nofun, fun _ _ => rfl⟩
  | cons s ss ih =>
    rw [withScripts?_cons] at h
    obtain ⟨c, hc, h⟩ := Option.bind_eq_some_iff.mp h
    obtain ⟨hs, hnodup⟩ := List.nodup_cons.mp hss
    obtain ⟨hfull, hkept⟩ := ih hnodup h
    refine ⟨List.forall_mem_cons.mpr ⟨?_, hfull⟩, fun slot hslot => ?_⟩
    · rw [hkept s.1 hs, isFull_of_withScript? hc]
    · rw [List.map_cons, List.mem_cons, not_or] at hslot
      rw [hkept slot hslot.2, isFull_of_withScript?_ne hc hslot.1]

/-- Scripts in different slots that all have room find their place. -/
theorem withScripts?_ne_none (hss : (ss.map Prod.fst).Nodup)
    (hroom : ∀ s ∈ ss, a.isFull s.1 = false) : withScripts? ss a ≠ none := by
  induction ss generalizing a with
  | nil => exact Option.some_ne_none _
  | cons s ss ih =>
    obtain ⟨hs, hroom⟩ := List.forall_mem_cons.mp hroom
    obtain ⟨c, hc⟩ : ∃ c, withScript? s.1 s.2 a = some c :=
      Option.ne_none_iff_exists'.mp fun h => by
        rw [withScript?_eq_none_iff.mp h] at hs
        cases hs
    rw [withScripts?_cons, hc]
    exact ih (List.nodup_cons.mp hss).2 fun t ht => by
      rw [isFull_of_withScript?_ne hc (ne_of_nodup_cons hss t ht), hroom t ht]

end Distinct

/-! ## Two scripts -/

section Order

variable {base : Atom} {sup sub : Option Atom}

theorem withScript?_sup_scripts (g : Atom) : withScript? .sup g (.scripts base sup sub) =
    if sup.any (!·.isPrimes) then none else some (.scripts base (some (supWith sup g)) sub) :=
  rfl

theorem withScript?_sub_scripts (h : Atom) : withScript? .sub h (.scripts base sup sub) =
    if sub.isSome then none else some (.scripts base sup (some h)) :=
  rfl

theorem primed?_scripts : primed? (.scripts base sup sub) =
    if sup.any (!·.isPrimes) then none
    else some (.scripts base (some (supWith sup prime)) sub) := by
  cases sup with
  | none => rfl
  | some p => cases hp : p.isPrimes <;> simp [primed?, supWith, hp]

/-- A subscript may stand before or behind a superscript. -/
theorem withScript?_comm (g h a : Atom) : (withScript? .sup g a).bind (withScript? .sub h) =
    (withScript? .sub h a).bind (withScript? .sup g) := by
  cases a with
  | scripts base sup sub =>
    rw [withScript?_sup_scripts, withScript?_sub_scripts]
    by_cases hsup : sup.any (!·.isPrimes) = true <;> by_cases hsub : sub.isSome = true <;>
      simp [withScript?_sup_scripts, withScript?_sub_scripts, hsup, hsub]
  | _ => rfl

/-- A subscript may stand before or behind a prime. -/
theorem primed?_withScript?_comm (h a : Atom) : a.primed?.bind (withScript? .sub h) =
    (withScript? .sub h a).bind primed? := by
  cases a with
  | scripts base sup sub =>
    rw [primed?_scripts, withScript?_sub_scripts]
    by_cases hsup : sup.any (!·.isPrimes) = true <;> by_cases hsub : sub.isSome = true <;>
      simp [primed?_scripts, withScript?_sub_scripts, hsup, hsub]
  | _ => rfl

end Order

end Atom

/-- What a script receives as its group makes the atom with the script. -/
theorem CommandState.exists_add_of_withScript? {a b g : Atom} {slot : ScriptSlot}
    (h : Atom.withScript? slot g a = some b) : ∃ state,
      (CommandState.script a.openScripts.1 a.openScripts.2.1 a.openScripts.2.2 slot).add g =
        some (.complete b, state) := by
  unfold Atom.withScript? Atom.isFull at h
  generalize a.openScripts = p at h ⊢
  obtain ⟨base, sup, sub⟩ := p
  split at h
  · cases h
  · rename_i hfull
    cases slot with
    | sub =>
      cases h
      exact ⟨_, rfl⟩
    | sup =>
      cases h
      refine ⟨.script .empty none none .sup, ?_⟩
      cases sup with
      | none => rfl
      | some p =>
        have hp : p.isPrimes = true := by simpa [Nest.isTaken] using hfull
        simp only [CommandState.add, hp, if_true]
        rfl

namespace Nest

variable {n m : Nest} {a b : Atom} {f g : Atom → Option Atom} {slot : ScriptSlot}
  {moves moves' : List Move}

/-- The nest with another atom in the place of the last one. -/
def editLast? (f : Atom → Option Atom) (n : Nest) : Option Nest :=
  n.takeLast?.bind fun p => (f p.1).bind fun b => (p.2.deliver 0 b).toOption

/-- An atom that is put in the place of the last one is the last one. -/
theorem takeLast?_deliver (h : n.takeLast? = some (a, m)) (hb : b.isMarker = false) :
    ∃ k, m.deliver 0 b = .ok k ∧ k.takeLast? = some (b, m) := by
  cases n with
  | nil => cases h
  | cons level n =>
    simp only [takeLast?, Option.bind_eq_bind, Option.bind_eq_some_iff] at h
    obtain ⟨row, hr, c, -, h⟩ := h
    cases h
    have hrow := Level.row?_setRow hr row.dropLast
    refine ⟨_, deliver_of_row? hrow hb 0, ?_⟩
    rw [Level.setRow_setRow]
    simp only [takeLast?, Level.row?_setRow hr]
    simp [Level.setRow_setRow]

/-- Two edits of the last atom are one edit. -/
theorem editLast?_bind (hf : ∀ a b, f a = some b → b.isMarker = false) (n : Nest) :
    (n.editLast? f).bind (editLast? g) = n.editLast? fun a => (f a).bind g := by
  unfold editLast?
  cases ht : n.takeLast? with
  | none => rfl
  | some p =>
    obtain ⟨a, m⟩ := p
    cases hb : f a with
    | none => simp [hb]
    | some b =>
      obtain ⟨k, hk, hlast⟩ := takeLast?_deliver ht (hf a b hb)
      simp [hb, hk, hlast, Except.toOption]

/-- A nest with another last atom has a last atom. -/
theorem takeLast?_editLast?_ne_none (hf : ∀ a b, f a = some b → b.isMarker = false)
    (h : n.editLast? f = some m) : m.takeLast? ≠ none := by
  unfold editLast? at h
  obtain ⟨⟨a, k⟩, ht, h⟩ := Option.bind_eq_some_iff.mp h
  obtain ⟨b, hb, h⟩ := Option.bind_eq_some_iff.mp h
  obtain ⟨m', hm, hlast⟩ := takeLast?_deliver ht (hf a b hb)
  rw [hm] at h
  cases h
  rw [hlast]
  exact Option.some_ne_none _

/-! ## Scripts and primes as edits -/

/-- The tokens of a script: its mark, and a group with some tokens. -/
def scriptMoves (slot : ScriptSlot) (moves : List Move) : List Move :=
  .script slot :: .openGroup :: (moves ++ [.closeGroup])

/-- The mark of a script is refused without a last atom, and where there is no room on it. -/
theorem script_eq (n : Nest) (slot : ScriptSlot) (pos : Nat) : n.script slot pos =
    match n.takeLast? with
    | none => .error ⟨.fault pos (.danglingScript slot), n⟩
    | some (a, m) =>
      if a.isFull slot then .error ⟨.fault pos (.doubleScript slot), m⟩
      else
        let state := .script a.openScripts.1 a.openScripts.2.1 a.openScripts.2.2 slot
        .ok (.command { name := slot.mark, state } pos :: m) := rfl

/-- The atom with what some tokens come to as one more script. -/
def withContent? (slot : ScriptSlot) (moves : List Move) (a : Atom) : Option Atom :=
  (content? moves).bind fun g => Atom.withScript? slot g a

theorem isMarker_withContent? (h : withContent? slot moves a = some b) : b.isMarker = false := by
  obtain ⟨g, -, hg⟩ := Option.bind_eq_some_iff.mp h
  exact Atom.isMarker_withScript? hg

/-- A script puts its content to the last atom. -/
theorem after_script (hd : braceDepth? 0 moves = some 0) (slot : ScriptSlot) (n : Nest) :
    n.after (scriptMoves slot moves) = n.editLast? (withContent? slot moves) := by
  rw [scriptMoves, after_cons, Nest.apply, script_eq]
  unfold editLast? withContent?
  cases ht : n.takeLast? with
  | none => rfl
  | some p =>
    obtain ⟨a, m⟩ := p
    simp only [Option.bind_some]
    by_cases hfull : a.isFull slot = true
    · have hnone (g : Atom) : Atom.withScript? slot g a = none :=
        Atom.withScript?_eq_none_iff.mpr hfull
      simp only [hfull, if_true, hnone, Option.bind_fun_none]
      rfl
    · rw [if_neg hfull, Option.bind_assoc]
      refine (after_group hd _).trans (congrArg _ (funext fun g => ?_))
      obtain ⟨b, hb⟩ : ∃ b, Atom.withScript? slot g a = some b :=
        Option.ne_none_iff_exists'.mp (mt Atom.withScript?_eq_none_iff.mp hfull)
      obtain ⟨state, hadd⟩ := CommandState.exists_add_of_withScript? hb
      rw [hb]
      simp only [Nest.deliver, Command.add, hadd]
      rfl

theorem after_prime (h : n.takeLast? ≠ none) : n.after [.prime] = n.editLast? Atom.primed? := by
  obtain ⟨⟨a, m⟩, ht⟩ := Option.ne_none_iff_exists'.mp h
  rw [after_cons, Nest.apply, prime, editLast?, ht]
  simp only [Option.getD_some, Option.bind_some]
  cases a.primed? with
  | none => rfl
  | some b => exact Option.bind_fun_some _

/-! ## The order of scripts -/

/-- A subscript may stand before or behind a superscript. -/
theorem after_script_comm (hd : braceDepth? 0 moves = some 0) (hd' : braceDepth? 0 moves' = some 0)
    (n : Nest) : n.after (scriptMoves .sup moves ++ scriptMoves .sub moves') =
      n.after (scriptMoves .sub moves' ++ scriptMoves .sup moves) := by
  simp only [after_append, after_script hd, after_script hd']
  rw [editLast?_bind fun _ _ => isMarker_withContent?,
    editLast?_bind fun _ _ => isMarker_withContent?]
  refine congrArg (n.editLast? ·) (funext fun a => ?_)
  unfold withContent?
  cases content? moves with
  | none => simp
  | some g =>
    cases content? moves' with
    | none => simp
    | some h => exact Atom.withScript?_comm g h a

/-- A subscript may stand before or behind a prime that has a base. -/
theorem after_prime_comm (hd : braceDepth? 0 moves = some 0) (h : n.takeLast? ≠ none) :
    n.after ([.prime] ++ scriptMoves .sub moves) =
      n.after (scriptMoves .sub moves ++ [.prime]) := by
  have hprime (m : Nest) (hm : n.editLast? (withContent? .sub moves) = some m) :
      m.after [.prime] = m.editLast? Atom.primed? :=
    after_prime (takeLast?_editLast?_ne_none (fun _ _ => isMarker_withContent?) hm)
  rw [after_append, after_append, after_prime h, after_script hd, Option.bind_congr hprime]
  simp only [after_script hd]
  rw [editLast?_bind fun _ _ => Atom.isMarker_primed?,
    editLast?_bind fun _ _ => isMarker_withContent?]
  refine congrArg (n.editLast? ·) (funext fun a => ?_)
  unfold withContent?
  cases content? moves with
  | none => simp
  | some g => exact Atom.primed?_withScript?_comm g a

/-- A subscript may stand before or behind primes that have a base. -/
theorem after_primes_comm (hd : braceDepth? 0 moves = some 0) (h : n.takeLast? ≠ none) (k : Nat) :
    n.after (List.replicate k .prime ++ scriptMoves .sub moves) =
      n.after (scriptMoves .sub moves ++ List.replicate k .prime) := by
  induction k generalizing n with
  | zero => rw [List.replicate_zero, List.nil_append, List.append_nil]
  | succ k ih =>
    have hlast (m : Nest) (hm : n.after [.prime] = some m) : m.takeLast? ≠ none := by
      rw [after_prime h] at hm
      exact takeLast?_editLast?_ne_none (fun _ _ => Atom.isMarker_primed?) hm
    calc n.after (List.replicate (k + 1) .prime ++ scriptMoves .sub moves)
        = (n.after [.prime]).bind fun m =>
            m.after (List.replicate k .prime ++ scriptMoves .sub moves) := by
          rw [← after_append]
          rfl
      _ = (n.after [.prime]).bind fun m =>
            m.after (scriptMoves .sub moves ++ List.replicate k .prime) :=
          Option.bind_congr fun m hm => ih (hlast m hm)
      _ = n.after (([.prime] ++ scriptMoves .sub moves) ++ List.replicate k .prime) := by
          rw [← after_append, List.append_assoc]
      _ = n.after ((scriptMoves .sub moves ++ [.prime]) ++ List.replicate k .prime) := by
          rw [after_append, after_prime_comm hd h, ← after_append]
      _ = n.after (scriptMoves .sub moves ++ List.replicate (k + 1) .prime) := by
          rw [List.append_assoc]
          rfl

end Nest

end Typeset
