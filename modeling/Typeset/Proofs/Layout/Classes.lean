import Mathlib.Data.List.Chain
import Typeset.Layout.Row

/-!
# Binary operators in rows

A binary operator of a row stays one where it stands between two operands. What stands beside it is
the nearest class before and after it that takes part in spacing.

* `takingPart`: the classes of a row that take part in spacing; `previousClass` is the last of them.
* `SpacedClasses`: every pair of neighbours has its space, and no binary operator stands at an end.
* `getElem?_resolveFrom_bin`: what becomes of a binary operator.
* `spacedClasses_resolveClasses`, `resolveClasses_eq_self_iff`: resolving makes rows of this kind,
  and leaves just these as they are.
* `resolveClasses_keeps_operators_between_operands`: all of it.
-/

namespace Typeset

/-! ## Neighbours -/

/-- The classes that take part in spacing. -/
def takingPart (cs : List MathClass) : List MathClass := cs.filter (· ≠ .none)

/-- The last class that takes part in spacing. -/
def previousClass (cs : List MathClass) : Option MathClass := (takingPart cs).getLast?

/-- A row in which no space is asked for between classes that have none, and in which every binary
operator has a neighbour on both sides. -/
structure SpacedClasses (cs : List MathClass) : Prop where
  pairs : (takingPart cs).IsChain fun left right => Glue.between left right ≠ .impossible
  first : (takingPart cs).head? ≠ some .bin
  last : previousClass cs ≠ some .bin

variable {c : MathClass} {prev : Option MathClass} {cs : List MathClass}

@[simp] theorem takingPart_nil : takingPart [] = [] := rfl

theorem takingPart_cons (h : c ≠ .none) : takingPart (c :: cs) = c :: takingPart cs := by
  simp [takingPart, h]

theorem ne_none_of_mem_takingPart (h : c ∈ takingPart cs) : c ≠ .none := by
  simpa using (List.mem_filter.mp h).2

theorem nextClass_cons (h : c ≠ .none) : nextClass (c :: cs) = some c := by
  cases c <;> first | rfl | exact absurd rfl h

theorem nextClass_eq_head? (cs : List MathClass) : nextClass cs = (takingPart cs).head? := by
  induction cs with
  | nil => rfl
  | cons c cs ih =>
    by_cases h : c = .none
    · subst h
      exact ih
    · rw [nextClass_cons h, takingPart_cons h, List.head?_cons]

/-- Before the first class of a row that takes part stands what stands before the row. -/
theorem previousClass_cons_or (prev : Option MathClass) (cs : List MathClass) (h : c ≠ .none) :
    (previousClass (c :: cs)).or prev = (previousClass cs).or (some c) := by
  rw [previousClass, previousClass, takingPart_cons h, List.getLast?_cons, Option.some_or]
  cases (takingPart cs).getLast? <;> rfl

/-! ## Operands -/

theorem isLeftOperand_iff {o : Option MathClass} (h : o ≠ some .none) :
    isLeftOperand o = true ↔
      ∃ c, o = some c ∧ c ∉ [MathClass.bin, .op, .rel, .opening, .punct] := by
  rcases o with _ | c
  · simp [isLeftOperand]
  · cases c <;> simp [isLeftOperand] at h ⊢

theorem isRightOperand_iff {o : Option MathClass} :
    isRightOperand o = true ↔ ∃ c, o = some c ∧ c ∉ [MathClass.rel, .closing, .punct] := by
  rcases o with _ | c
  · simp [isRightOperand]
  · cases c <;> simp [isRightOperand]

/-- The pairs that have no space are those of a binary operator without an operand. -/
theorem between_eq_impossible_iff {left right : MathClass} (hl : left ≠ .none)
    (hr : right ≠ .none) :
    Glue.between left right = .impossible ↔
      right = .bin ∧ isLeftOperand (some left) = false ∨
        left = .bin ∧ isRightOperand (some right) = false := by
  cases left <;> cases right <;> simp [Glue.between, isLeftOperand, isRightOperand] at hl hr ⊢

/-! ## One step of a resolution -/

/-- What becomes of a class between `prev` and the rest of the row. -/
def resolveClass (prev : Option MathClass) (c : MathClass) (cs : List MathClass) : MathClass :=
  if c = .bin ∧ ¬(isLeftOperand prev = true ∧ isRightOperand (nextClass cs) = true) then .ord else c

theorem resolveFrom_cons (h : c ≠ .none) :
    resolveFrom prev (c :: cs) =
      resolveClass prev c cs :: resolveFrom (some (resolveClass prev c cs)) cs := by
  cases c with
  | none => exact absurd rfl h
  | bin =>
    have hd : (if isLeftOperand prev && isRightOperand (nextClass cs) then MathClass.bin
        else .ord) = resolveClass prev .bin cs := by
      unfold resolveClass
      split <;> simp_all
    rw [← hd]
    rfl
  | _ => rfl

theorem resolveClass_cases (prev : Option MathClass) (c : MathClass) (cs : List MathClass) :
    resolveClass prev c cs = c ∨ c = .bin ∧ resolveClass prev c cs = .ord := by
  unfold resolveClass
  split
  · exact .inr ⟨‹c = .bin ∧ _›.1, rfl⟩
  · exact .inl rfl

theorem resolveClass_ne_none (prev : Option MathClass) (cs : List MathClass) (h : c ≠ .none) :
    resolveClass prev c cs ≠ .none := by
  rcases resolveClass_cases prev c cs with hd | ⟨-, hd⟩
  · rwa [hd]
  · simp [hd]

theorem resolveClass_eq_bin_iff : resolveClass prev c cs = .bin ↔
    c = .bin ∧ isLeftOperand prev = true ∧ isRightOperand (nextClass cs) = true := by
  unfold resolveClass
  grind

/-- A class is a right operand whatever becomes of it. -/
theorem isRightOperand_resolveClass :
    isRightOperand (some (resolveClass prev c cs)) = isRightOperand (some c) := by
  rcases resolveClass_cases prev c cs with hd | ⟨rfl, hd⟩
  · rw [hd]
  · rw [hd]
    rfl

/-- Each class stays, or it was a binary operator and is ordinary now. -/
theorem forall₂_resolveFrom (prev : Option MathClass) (cs : List MathClass) :
    List.Forall₂ (fun c r => r = c ∨ c = .bin ∧ r = .ord) cs (resolveFrom prev cs) := by
  induction cs generalizing prev with
  | nil => exact .nil
  | cons c cs ih =>
    by_cases hnone : c = .none
    · subst hnone
      exact .cons (.inl rfl) (ih prev)
    · rw [resolveFrom_cons hnone]
      exact .cons (resolveClass_cases prev c cs) (ih _)

/-- What becomes of a binary operator depends on the resolved class before it and on the given
class after it. -/
theorem getElem?_resolveFrom_bin (prev : Option MathClass) {i : Nat} (h : cs[i]? = some .bin) :
    (resolveFrom prev cs)[i]? = some (resolveClass
      ((previousClass ((resolveFrom prev cs).take i)).or prev) .bin (cs.drop (i + 1))) := by
  induction cs generalizing prev i with
  | nil => simp at h
  | cons c cs ih =>
    cases i with
    | zero =>
      obtain rfl : c = .bin := by simpa using h
      rw [resolveFrom_cons (by simp)]
      rfl
    | succ i =>
      have hi : cs[i]? = some .bin := by simpa using h
      by_cases hnone : c = .none
      · subst hnone
        exact ih _ hi
      · rw [resolveFrom_cons hnone, List.take_succ_cons,
          previousClass_cons_or _ _ (resolveClass_ne_none _ _ hnone)]
        exact ih _ hi

/-! ## Rows with all their spaces -/

/-- After a class, the resolved rest of a row starts with a right operand if the given one does. -/
theorem isRightOperand_nextClass_resolveFrom (prev : Option MathClass) (cs : List MathClass) :
    isRightOperand (nextClass (resolveFrom prev cs)) = isRightOperand (nextClass cs) := by
  induction cs generalizing prev with
  | nil => rfl
  | cons c cs ih =>
    by_cases hnone : c = .none
    · subst hnone
      exact ih _
    · rw [resolveFrom_cons hnone, nextClass_cons (resolveClass_ne_none _ _ hnone),
        nextClass_cons hnone, isRightOperand_resolveClass]

/-- A resolved row has its space after the class before it, if that is not a binary operator
without an operand after it. -/
theorem isChain_resolveFrom (hprev : prev ≠ some .none)
    (h : prev = some .bin → isRightOperand (nextClass cs) = true) :
    (prev.toList ++ takingPart (resolveFrom prev cs)).IsChain
      fun left right => Glue.between left right ≠ .impossible := by
  induction cs generalizing prev with
  | nil => cases prev <;> simp [resolveFrom]
  | cons c cs ih =>
    by_cases hnone : c = .none
    · subst hnone
      exact ih hprev h
    · have hd : resolveClass prev c cs ≠ .none := resolveClass_ne_none prev cs hnone
      have hrest := @ih (some (resolveClass prev c cs)) (by simpa using hd)
        fun hbin => (resolveClass_eq_bin_iff.mp (Option.some.inj hbin)).2.2
      rw [resolveFrom_cons hnone, takingPart_cons hd]
      cases prev with
      | none => exact hrest
      | some p =>
        refine List.isChain_cons_cons.mpr ⟨fun hspace => ?_, hrest⟩
        rw [between_eq_impossible_iff (by simpa using hprev) hd] at hspace
        rcases hspace with ⟨hbin, hop⟩ | ⟨hbin, hop⟩
        · rw [(resolveClass_eq_bin_iff.mp hbin).2.1] at hop
          cases hop
        · rw [nextClass_cons hnone] at h
          rw [isRightOperand_resolveClass, h (congrArg some hbin)] at hop
          cases hop

theorem head?_resolveFrom_ne_bin : (takingPart (resolveFrom none cs)).head? ≠ some .bin := by
  induction cs with
  | nil => simp [resolveFrom]
  | cons c cs ih =>
    by_cases hnone : c = .none
    · subst hnone
      exact ih
    · rw [resolveFrom_cons hnone, takingPart_cons (resolveClass_ne_none _ _ hnone),
        List.head?_cons]
      intro hbin
      have hleft := (resolveClass_eq_bin_iff.mp (Option.some.inj hbin)).2.1
      cases hleft

theorem previousClass_resolveFrom_ne_bin : previousClass (resolveFrom prev cs) ≠ some .bin := by
  induction cs generalizing prev with
  | nil => simp [resolveFrom, previousClass]
  | cons c cs ih =>
    by_cases hnone : c = .none
    · subst hnone
      exact ih
    · rw [resolveFrom_cons hnone]
      intro hlast
      have hor := previousClass_cons_or none (resolveFrom (some (resolveClass prev c cs)) cs)
        (resolveClass_ne_none prev cs hnone)
      rw [hlast, Option.some_or] at hor
      cases hp : previousClass (resolveFrom (some (resolveClass prev c cs)) cs) with
      | some d =>
        rw [hp] at hor
        cases hor
        exact ih hp
      | none =>
        -- Nothing after the operator takes part, so it has no right operand.
        rw [hp, Option.none_or] at hor
        have hright := (resolveClass_eq_bin_iff.mp (Option.some.inj hor).symm).2.2
        rw [← isRightOperand_nextClass_resolveFrom (some (resolveClass prev c cs)),
          nextClass_eq_head?, List.getLast?_eq_none_iff.mp hp] at hright
        cases hright

/-- A resolved row has its spaces, and no binary operator at an end. -/
theorem spacedClasses_resolveClasses (cs : List MathClass) : SpacedClasses (resolveClasses cs) where
  pairs := @isChain_resolveFrom none cs (by simp) (by simp)
  first := head?_resolveFrom_ne_bin
  last := previousClass_resolveFrom_ne_bin

/-- A class whose neighbours on both sides have a space to it stays. -/
theorem resolveClass_eq_self (hc : c ≠ .none) (hprev : prev ≠ some .none)
    (hpairs : (prev.toList ++ c :: takingPart cs).IsChain
      fun left right => Glue.between left right ≠ .impossible)
    (hfirst : prev = none → c ≠ .bin) (hlast : takingPart cs = [] → c ≠ .bin) :
    resolveClass prev c cs = c := by
  refine (resolveClass_cases prev c cs).resolve_right fun ⟨hbin, hord⟩ => ?_
  subst hbin
  have hleft : isLeftOperand prev = true := by
    cases prev with
    | none => exact absurd rfl (hfirst rfl)
    | some p =>
      have hspace := (List.isChain_cons_cons.mp hpairs).1
      rw [Ne, between_eq_impossible_iff (by simpa using hprev) hc] at hspace
      simpa using fun hp => hspace (.inl ⟨rfl, hp⟩)
  have hright : isRightOperand (nextClass cs) = true := by
    rw [nextClass_eq_head?]
    cases hnext : takingPart cs with
    | nil => exact absurd rfl (hlast hnext)
    | cons d ds =>
      have hd : d ≠ .none := ne_none_of_mem_takingPart (hnext ▸ List.mem_cons_self)
      rw [hnext] at hpairs
      have hspace := (List.isChain_cons_cons.mp hpairs.right_of_append).1
      rw [Ne, between_eq_impossible_iff hc hd] at hspace
      simpa using fun hp => hspace (.inr ⟨rfl, hp⟩)
  rw [resolveClass_eq_bin_iff.mpr ⟨rfl, hleft, hright⟩] at hord
  cases hord

/-- A row in which no binary operator lacks an operand stays as it is. -/
theorem resolveFrom_eq_self (hprev : prev ≠ some .none)
    (hpairs : (prev.toList ++ takingPart cs).IsChain
      fun left right => Glue.between left right ≠ .impossible)
    (hfirst : prev = none → (takingPart cs).head? ≠ some .bin)
    (hlast : previousClass cs ≠ some .bin) : resolveFrom prev cs = cs := by
  induction cs generalizing prev with
  | nil => rfl
  | cons c cs ih =>
    by_cases hnone : c = .none
    · subst hnone
      exact congrArg _ (ih hprev hpairs hfirst hlast)
    · rw [takingPart_cons hnone] at hpairs hfirst
      have hor := previousClass_cons_or none cs hnone
      rw [Option.or_none] at hor
      have hlast' : previousClass cs ≠ some .bin := fun hp =>
        hlast (by rw [hor, hp, Option.some_or])
      have hend (hp : takingPart cs = []) : c ≠ .bin := by
        rintro rfl
        exact hlast (by rw [hor, previousClass, hp]; rfl)
      have hrest : resolveFrom (some c) cs = cs :=
        ih (by simpa using hnone) hpairs.right_of_append (by simp) hlast'
      have hstay : resolveClass prev c cs = c :=
        resolveClass_eq_self hnone hprev hpairs (by simpa using hfirst) hend
      rw [resolveFrom_cons hnone, hstay, hrest]

/-- Resolving leaves just the rows as they are that have their spaces already. -/
theorem resolveClasses_eq_self_iff : resolveClasses cs = cs ↔ SpacedClasses cs := by
  refine ⟨fun h => h ▸ spacedClasses_resolveClasses cs, fun h => ?_⟩
  exact resolveFrom_eq_self (by simp) h.pairs (fun _ => h.first) h.last

theorem previousClass_ne_none : previousClass cs ≠ some .none :=
  fun h => ne_none_of_mem_takingPart (List.mem_of_getLast? h) rfl

/-- **Binary operators are kept between operands.** Resolving the classes of a row keeps their
number, and changes some binary operators to ordinary atoms and nothing else. A binary operator
stays one exactly if an operand stands before it in the resolved row and an operand after it in the
given one, classes that take no part in spacing passed over. So every two neighbours of the resolved
row have their space, a binary operator stands neither first nor last, and resolving the row again
changes nothing. -/
theorem resolveClasses_keeps_operators_between_operands (cs : List MathClass) :
    (resolveClasses cs).length = cs.length ∧
    List.Forall₂ (fun c r => r = c ∨ c = .bin ∧ r = .ord) cs (resolveClasses cs) ∧
    (∀ i, (resolveClasses cs)[i]? = some .bin ↔ cs[i]? = some .bin ∧
      (∃ c, previousClass ((resolveClasses cs).take i) = some c ∧
        c ∉ [MathClass.bin, .op, .rel, .opening, .punct]) ∧
      ∃ c, (takingPart (cs.drop (i + 1))).head? = some c ∧
        c ∉ [MathClass.rel, .closing, .punct]) ∧
    SpacedClasses (resolveClasses cs) ∧
    resolveClasses (resolveClasses cs) = resolveClasses cs := by
  have hchanges : List.Forall₂ (fun c r => r = c ∨ c = .bin ∧ r = .ord) cs (resolveClasses cs) :=
    forall₂_resolveFrom none cs
  refine ⟨hchanges.length_eq.symm, hchanges, fun i => ?_, spacedClasses_resolveClasses cs,
    resolveClasses_eq_self_iff.mpr (spacedClasses_resolveClasses cs)⟩
  rw [← isLeftOperand_iff previousClass_ne_none, ← nextClass_eq_head?, ← isRightOperand_iff]
  constructor
  · intro hr
    have hc : cs[i]? = some .bin := by
      have hlt : i < (resolveClasses cs).length := (List.getElem?_eq_some_iff.mp hr).1
      have hlt' : i < cs.length := hchanges.length_eq ▸ hlt
      have hget := hchanges.get hlt' hlt
      rw [List.getElem?_eq_getElem hlt, Option.some.injEq] at hr
      simp only [List.get_eq_getElem, hr] at hget
      rcases hget with hget | ⟨-, hget⟩
      · rw [List.getElem?_eq_getElem hlt', ← hget]
      · cases hget
    have hstep := getElem?_resolveFrom_bin none hc
    rw [Option.or_none] at hstep
    exact ⟨hc, (resolveClass_eq_bin_iff.mp (Option.some.inj (hstep.symm.trans hr))).2⟩
  · rintro ⟨hc, hoperands⟩
    have hstep := getElem?_resolveFrom_bin none hc
    rw [Option.or_none] at hstep
    exact hstep.trans (congrArg some (resolveClass_eq_bin_iff.mpr ⟨rfl, hoperands⟩))

/-- In `-a + b - = -c` only the plus stands between operands; space is passed over. -/
example :
    resolveClasses [.bin, .ord, .bin, .none, .ord, .bin, .rel, .bin, .ord] =
      [.ord, .ord, .bin, .none, .ord, .ord, .rel, .ord, .ord] := by
  decide

end Typeset
