import Typeset.Proofs.Nest.Sound
import Typeset.Proofs.Reading.Positions

/-!
# Positions of the errors of nests

A token is refused at its own place, at the place that the markup is read up to, or at the start of
something open.

* `Nest.StartsAt`: a property that the starts of all levels have.
* `Nest.PointsAt`: what an operation may come to. It starts levels only at places with the
  property, and its error is at such a place.
* `Nest.StartsAt.apply`, `Nest.StartsAt.finish`: the tokens, and the end of the markup.
-/

namespace Typeset

namespace Level

/-- The place where the level starts. -/
def start? : Level → Option Nat
  | group _ _ start _ | environment _ _ start | command _ start => some start
  | table _ => none

@[simp] theorem start?_group (atoms lines : List Atom) (start : Nat)
    (root : Bool) : (group atoms lines start root).start? = some start := rfl

@[simp] theorem start?_table (b : TableBuilder) : (table b).start? = none := rfl

@[simp] theorem start?_environment (name : String) (kind : TableKind) (start : Nat) :
    (environment name kind start).start? = some start := rfl

@[simp] theorem start?_command (c : Command) (start : Nat) :
    (command c start).start? = some start := rfl

@[simp] theorem start?_setRow (level : Level) (row : List Atom) :
    (level.setRow row).start? = level.start? := by
  cases level <;> rfl

end Level

namespace Nest

variable {P : Nat → Prop} {n m : Nest} {pos here : Nat}

/-- Every level starts at a place with `P`. -/
def StartsAt (P : Nat → Prop) (n : Nest) : Prop := ∀ level ∈ n, ∀ p ∈ level.start?, P p

@[simp] theorem startsAt_nil : StartsAt P [] := List.forall_mem_nil _

@[simp] theorem startsAt_cons {level : Level} :
    StartsAt P (level :: n) ↔ (∀ p ∈ level.start?, P p) ∧ StartsAt P n :=
  List.forall_mem_cons

theorem startsAt_start (h : P 0) : StartsAt P start := by simp [start, h]

/-- What an operation may come to: a result with `Q`, or an error at a place with `P`. -/
def PointsAt {α : Type} (P : Nat → Prop) (Q : α → Prop) : Except Failure α → Prop
  | .ok a => Q a
  | .error f => ∀ p ∈ f.error.position, P p

theorem PointsAt.bind {α β : Type} {Q : α → Prop} {R : β → Prop} {x : Except Failure α}
    {f : α → Except Failure β} (hx : PointsAt P Q x) (hf : ∀ a, Q a → PointsAt P R (f a)) :
    PointsAt P R (x >>= f) := by
  cases x with
  | ok a => exact hf a hx
  | error e => exact hx

/-- An error that concerns no command. -/
theorem pointsAt_fault {α : Type} {Q : α → Prop} {p : Nat} (hp : P p) (c : Fault) :
    PointsAt P Q (.error ⟨.fault p c, n⟩) := by
  rintro _ ⟨⟩
  exact hp

/-- An error that concerns a command. -/
theorem pointsAt_faultIn {α : Type} {Q : α → Prop} {p : Nat} (hp : P p) (name : String)
    (c : Fault) : PointsAt P Q (.error ⟨.faultIn p name c, n⟩) := by
  rintro _ ⟨⟩
  exact hp

section Moves

variable (h0 : P 0) (hpos : P pos) (hhere : P here)

include h0 hhere in
theorem StartsAt.deliver (h : n.StartsAt P) (a : Atom) :
    PointsAt P (StartsAt P) (n.deliver here a) := by
  induction n generalizing a with
  | nil => exact pointsAt_fault hhere _
  | cons level n ih =>
    obtain ⟨hl, hn⟩ := startsAt_cons.mp h
    cases level with
    | group atoms lines start root => exact startsAt_cons.mpr ⟨hl, hn⟩
    | table b => exact startsAt_cons.mpr ⟨by simp, hn⟩
    | environment name kind start => exact pointsAt_fault hhere _
    | command c start =>
      simp only [Nest.deliver, Command.add]
      rcases hs : c.state.add a with _ | ⟨_ | b, state⟩
      · exact pointsAt_faultIn h0 _ _
      · exact startsAt_cons.mpr ⟨hl, hn⟩
      · exact ih hn b

include h0 hhere in
theorem StartsAt.closeDeclarations (h : n.StartsAt P) :
    PointsAt P (StartsAt P) (n.closeDeclarations here) := by
  fun_induction Nest.closeDeclarations here n with
  | case1 c start n hc hnone ih => exact ih (startsAt_cons.mp h).2
  | case2 c start n hc a ha f hd =>
    have hn := (startsAt_cons.mp h).2.deliver h0 hhere a
    rw [hd] at hn
    exact hn
  | case3 c start n hc a ha m hd ih =>
    have hn := (startsAt_cons.mp h).2.deliver h0 hhere a
    rw [hd] at hn
    exact ih hn
  | case4 => exact h
  | case5 => exact h

theorem StartsAt.takeLast {a : Atom} (h : n.StartsAt P) (ht : n.takeLast? = some (a, m)) :
    m.StartsAt P := by
  cases n with
  | nil => cases ht
  | cons level n =>
    simp only [takeLast?, Option.bind_eq_bind, Option.bind_eq_some_iff] at ht
    obtain ⟨row, -, b, -, ht⟩ := ht
    cases ht
    simpa using h

theorem StartsAt.takeRow {row : List Atom} (h : n.StartsAt P) (ht : n.takeRow? = some (row, m)) :
    m.StartsAt P := by
  cases n with
  | nil => cases ht
  | cons level n =>
    simp only [takeRow?, Option.map_eq_some_iff] at ht
    obtain ⟨r, -, ht⟩ := ht
    cases ht
    simpa using h

/-! ## Tokens -/

include h0 hpos hhere in
theorem StartsAt.closeGroup (h : n.StartsAt P) :
    PointsAt P (StartsAt P) (n.closeGroup pos here) := by
  refine (h.closeDeclarations h0 hhere).bind fun m hm => ?_
  cases m with
  | nil => exact pointsAt_fault hpos _
  | cons level m =>
    cases level with
    | group atoms lines start root =>
      cases root with
      | false => exact (startsAt_cons.mp hm).2.deliver h0 hhere _
      | true => exact pointsAt_fault hpos _
    | table | environment | command => exact pointsAt_faultIn hpos _ _

include hpos in
theorem StartsAt.script (h : n.StartsAt P) (slot : ScriptSlot) :
    PointsAt P (StartsAt P) (n.script slot pos) := by
  unfold Nest.script
  split
  · exact pointsAt_fault hpos _
  · rename_i ht
    simp only
    split
    · exact pointsAt_fault hpos _
    · exact startsAt_cons.mpr ⟨by simpa using hpos, h.takeLast ht⟩

include h0 hpos hhere in
theorem StartsAt.prime (h : n.StartsAt P) : PointsAt P (StartsAt P) (n.prime pos here) := by
  have hm : (n.takeLast?.getD (.empty, n)).2.StartsAt P := by
    cases ht : n.takeLast? with
    | none => exact h
    | some p => exact h.takeLast ht
  unfold Nest.prime
  simp only
  split
  · exact pointsAt_fault hpos _
  · exact hm.deliver h0 hhere _

include h0 hpos hhere in
theorem StartsAt.column (h : n.StartsAt P) : PointsAt P (StartsAt P) (n.column pos here) := by
  refine (h.closeDeclarations h0 hhere).bind fun m hm => ?_
  cases m with
  | nil => exact pointsAt_fault hpos _
  | cons level m =>
    cases level with
    | table b => exact startsAt_cons.mpr ⟨by simp, (startsAt_cons.mp hm).2⟩
    | group | environment | command => exact pointsAt_fault hpos _

include h0 hpos hhere in
theorem StartsAt.rowSeparator (h : n.StartsAt P) (gap : Option Length) :
    PointsAt P (StartsAt P) (n.rowSeparator gap pos here) := by
  refine (h.closeDeclarations h0 hhere).bind fun m hm => ?_
  cases m with
  | nil => exact pointsAt_faultIn hpos _ _
  | cons level m =>
    cases level with
    | table b => exact startsAt_cons.mpr ⟨by simp, (startsAt_cons.mp hm).2⟩
    | group atoms lines start root => exact startsAt_cons.mpr (by simpa using hm)
    | environment | command => exact pointsAt_faultIn hpos _ _

include h0 hpos hhere in
theorem StartsAt.closeEnvironment (h : n.StartsAt P) (name : String) :
    PointsAt P (StartsAt P) (n.closeEnvironment name pos here) := by
  refine (h.closeDeclarations h0 hhere).bind fun m hm => ?_
  cases m with
  | nil => exact pointsAt_faultIn hpos _ _
  | cons body m =>
    cases body with
    | group | environment | command => exact pointsAt_faultIn hpos _ _
    | table b =>
      cases m with
      | nil => exact pointsAt_faultIn hpos _ _
      | cons level m =>
        have hn := (startsAt_cons.mp (startsAt_cons.mp hm).2).2
        cases level with
        | group | table | command => exact pointsAt_faultIn hpos _ _
        | environment opened kind start =>
          simp only
          split
          · cases kind.finish b with
            | ok a => exact hn.deliver h0 hhere a
            | error e => rintro p ⟨⟩
          · exact pointsAt_faultIn hpos _ _

include h0 hpos hhere in
theorem StartsAt.fenceDelimiter (h : n.StartsAt P) (d : Delimiter) (closing : Bool) :
    PointsAt P (StartsAt P) (n.fenceDelimiter d closing pos here) := by
  refine (h.closeDeclarations h0 hhere).bind fun m hm => ?_
  cases m with
  | nil => exact pointsAt_faultIn hpos _ _
  | cons level m =>
    cases level with
    | group | table | environment => exact pointsAt_faultIn hpos _ _
    | command c start =>
      simp only
      rcases c.state.fenceDelimiter d closing with _ | ⟨_ | a, state⟩
      · exact pointsAt_faultIn hpos _ _
      · exact startsAt_cons.mpr (by simpa using hm)
      · exact (startsAt_cons.mp hm).2.deliver h0 hhere a

include hhere in
theorem StartsAt.setLimits (h : n.StartsAt P) (name : String) (above : Bool) :
    PointsAt P (fun p => p.2.StartsAt P) (n.setLimits name above here) := by
  unfold Nest.setLimits
  split
  · exact pointsAt_faultIn hhere _ _
  · exact h.takeLast ‹_›

include h0 hpos hhere in
theorem StartsAt.perform (h : n.StartsAt P) (c : Command) (d : Directive) :
    PointsAt P (StartsAt P) (n.perform c pos here d) := by
  have hcons {level : Level} {m : Nest} (hl : level.start? = some pos) (hm : m.StartsAt P) :
      StartsAt P (level :: m) := startsAt_cons.mpr ⟨by simpa [hl] using hpos, hm⟩
  cases d with
  | done a =>
    cases a with
    | none => exact h
    | some a => exact h.deliver h0 hhere a
  | consume s => exact hcons rfl h
  | stealRow s =>
    simp only [Nest.perform]
    split
    · exact pointsAt_faultIn hpos _ _
    · exact hcons rfl (h.takeRow ‹_›)
  | setLimits above =>
    exact (h.setLimits hhere c.name above).bind fun p hp => hp.deliver h0 hhere _
  | openEnvironment name kind format =>
    exact startsAt_cons.mpr ⟨by simp, hcons rfl h⟩
  | closeEnvironment name => exact h.closeEnvironment h0 hpos hhere name
  | rowSeparator gap => exact h.rowSeparator h0 hpos hhere gap
  | middle d => exact h.fenceDelimiter h0 hpos hhere d false
  | right d => exact h.fenceDelimiter h0 hpos hhere d true

include h0 hpos hhere in
/-- A token starts levels at its own place, and is refused at a place with the property. -/
theorem StartsAt.apply (h : n.StartsAt P) (move : Move) :
    PointsAt P (StartsAt P) (n.apply pos here move) := by
  cases move with
  | nothing => exact h
  | atom a => exact h.deliver h0 hhere a
  | openGroup => exact startsAt_cons.mpr ⟨by simpa using hpos, h⟩
  | closeGroup => exact h.closeGroup h0 hpos hhere
  | script slot => exact h.script hpos slot
  | prime => exact h.prime h0 hpos hhere
  | column => exact h.column h0 hpos hhere
  | command c d => exact h.perform h0 hpos hhere c d

/-- The start of the innermost environment is the start of a level. -/
theorem StartsAt.environment? (h : n.StartsAt P) : ∀ p ∈ n.environment?, P p.2 := by
  intro p hp
  obtain ⟨level, hl, he⟩ := List.exists_of_findSome?_eq_some hp
  split at he
  · cases he
    exact h _ hl _ rfl
  · cases he

include h0 hhere in
/-- What is left open at the end is told where it starts. -/
theorem StartsAt.finish (h : n.StartsAt P) : PointsAt P (fun _ => True) (n.finish here) := by
  refine (h.closeDeclarations h0 hhere).bind fun m hm => ?_
  have hplace : P ((m.environment?.map Prod.snd).getD 0) := by
    cases he : m.environment? with
    | none => exact h0
    | some p => exact hm.environment? p he
  split
  · trivial
  · trivial
  · exact pointsAt_fault (hm _ List.mem_cons_self _ rfl) _
  · exact pointsAt_faultIn hplace _ _
  · exact pointsAt_faultIn hplace _ _
  · exact pointsAt_faultIn (hm _ List.mem_cons_self _ rfl) _ _

end Moves

end Nest

end Typeset
