import Typeset.Proofs.Nest.Alike

/-!
# Groups as a whole

What tokens come to without regard to their places, and what a group comes to as a whole: an atom
that is delivered to the nest around it.

* `Nest.after`: the nest after some tokens.
* `Nest.openGroups`: the number of groups that are open; `Nest.yields_apply`: only braces change it.
* `braceDepth?`: the number of groups that are open after some tokens.
* `content?`: the atom of the tokens between two braces.
* `Nest.after_group`: a group delivers its content.
-/

namespace Typeset

/-- The level is a group that a brace has opened. -/
def Level.isOpenGroup : Level → Bool
  | group _ _ _ root => !root
  | _ => false

@[simp] theorem Level.isOpenGroup_setRow (level : Level) (row : List Atom) :
    (level.setRow row).isOpenGroup = level.isOpenGroup := by
  cases level <;> rfl

namespace Nest

variable {n m under : Nest} {a : Atom} {pos here : Nat} {move : Move} {moves : List Move}

/-! ## Open groups -/

/-- The number of groups that are open. -/
def openGroups (n : Nest) : Nat := n.countP Level.isOpenGroup

theorem openGroups_cons (level : Level) (n : Nest) :
    openGroups (level :: n) = openGroups n + if level.isOpenGroup then 1 else 0 :=
  List.countP_cons

theorem openGroups_group (atoms lines : List Atom) (start : Nat) (n : Nest) :
    openGroups (.group atoms lines start false :: n) = openGroups n + 1 :=
  openGroups_cons _ n

/-- If the operation succeeds, its result has as many open groups. -/
def Yields (k : Nat) (x : Except Failure Nest) : Prop := ∀ m, x = .ok m → m.openGroups = k

theorem yields_error (k : Nat) (f : Failure) : Yields k (.error f) := nofun

theorem yields_ok (n : Nest) : Yields n.openGroups (.ok n) := by
  rintro _ ⟨⟩
  rfl

/-- Another level on top of a nest that is no open group. -/
theorem yields_cons {level : Level} (h : level.isOpenGroup = false) (n : Nest) :
    Yields n.openGroups (.ok (level :: n)) := by
  rintro _ ⟨⟩
  rw [openGroups_cons, h]
  rfl

theorem yields_deliver (n : Nest) (here : Nat) (a : Atom) :
    Yields n.openGroups (n.deliver here a) := by
  fun_induction deliver here a n with
  | case1 => exact yields_ok _
  | case2 => exact yields_ok _
  | case3 => exact yields_error _ _
  | case4 => exact yields_ok _
  | case5 _ _ _ _ _ _ _ ih => exact ih
  | case6 => exact yields_error _ _

theorem yields_closeDeclarations (n : Nest) (here : Nat) :
    Yields n.openGroups (n.closeDeclarations here) := by
  fun_induction closeDeclarations here n with
  | case1 _ _ _ _ _ ih => exact ih
  | case2 => exact yields_error _ _
  | case3 c start n hc a ha m hm ih =>
    have hn : openGroups m = openGroups n := yields_deliver n here a m hm
    rw [hn] at ih
    exact ih
  | case4 => exact yields_ok _
  | case5 => exact yields_ok _

/-- An operation that starts with the end of declarations. -/
theorem yields_close {f : Nest → Except Failure Nest} {k : Nat}
    (hf : ∀ m, m.openGroups = n.openGroups → Yields k (f m)) :
    Yields k (n.closeDeclarations here >>= f) := by
  cases hd : n.closeDeclarations here with
  | error e => exact yields_error _ _
  | ok m => exact hf m (yields_closeDeclarations n here m hd)

theorem openGroups_takeLast (h : n.takeLast? = some (a, m)) : m.openGroups = n.openGroups := by
  cases n with
  | nil => cases h
  | cons level n =>
    simp only [takeLast?, Option.bind_eq_bind, Option.bind_eq_some_iff] at h
    obtain ⟨row, -, b, -, h⟩ := h
    cases h
    rw [openGroups_cons, openGroups_cons, Level.isOpenGroup_setRow]

theorem openGroups_takeRow {row : List Atom} (h : n.takeRow? = some (row, m)) :
    m.openGroups = n.openGroups := by
  cases n with
  | nil => cases h
  | cons level n =>
    simp only [takeRow?, Option.map_eq_some_iff] at h
    obtain ⟨r, -, h⟩ := h
    cases h
    rw [openGroups_cons, openGroups_cons, Level.isOpenGroup_setRow]

/-! ## Tokens -/

theorem yields_script (n : Nest) (slot : ScriptSlot) (pos : Nat) :
    Yields n.openGroups (n.script slot pos) := by
  unfold script
  split
  · exact yields_error _ _
  · rename_i ht
    simp only
    split
    · exact yields_error _ _
    · rw [← openGroups_takeLast ht]
      exact yields_cons rfl _

theorem yields_prime (n : Nest) (pos here : Nat) : Yields n.openGroups (n.prime pos here) := by
  have hm : (n.takeLast?.getD (.empty, n)).2.openGroups = n.openGroups := by
    cases ht : n.takeLast? with
    | none => rfl
    | some p => exact openGroups_takeLast ht
  unfold prime
  simp only
  split
  · exact yields_error _ _
  · rw [← hm]
    exact yields_deliver _ _ _

theorem yields_column (n : Nest) (pos here : Nat) : Yields n.openGroups (n.column pos here) := by
  refine yields_close fun m hm => ?_
  rw [← hm]
  split
  · exact yields_ok _
  · exact yields_error _ _

theorem yields_rowSeparator (n : Nest) (gap : Option Length) (pos here : Nat) :
    Yields n.openGroups (n.rowSeparator gap pos here) := by
  refine yields_close fun m hm => ?_
  rw [← hm]
  split
  · exact yields_ok _
  · exact yields_ok _
  · exact yields_error _ _

theorem yields_closeEnvironment (n : Nest) (name : String) (pos here : Nat) :
    Yields n.openGroups (n.closeEnvironment name pos here) := by
  refine yields_close fun m hm => ?_
  rw [← hm]
  split
  · split
    · split
      · exact yields_deliver _ _ _
      · exact yields_error _ _
    · exact yields_error _ _
  · exact yields_error _ _
  · exact yields_error _ _

theorem yields_fenceDelimiter (n : Nest) (d : Delimiter) (closing : Bool) (pos here : Nat) :
    Yields n.openGroups (n.fenceDelimiter d closing pos here) := by
  refine yields_close fun m hm => ?_
  rw [← hm]
  simp only
  split
  · split
    · exact yields_error _ _
    · exact yields_ok _
    · exact yields_deliver _ _ _
  · exact yields_error _ _

theorem yields_perform (n : Nest) (c : Command) (d : Directive) (pos here : Nat) :
    Yields n.openGroups (n.perform c pos here d) := by
  cases d with
  | done a =>
    cases a with
    | none => exact yields_ok n
    | some a => exact yields_deliver n here a
  | consume s => exact yields_cons rfl n
  | stealRow s =>
    simp only [perform]
    split
    · exact yields_error _ _
    · rw [← openGroups_takeRow ‹_›]
      exact yields_cons rfl _
  | setLimits above =>
    simp only [perform, setLimits]
    split
    · exact yields_error _ _
    · rw [← openGroups_takeLast ‹_›]
      exact yields_deliver _ _ _
  | openEnvironment name kind format => exact yields_ok _
  | closeEnvironment name => exact yields_closeEnvironment n name pos here
  | rowSeparator gap => exact yields_rowSeparator n gap pos here
  | middle d => exact yields_fenceDelimiter n d false pos here
  | right d => exact yields_fenceDelimiter n d true pos here

/-- No token but a brace opens or closes a group. -/
theorem yields_apply (n : Nest) (hopen : move ≠ .openGroup) (hclose : move ≠ .closeGroup)
    (pos here : Nat) : Yields n.openGroups (n.apply pos here move) := by
  cases move with
  | nothing => exact yields_ok n
  | atom a => exact yields_deliver n here a
  | openGroup => exact absurd rfl hopen
  | closeGroup => exact absurd rfl hclose
  | script slot => exact yields_script n slot pos
  | prime => exact yields_prime n pos here
  | column => exact yields_column n pos here
  | command c d => exact yields_perform n c d pos here

/-! ## Closing braces -/

/-- A closing brace closes a group. -/
theorem openGroups_closeGroup (h : n.closeGroup pos here = .ok m) :
    n.openGroups = m.openGroups + 1 := by
  unfold closeGroup at h
  cases hd : n.closeDeclarations here with
  | error f =>
    rw [hd] at h
    cases h
  | ok k =>
    rw [hd] at h
    rw [← yields_closeDeclarations n here k hd]
    match k with
    | .group atoms lines start false :: k =>
      rw [yields_deliver k here _ m h, openGroups_group]
    | .group _ _ _ true :: _ | [] | .table _ :: _ | .environment .. :: _ | .command .. :: _ =>
      cases h

/-- Where a group is open in the markup, a closing brace does the same to both nests. -/
theorem Within.lockstep_closeGroup (h : Within under n m) (hn : n.openGroups ≠ 0)
    (pos here pos' here' : Nat) :
    Lockstep (Within under) (n.closeGroup pos here) (m.closeGroup pos' here') := by
  refine (h.closeDeclarations here here').bind fun k k' hk h => ?_
  have hcount := yields_closeDeclarations n here k hk
  cases h with
  | base => exact absurd hcount.symm hn
  | table | environment | command => trivial
  | group h => exact h.deliver here here' _

/-- Where no group is open in the markup, a closing brace delivers what the markup comes to. -/
theorem Within.closeGroup_eq_finish (h : Within under n m) (hn : n.openGroups = 0)
    (pos here here' : Nat) : (m.closeGroup pos here').toOption =
      (n.finish here).toOption.bind fun a => (under.deliver here' a).toOption := by
  cases hf : n.finish here with
  | ok a =>
    rw [h.closeGroup_of_finish hf]
    rfl
  | error f =>
    unfold finish at hf
    unfold Nest.closeGroup
    obtain ⟨k, k', hk, hk', h'⟩ | ⟨e, e', hk, hk'⟩ := (h.closeDeclarations here here').cases
    · have hcount := yields_closeDeclarations n here k hk
      rw [hk] at hf
      rw [hk']
      cases h' with
      | base => cases hf
      | table | environment | command => rfl
      | group =>
        rw [openGroups_group, hn] at hcount
        cases hcount
    · rw [hk']
      rfl

end Nest

/-! ## Tokens in a row -/

/-- The number of open groups after some tokens, if `depth` are open before them; none, if a brace
closes one where none is open. -/
def braceDepth? : Nat → List Move → Option Nat
  | depth, [] => some depth
  | depth, .openGroup :: moves => braceDepth? (depth + 1) moves
  | 0, .closeGroup :: _ => none
  | depth + 1, .closeGroup :: moves => braceDepth? depth moves
  | depth, _ :: moves => braceDepth? depth moves

theorem braceDepth?_cons {move : Move} (hopen : move ≠ .openGroup) (hclose : move ≠ .closeGroup)
    (depth : Nat) (moves : List Move) :
    braceDepth? depth (move :: moves) = braceDepth? depth moves := by
  rw [braceDepth?]
  · exact hopen
  · rintro rfl
    exact fun h => absurd h hclose
  · exact fun _ _ h => absurd h hclose

namespace Nest

variable {n m under : Nest} {moves : List Move}

/-- The nest after some tokens. -/
def after (n : Nest) (moves : List Move) : Option Nest :=
  moves.foldlM (fun n move => (n.apply 0 0 move).toOption) n

theorem after_cons (n : Nest) (move : Move) (moves : List Move) :
    n.after (move :: moves) = (n.apply 0 0 move).toOption.bind fun m => m.after moves := rfl

theorem after_append (n : Nest) (moves moves' : List Move) :
    n.after (moves ++ moves') = (n.after moves).bind fun m => m.after moves' := by
  rw [after, List.foldlM_append]
  rfl

/-- The number of groups that are open in the nest follows the braces. -/
theorem braceDepth?_apply {move : Move} {pos here : Nat} (h : n.apply pos here move = .ok m)
    (moves : List Move) :
    braceDepth? n.openGroups (move :: moves) = braceDepth? m.openGroups moves := by
  by_cases hopen : move = .openGroup
  · subst hopen
    cases h
    exact congrArg (braceDepth? · moves) (openGroups_group [] [] pos n).symm
  · by_cases hclose : move = .closeGroup
    · subst hclose
      rw [openGroups_closeGroup h, braceDepth?]
    · rw [braceDepth?_cons hopen hclose, yields_apply n hopen hclose pos here m h]

/-- The atom of the tokens between two braces. -/
def content? (moves : List Move) : Option Atom :=
  (start.after moves).bind fun n => (n.finish 0).toOption

/-- Markup without anything open comes to its row or its lines. -/
theorem finish_root (atoms lines : List Atom) (start : Nat) (n : Nest) (here : Nat) :
    finish here (.group atoms lines start true :: n) = .ok (groupAtom atoms lines) := by
  rw [finish, closeDeclarations_of_endsInDeclaration rfl]
  rfl

theorem content?_atom (a : Atom) : content? [.atom a] = some (.row [a]) := by
  have hafter : start.after [.atom a] = some [.group [a] [] 0 true] := rfl
  rw [content?, hafter, Option.bind_some, finish_root]
  rfl

/-- The tokens up to a closing brace deliver what they come to on their own. -/
theorem Within.after_closeGroup (h : Within under n m)
    (hd : braceDepth? n.openGroups moves = some 0) :
    m.after (moves ++ [.closeGroup]) = (n.after moves).bind fun n' =>
      (n'.finish 0).toOption.bind fun a => (under.deliver 0 a).toOption := by
  induction moves generalizing n m with
  | nil =>
    have hclose := h.closeGroup_eq_finish (Option.some.inj hd) 0 0 0
    rw [List.nil_append, after_cons, Nest.apply, hclose]
    exact Option.bind_fun_some _
  | cons move moves ih =>
    rw [List.cons_append, after_cons, after_cons]
    have hstep : Lockstep (Within under) (n.apply 0 0 move) (m.apply 0 0 move) := by
      by_cases hclose : move = .closeGroup
      · subst hclose
        refine h.lockstep_closeGroup (fun hn => ?_) 0 0 0 0
        rw [hn] at hd
        cases hd
      · exact h.apply hclose 0 0 0 0
    obtain ⟨n', m', hn, hm, h'⟩ | ⟨f, f', hn, hm⟩ := hstep.cases
    · rw [hn, hm]
      exact ih h' (by rw [← braceDepth?_apply hn, hd])
    · rw [hn, hm]
      rfl

/-- A group delivers its content. -/
theorem after_group (hd : braceDepth? 0 moves = some 0) (n : Nest) :
    n.after (.openGroup :: (moves ++ [.closeGroup])) =
      (content? moves).bind fun a => (n.deliver 0 a).toOption := by
  rw [after_cons, content?, Option.bind_assoc]
  exact (Within.base : Within n start _).after_closeGroup hd

end Nest

end Typeset
