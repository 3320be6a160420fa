import Typeset.Proofs.Parse.Lexing

/-!
# Double scripts

The mark of a script is refused where its slot holds a script already, but a slot above that holds
primes alone has room. Whether it does is told by the atom, not by how it was written.

* `Language.Scripted`: scripts with their groups, in front of the rest of the markup.
* `Language.Scripted.exists_reached`: where there is room, they all find their place at the last
  atom; `Language.Scripted.exists_outcome`: the first that finds none is refused at its mark.
* `ParseState.step_script`: what the mark of a script does.
* `parse_double_script`: a further script for a slot is refused at its mark, unless what stands
  above is primes alone.
-/

namespace Typeset

open Canonical (sign)

variable {l : Language} {rest before cs : List Char} {scope scope' : Scope} {slot : ScriptSlot}
  {x y : Atom} {n m : Nest} {ss : List (ScriptSlot × Atom)}

namespace Language

/-- A script whose group parses to an atom puts it to the last atom. -/
theorem Lexes.exists_after_script {text : List Char} {moves : List Move} {g : Atom}
    (h : l.Lexes ('}' :: rest) scope text moves (some scope')) (hd : braceDepth? 0 moves = some 0)
    (hg : (ParseState.parse l scope text).toOption = some g) (hx : n.takeLast? = some (x, m))
    (hy : Atom.withScript? slot g x = some y) :
    ∃ k, n.after (Nest.scriptMoves slot moves) = some k ∧ k.takeLast? = some (y, m) := by
  obtain ⟨k, hk, hlast⟩ := Nest.takeLast?_deliver hx (Atom.isMarker_withScript? hy)
  have hgroup : Nest.withContent? slot moves x = some y := by
    rw [Nest.withContent?, h.content?_eq (by decide), hg]
    exact hy
  refine ⟨k, ?_, hlast⟩
  rw [Nest.after_script hd, Nest.editLast?, hx, Option.bind_some, hgroup, Option.bind_some, hk]
  rfl

/-- The text is scripts with groups that parse to the atoms, in front of the rest of the markup. -/
inductive Scripted (l : Language) (rest : List Char) :
    Scope → List (ScriptSlot × Atom) → List Char → Scope → Prop where
  | nil {scope : Scope} : Scripted l rest scope [] [] scope
  | cons {scope scope' scope'' : Scope} {slot : ScriptSlot} {g : Atom} {text cs : List Char}
      {moves : List Move} {ss : List (ScriptSlot × Atom)} :
      l.Lexes ('}' :: (cs ++ rest)) scope text moves (some scope') →
      braceDepth? 0 moves = some 0 → (ParseState.parse l scope text).toOption = some g →
      Scripted l rest scope' ss cs scope'' →
      Scripted l rest scope ((slot, g) :: ss) (scripted slot text ++ cs) scope''

/-- The tokens of scripts put all of them to the last atom. -/
theorem Scripted.exists_lexes (h : l.Scripted rest scope ss cs scope') :
    ∃ moves, l.Lexes rest scope cs moves (some scope') ∧
      ∀ (n : Nest) (x : Atom) (m : Nest) (y : Atom), n.takeLast? = some (x, m) →
        x.withScripts? ss = some y → ∃ k, n.after moves = some k ∧ k.takeLast? = some (y, m) := by
  induction h with
  | nil =>
    refine ⟨[], .nil, fun n x m y hx hy => ?_⟩
    cases hy
    exact ⟨n, rfl, hx⟩
  | @cons scope scope' scope'' slot g text cs moves ss htext hd hg _ ih =>
    obtain ⟨moves', hcs, hmoves⟩ := ih
    have hscript := (htext.lexesAs.scripted slot).lexes
    refine ⟨_, (hscript.append_lexesAs hcs.lexesAs).lexes, fun n x m y hx hy => ?_⟩
    rw [Atom.withScripts?_cons] at hy
    obtain ⟨z, hz, hy⟩ := Option.bind_eq_some_iff.mp hy
    obtain ⟨k, hk, hlast⟩ := htext.exists_after_script hd hg hx hz
    rw [Nest.after_append, hk]
    exact hmoves k z m y hlast hy

end Language

/-- The last atom of a nest that is alike. -/
theorem Nest.Alike.exists_takeLast? {n' m' : Nest} (h : Alike n n')
    (hx : n'.takeLast? = some (x, m')) : ∃ m, n.takeLast? = some (x, m) := by
  obtain ⟨k, hn, hn'⟩ := h
  obtain ⟨hnone, -⟩ | ⟨a, p, q, ha, hk, -⟩ := hn'.takeLast
  · rw [hx] at hnone
    cases hnone
  · rw [hx] at ha
    cases ha
    obtain ⟨-, hnone⟩ | ⟨b, p', q', hb, hk', -⟩ := hn.takeLast
    · rw [hk] at hnone
      cases hnone
    · rw [hk] at hk'
      cases hk'
      exact ⟨p', hb⟩

namespace ParseState

variable {s : ParseState}

/-- The mark of a script opens one for the last atom where there is room, and is refused where there
is none. -/
theorem step_script (hs : s.reader.cursor.IsBefore (sign slot :: rest))
    (hx : s.nest.takeLast? = some (x, m)) :
    let pos := s.reader.cursor.skipBlanks.position
    if x.isFull slot then s.step l = some (.error ⟨.fault pos (.doubleScript slot), m⟩)
    else ∃ t, s.step l = some (.ok t) ∧ t.reader.cursor.IsBefore rest ∧
      t.nest = .command
        { name := slot.mark
          state := .script x.openScripts.1 x.openScripts.2.1 x.openScripts.2.2 slot } pos :: m := by
  have hrest : s.reader.cursor.skipBlanks.rest = sign slot :: rest :=
    hs.skipBlanks_rest_eq (by cases slot <;> decide)
  have hread (pos : Nat) : l.readMove pos (sign slot) = pure (.script slot) := by
    cases slot <;> rfl
  have hstep : s.step l = some (do
      return { reader := { s.reader with cursor := s.reader.cursor.skipBlanks.advance 1 },
               nest := ← s.nest.script slot s.reader.cursor.skipBlanks.position }) := by
    simp only [step, Cursor.peek, hrest, List.head?_cons, Option.map_some, hread]
    rfl
  rw [Nest.script_eq, hx] at hstep
  simp only at hstep
  split
  · rename_i hfull
    rw [if_pos hfull] at hstep
    exact hstep
  · rename_i hfull
    rw [if_neg hfull] at hstep
    refine ⟨_, hstep, Cursor.isBefore_of_rest ?_, rfl⟩
    simp only [Cursor.advance, hrest, List.drop_succ_cons, List.drop_zero]

/-- The place of the next token behind a text. -/
theorem Reached.skipBlanks_position_eq {c : Char}
    (h : Reached l (.start (before ++ c :: rest) scope) s)
    (hs : s.reader.cursor.IsBefore (c :: rest)) (hc : Text.isBlank c = false) :
    s.reader.cursor.skipBlanks.position = byteLength before := by
  obtain ⟨pre, htext, hpos⟩ := (Cursor.skipBlanks_follows s.reader.cursor).trans h.follows
  rw [hs.skipBlanks_rest_eq hc] at htext
  rw [hpos, ← List.append_cancel_right htext]
  exact Nat.zero_add _

end ParseState

open ParseState (Reached)

/-- Where one of the scripts finds no room, its mark is refused. -/
theorem Language.Scripted.exists_outcome (h : l.Scripted rest scope ss cs scope') {s : ParseState}
    (hs : s.reader.cursor.IsBefore (cs ++ rest)) (hscope : s.reader.scope = scope)
    (hn : Nest.Alike s.nest n) (hx : n.takeLast? = some (x, m))
    (hnone : x.withScripts? ss = none) : ∃ p k, ∃ slot ∈ ss.map Prod.fst,
      ParseState.outcome l s = .error ⟨.fault p (.doubleScript slot), k⟩ := by
  induction h generalizing s n x m with
  | nil => cases hnone
  | @cons scope scope' scope'' slot g text cs moves ss htext hd hg _ ih =>
    rw [Atom.withScripts?_cons] at hnone
    cases hz : Atom.withScript? slot g x with
    | none =>
      obtain ⟨under, hunder⟩ := hn.exists_takeLast? hx
      have hmark : s.reader.cursor.IsBefore (sign slot :: (Canonical.braced text ++ cs ++ rest)) :=
        hs
      have hstep := ParseState.step_script (l := l) hmark hunder
      rw [if_pos (Atom.withScript?_eq_none_iff.mp hz)] at hstep
      exact ⟨_, _, slot, List.mem_cons_self .., ParseState.outcome_of_step_error hstep⟩
    | some z =>
      rw [hz] at hnone
      rw [List.append_assoc] at hs
      obtain ⟨k, hk, hlast⟩ := htext.exists_after_script hd hg hx hz
      have hleads := (htext.lexesAs.scripted slot).lexes.leads hs hscope hn
      rw [hk] at hleads
      obtain ⟨t, ht, hscope, hend, halike⟩ := hleads
      obtain ⟨p, k, slot', hmem, hout⟩ := ih hend hscope halike hlast hnone
      exact ⟨p, k, slot', List.mem_cons_of_mem _ hmem, ht.outcome_eq.trans hout⟩

/-- Where all scripts find room, a parse comes to the last atom with all of them. -/
theorem Language.Scripted.exists_reached {start : Scope} {moves : List Move}
    (hss : l.Scripted rest scope ss cs scope')
    (hbefore : l.Lexes (cs ++ rest) start before moves (some scope))
    (hn : Nest.start.after moves = some n) (hx : n.takeLast? = some (x, m))
    (hy : x.withScripts? ss = some y) : ∃ s under,
      Reached l (.start (before ++ cs ++ rest) start) s ∧ s.reader.cursor.IsBefore rest ∧
        s.nest.takeLast? = some (y, under) := by
  obtain ⟨moves', hcs, hmoves⟩ := hss.exists_lexes
  obtain ⟨k, hk, hlast⟩ := hmoves n x m y hx hy
  have hleads := ParseState.leads_start (hbefore.append_lexesAs hcs.lexesAs).lexes
  rw [Nest.after_append, hn, Option.bind_some, hk] at hleads
  obtain ⟨s, hs, -, hend, halike⟩ := hleads
  obtain ⟨under, hunder⟩ := halike.exists_takeLast? hlast
  exact ⟨s, under, hs, hend, hunder⟩

/-- Behind an item with scripts in different slots, a further script for one of the slots is refused
as a double script, unless what stands above is primes alone. It is refused at its mark, if the item
has room for the scripts in front of it. Behind primes alone the parse goes on behind the mark, and
the further superscript comes to stand with them. -/
theorem parse_double_script {registry : Registry} {packages : List String} {moves : List Move}
    {g : Atom} (hbefore : registry.language.Lexes (cs ++ sign slot :: rest) { packages } before
      moves (some scope))
    (hn : Nest.start.after moves = some n) (hx : n.takeLast? = some (x, m))
    (hss : registry.language.Scripted (sign slot :: rest) scope ss cs scope')
    (hdistinct : (ss.map Prod.fst).Nodup) (hmem : (slot, g) ∈ ss) :
    let text := before ++ cs ++ sign slot :: rest
    (slot = .sub ∨ g.isPrimes = false → ∃ p, ∃ slot' ∈ ss.map Prod.fst,
      registry.parse { packages } (String.ofList text) = .error (.fault p (.doubleScript slot')) ∧
      ((∀ s ∈ ss, x.isFull s.1 = false) → p = byteLength (before ++ cs) ∧ slot' = slot)) ∧
    (slot = .sup → g.isPrimes = true → (∀ s ∈ ss, x.isFull s.1 = false) →
      ∃ s y pos under, x.withScripts? ss = some y ∧
        Reached registry.language (.start text { packages }) s ∧ s.reader.cursor.IsBefore rest ∧
        s.nest = .command
          { name := ScriptSlot.sup.mark
            state := .script y.openScripts.1 y.openScripts.2.1 y.openScripts.2.2 .sup } pos ::
          under) := by
  intro text
  have hparse {p : Nat} {k : Nest} {slot' : ScriptSlot}
      (h : ParseState.outcome registry.language (.start text { packages }) =
        .error ⟨.fault p (.doubleScript slot'), k⟩) :
      registry.parse { packages } (String.ofList text) =
        .error (.fault p (.doubleScript slot')) := by
    rw [registry.parse_ofList, ParseState.parse_eq_outcome, h]
    rfl
  cases hy : x.withScripts? ss with
  | none =>
    have hroom : ¬∀ s ∈ ss, x.isFull s.1 = false := fun h =>
      Atom.withScripts?_ne_none hdistinct h hy
    have hleads := ParseState.leads_start hbefore
    rw [hn, ← List.append_assoc] at hleads
    obtain ⟨s, hs, hscope, hend, halike⟩ := hleads
    obtain ⟨p, k, slot', hslot', hout⟩ := hss.exists_outcome hend hscope halike hx hy
    exact ⟨fun _ => ⟨p, slot', hslot', hparse (hs.outcome_eq.trans hout),
      fun h => absurd h hroom⟩, fun _ _ h => absurd h hroom⟩
  | some y =>
    obtain ⟨s, under, hs, hend, hlast⟩ := hss.exists_reached hbefore hn hx hy
    have hstep := ParseState.step_script (l := registry.language) hend hlast
    rw [(Atom.isFull_of_withScripts? hdistinct hy).1 (slot, g) hmem,
      hs.skipBlanks_position_eq hend (by cases slot <;> decide)] at hstep
    refine ⟨fun h => ?_, fun hslot hg _ => ?_⟩
    · have hdouble : (slot == .sub || !g.isPrimes) = true := by
        obtain rfl | hg := h
        · rfl
        · rw [hg, Bool.not_false, Bool.or_true]
      rw [if_pos hdouble] at hstep
      exact ⟨_, slot, List.mem_map.mpr ⟨_, hmem, rfl⟩,
        hparse (hs.outcome_eq.trans (ParseState.outcome_of_step_error hstep)), fun _ => ⟨rfl, rfl⟩⟩
    · subst hslot
      rw [if_neg (by simp [hg])] at hstep
      obtain ⟨t, ht, hrest, hnest⟩ := hstep
      exact ⟨t, y, _, _, rfl, .token hs ht, hrest, hnest⟩

/-- Two superscripts behind a subscript. A prime in braces is not taken for the first of two. -/
theorem parse_double_script_letters :
    let rest := Canonical.braced ['b']
    let text := ['a'] ++ (scripted .sub ['c'] ++ (scripted .sup ['x'] ++ [])) ++ sign .sup :: rest
    let primed := ['a'] ++ (scripted .sup ['′'] ++ []) ++ sign .sup :: rest
    Registry.builtin.parse {} (String.ofList text) = .error (.fault 9 (.doubleScript .sup)) ∧
      ∃ s, Reached Registry.builtin.language (.start primed {}) s ∧
        s.reader.cursor.IsBefore rest := by
  intro rest text primed
  have hletter (c : Char) (hc : isOrdinary c = true) (rest : List Char) :
      Registry.builtin.language.Lexes rest {} [c] [.atom (.ofChar c)] (some {}) :=
    .cons_ordinary hc .nil
  have hcons {rest cs : List Char} {ss : List (ScriptSlot × Atom)} (slot : ScriptSlot) (c : Char)
      (hc : isOrdinary c = true) (h : Registry.builtin.language.Scripted rest {} ss cs {}) :
      Registry.builtin.language.Scripted rest {} ((slot, .row [.ofChar c]) :: ss)
        (scripted slot [c] ++ cs) {} := by
    refine .cons (hletter c hc _) rfl ?_ h
    rw [ParseState.toOption_parse_of_lexes (hletter c hc [])]
    exact Nest.content?_atom _
  have hroom (s : ScriptSlot) : (Atom.ofChar 'a').isFull s = false := by cases s <;> rfl
  constructor
  · obtain ⟨p, slot, -, hparse, hplace⟩ := (parse_double_script
      (hletter 'a' (by decide)
        (scripted .sub ['c'] ++ (scripted .sup ['x'] ++ []) ++ sign .sup :: rest)) rfl rfl
      (hcons .sub 'c' (by decide) (hcons .sup 'x' (by decide) .nil)) (by decide)
      (List.mem_cons_of_mem _ (List.mem_cons_self ..))).1 (.inr rfl)
    obtain ⟨rfl, rfl⟩ := hplace fun s _ => hroom s.1
    exact hparse
  · obtain ⟨s, -, -, -, -, hs, hrest, -⟩ := (parse_double_script
      (hletter 'a' (by decide) (scripted .sup ['′'] ++ [] ++ sign .sup :: rest)) rfl rfl
      (hcons .sup '′' (by decide) .nil) (by decide)
      (List.mem_cons_self ..)).2 rfl rfl fun s _ => hroom s.1
    exact ⟨s, hs, hrest⟩

end Typeset
