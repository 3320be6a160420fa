import Mathlib.Logic.Relation
import Typeset.Proofs.Nest.Loops
import Typeset.Proofs.Parse.Pieces
import Typeset.Proofs.Parse.Tokens

/-!
# Parsing terminates

Parsing as one loop over the parsers that are at work: a token may make its parser wait while the
piece that it hands on is parsed from its start. The text of a piece can be longer than what is
left of the markup, so it is the depth of the pieces that keeps the loop from going on for ever.

* `Parsing.turn`: one turn of the loop: a token, a new parser for a piece, or the end of one.
* `Parsing.Advances`: what a turn can do. There is no infinite sequence of such turns
  (`Parsing.wellFounded_advances`): pieces open only below the greatest depth, and within a parser
  every token takes a character.
* `Parsing.leads_ended`: a parser that starts on a text ends with what the text comes to.
* `parse_terminates`: the loop ends with the result of the parse, strict or lenient.
-/

namespace Typeset

open ParseState Loop

/-- The parsers at work. The innermost one reads tokens or has come to its end; each of the others
waits for the piece that its next token hands on. -/
inductive Parsing where
  | reading (s : ParseState) (waiting : List ParseState)
  | ended (o : Except Failure Atom) (waiting : List ParseState)

namespace Parsing

/-- The number of parsers that wait. -/
def depth : Parsing → Nat
  | reading _ waiting | ended _ waiting => waiting.length

/-- The start of a parse. -/
def start (packages : List String) (markup : String) : Parsing :=
  reading (.start markup.toList { packages }) []

/-- What follows a token of the innermost parser: the parser goes on, or it comes to its end at the
end of its text or at a token that is refused. -/
def afterToken (s : ParseState) (waiting : List ParseState) :
    Option (Except Failure ParseState) → Parsing
  | none => ended (s.nest.finish s.reader.cursor.skipBlanks.position) waiting
  | some (.error f) => ended (.error f) waiting
  | some (.ok t) => reading t waiting

/-- The language in which every piece comes to `o`. -/
def answering (registry : Registry) (o : Except Failure Atom) : Language :=
  { registry, fragment? := some fun _ _ => pieceAnswer o }

/-- One turn of a parse. A piece is parsed only below the greatest depth; at that depth its token is
done as in a language without pieces. -/
def turn (registry : Registry) : Parsing → Except Failure Atom ⊕ Parsing
  | reading s waiting =>
    match s.piece? registry with
    | none => .inr (afterToken s waiting (s.step (.nested registry 0)))
    | some (scope, cs) =>
      if waiting.length < maxDepth then .inr (reading (.start cs scope) (s :: waiting))
      else .inr (afterToken s waiting (s.step (.nested registry 0)))
  | ended o [] => .inl o
  | ended o (s :: waiting) => .inr (afterToken s waiting (s.step (answering registry o)))

/-! ## Turns -/

variable {registry : Registry} {s t : ParseState} {waiting : List ParseState}

/-- What a turn can do. -/
inductive Advances (registry : Registry) : Parsing → Parsing → Prop where
  /-- A token takes at least one character. -/
  | token {s t : ParseState} {waiting : List ParseState} :
      t.reader.cursor.rest.length < s.reader.cursor.rest.length →
      Advances registry (reading s waiting) (reading t waiting)
  /-- The innermost parser comes to its end. -/
  | finish {s : ParseState} {waiting : List ParseState} {o : Except Failure Atom} :
      Advances registry (reading s waiting) (ended o waiting)
  /-- A token hands a piece on, below the greatest depth. -/
  | descend {s : ParseState} {waiting : List ParseState} {scope : Scope} {cs : List Char} :
      s.piece? registry = some (scope, cs) → waiting.length < maxDepth →
      Advances registry (reading s waiting) (reading (.start cs scope) (s :: waiting))
  /-- The token whose piece has come to an end takes at least one character. -/
  | resume {s t : ParseState} {waiting : List ParseState} {o : Except Failure Atom} :
      t.reader.cursor.rest.length < s.reader.cursor.rest.length →
      Advances registry (ended o (s :: waiting)) (reading t waiting)
  /-- The parser that waits for the innermost one comes to its end with it. -/
  | fail {s : ParseState} {waiting : List ParseState} {o o' : Except Failure Atom} :
      Advances registry (ended o (s :: waiting)) (ended o' waiting)

/-- The parser goes on with fewer characters, or comes to its end. -/
theorem afterToken_cases (l : Language) (s : ParseState) (waiting : List ParseState) :
    (∃ t, afterToken s waiting (s.step l) = reading t waiting ∧
      t.reader.cursor.rest.length < s.reader.cursor.rest.length) ∨
    ∃ o, afterToken s waiting (s.step l) = ended o waiting := by
  rcases h : s.step l with _ | f | t
  · exact .inr ⟨_, rfl⟩
  · exact .inr ⟨_, rfl⟩
  · exact .inl ⟨t, rfl, step_rest_lt h⟩

theorem advances_of_turn {w v : Parsing} (h : turn registry w = .inr v) :
    Advances registry w v := by
  have htoken (s : ParseState) (waiting : List ParseState) (l : Language) :
      Advances registry (reading s waiting) (afterToken s waiting (s.step l)) := by
    obtain ⟨t, ht, hl⟩ | ⟨o, ho⟩ := afterToken_cases l s waiting
    · exact ht ▸ .token hl
    · exact ho ▸ .finish
  cases w with
  | reading s waiting =>
    simp only [turn] at h
    split at h
    · cases h
      exact htoken s waiting _
    · rename_i scope cs hp
      split at h <;> cases h
      · exact .descend hp ‹_›
      · exact htoken s waiting _
  | ended o waiting =>
    cases waiting with
    | nil => cases h
    | cons s waiting =>
      cases h
      obtain ⟨t, ht, hl⟩ | ⟨o', ho⟩ := afterToken_cases (answering registry o) s waiting
      · exact ht ▸ .resume hl
      · exact ho ▸ .fail

/-- A parser comes to its end, if the parsers that wait for it do. The outer induction is on the
depth that is left for pieces, the inner one on the characters that are left. -/
theorem acc_reading (s : ParseState) (waiting : List ParseState)
    (hw : ∀ o, Acc (fun v w => Advances registry w v) (ended o waiting)) :
    Acc (fun v w => Advances registry w v) (reading s waiting) := by
  induction hd : maxDepth - waiting.length using Nat.strongRecOn generalizing s waiting with
  | ind left ihd =>
    induction hn : s.reader.cursor.rest.length using Nat.strongRecOn generalizing s with
    | ind n ihn =>
      refine ⟨_, fun v hv => ?_⟩
      cases hv with
      | token hl => exact ihn _ (hn ▸ hl) _ rfl
      | finish => exact hw _
      | descend hp hl =>
        refine ihd _ ?_ _ (s :: waiting) (fun o => ⟨_, fun v hv => ?_⟩) rfl
        · rw [List.length_cons]
          omega
        · cases hv with
          | resume ht => exact ihn _ (hn ▸ ht) _ rfl
          | fail => exact hw _

theorem acc_ended (waiting : List ParseState) (o : Except Failure Atom) :
    Acc (fun v w => Advances registry w v) (ended o waiting) := by
  induction waiting generalizing o with
  | nil => exact ⟨_, by rintro v ⟨⟩⟩
  | cons s waiting ih =>
    refine ⟨_, fun v hv => ?_⟩
    cases hv with
    | resume _ => exact acc_reading _ waiting ih
    | fail => exact ih _

/-- There is no infinite sequence of turns, from whatever state. -/
theorem wellFounded_advances (registry : Registry) :
    WellFounded fun v w => Advances registry w v := by
  refine ⟨fun w => ?_⟩
  cases w with
  | reading s waiting => exact acc_reading s waiting (acc_ended waiting)
  | ended o waiting => exact acc_ended waiting o

/-! ## Results -/

/-- The states that turns lead to. -/
abbrev Leads (registry : Registry) : Parsing → Parsing → Prop :=
  Relation.ReflTransGen fun w v => turn registry w = .inr v

theorem leads_turn {w v u : Parsing} (h : turn registry w = .inr v) (hv : Leads registry v u) :
    Leads registry w u := .head h hv

/-- A parser whose token has been done ends with what its state comes to. -/
theorem leads_afterToken {l : Language}
    (ih : ∀ t : ParseState, t.reader.cursor.rest.length < s.reader.cursor.rest.length →
      Leads registry (reading t waiting) (ended (outcome l t) waiting)) :
    Leads registry (afterToken s waiting (s.step l)) (ended (outcome l s) waiting) := by
  rcases h : s.step l with _ | f | t
  · rw [outcome, scan_of_step_eq_none h]
    exact .refl
  · rw [outcome_of_step_error h]
    exact .refl
  · rw [outcome_of_step h]
    exact ih t (step_rest_lt h)

/-- A parser ends with what its state comes to, in the language in which pieces nest up to the depth
that is left. -/
theorem leads_ended (registry : Registry) (left : Nat) (s : ParseState) (waiting : List ParseState)
    (hd : waiting.length + left = maxDepth) :
    Leads registry (reading s waiting) (ended (outcome (.nested registry left) s) waiting) := by
  induction left using Nat.strongRecOn generalizing s waiting with
  | ind left ihd =>
    induction hn : s.reader.cursor.rest.length using Nat.strongRecOn generalizing s with
    | ind n ihn =>
      have htoken := leads_afterToken (l := .nested registry left)
        fun t ht => ihn _ (hn ▸ ht) t rfl
      cases hp : s.piece? registry with
      | none =>
        refine leads_turn (v := afterToken s waiting (s.step (.nested registry 0))) ?_ ?_
        · simp only [turn, hp]
        · rwa [step_of_piece?_eq_none (l := .nested registry left) (by simpa using hp) (by simp)]
      | some q =>
        obtain ⟨scope, cs⟩ := q
        cases left with
        | zero =>
          refine leads_turn (v := afterToken s waiting (s.step (.nested registry 0))) ?_ htoken
          simp only [turn, hp]
          exact if_neg (by omega)
        | succ left =>
          have hinner := ihd left (Nat.lt_succ_self _) (.start cs scope) (s :: waiting)
            (by rw [List.length_cons]; omega)
          -- The piece has come to what the token's own language answers.
          have hstep : s.step (answering registry (outcome (.nested registry left)
              (.start cs scope))) = s.step (.nested registry (left + 1)) :=
            step_of_answer?_eq (l := .nested registry (left + 1)) hp rfl rfl
          refine leads_turn (v := reading (.start cs scope) (s :: waiting)) ?_
            (hinner.trans (leads_turn rfl ?_))
          · simp only [turn, hp]
            exact if_pos (by omega)
          · rwa [hstep]

/-- Pieces wait for each other up to the greatest depth. -/
theorem depth_le_of_leads {w v : Parsing} (h : Leads registry w v) (hw : w.depth ≤ maxDepth) :
    v.depth ≤ maxDepth := by
  induction h with
  | refl => exact hw
  | tail _ hu ih =>
    cases advances_of_turn hu with
    | token | finish => exact ih
    | descend _ hl => exact hl
    | resume | fail => exact Nat.le_of_succ_le ih

/-- At the greatest depth, a token that hands a piece on is refused. -/
theorem turn_of_depth_eq {scope : Scope} {cs : List Char} (hw : waiting.length = maxDepth)
    (hp : s.piece? registry = some (scope, cs)) : ∃ position command,
    turn registry (reading s waiting) =
      .inr (ended (.error ⟨.faultIn position command .nestedTooDeeply, s.nest⟩) waiting) := by
  obtain ⟨c, pos, r, -, -, hstep⟩ := step_of_piece? hp
  refine ⟨r.position, c.name, ?_⟩
  simp only [turn, hp, hw, lt_irrefl, if_false, hstep (.nested registry 0) rfl,
    Language.answer?_nested_zero]
  rfl

end Parsing

open Parsing

/-- The loop ends with what it leads to. -/
theorem Parsing.Leads.ends {registry : Registry} {w : Parsing} {o : Except Failure Atom}
    (h : Leads registry w (ended o [])) : Ends (turn registry) w o := by
  induction h using Relation.ReflTransGen.head_induction_on with
  | refl => exact .over rfl
  | head hw _ ih => exact .again hw ih

/-- **Parsing terminates**, in strict and in lenient mode. From the start of the markup, the loop
over the parsers at work ends after finitely many turns, with the result of the parse. Every turn is
one of those from which no infinite sequence can be made: a token takes at least one character, and
a piece is only opened below the greatest depth. At that depth its token is refused, so that no more
parsers wait than the depth allows. The loops within a turn end as well: the scan takes a character
in every turn, and delivering an atom, ending declarations and salvaging take a level off the nest
in every turn. -/
theorem parse_terminates (registry : Registry) (o : ParseOptions) (markup : String) :
    (∃ r, Ends (turn registry) (.start o.packages markup) r ∧
      registry.parse o markup = match r with
        | .ok a => .ok a
        | .error f => if o.lenient then .ok f.nest.salvage else .error f.error) ∧
    (∀ w v, turn registry w = .inr v → Advances registry w v) ∧
    (WellFounded fun v w => Advances registry w v) ∧
    (∀ w, Leads registry (.start o.packages markup) w → w.depth ≤ maxDepth) ∧
    (∀ s waiting scope cs, waiting.length = maxDepth → s.piece? registry = some (scope, cs) →
      ∃ position command, turn registry (reading s waiting) =
        .inr (ended (.error ⟨.faultIn position command .nestedTooDeeply, s.nest⟩) waiting)) ∧
    (∀ l, Computes (scanTurn l) (scan l) (·.reader.cursor.rest.length)) ∧
    (∀ here, Computes (Nest.deliverTurn here) (fun p => p.2.deliver here p.1) (·.2.length) ∧
      Computes (Nest.closeTurn here) (Nest.closeDeclarations here) List.length) ∧
    Computes Nest.salvageTurn Nest.salvage List.length := by
  refine ⟨⟨_, (leads_ended registry maxDepth _ [] (Nat.zero_add _)).ends, rfl⟩,
    fun _ _ => advances_of_turn, wellFounded_advances registry,
    fun w hw => depth_le_of_leads hw (Nat.zero_le _), fun _ _ _ _ => turn_of_depth_eq,
    computes_scan,
    fun here => ⟨Nest.computes_deliver here, Nest.computes_closeDeclarations here⟩,
    Nest.computes_salvage⟩

/-- A text that hands itself on is refused, as nested too deeply. -/
theorem ParseState.parse_of_piece?_self {registry : Registry} {scope : Scope} {cs : List Char}
    (h : (ParseState.start cs scope).piece? registry = some (scope, cs)) (depth : Nat) :
    ∃ position command n, parse (.nested registry depth) scope cs =
      .error ⟨.faultIn position command .nestedTooDeeply, n⟩ := by
  obtain ⟨c, pos, r, -, -, hstep⟩ := step_of_piece? h
  refine ⟨r.position, c.name, Nest.start, ?_⟩
  rw [parse_eq_outcome]
  refine outcome_of_step_error ?_
  rw [hstep _ (by simp)]
  induction depth with
  | zero => rfl
  | succ depth ih =>
    have hparse : parse (.nested registry depth) scope cs =
        .error ⟨.faultIn r.position c.name .nestedTooDeeply, Nest.start⟩ := by
      rw [parse_eq_outcome]
      exact outcome_of_step_error ((hstep _ (by simp)).trans ih)
    rw [Language.answer?_nested_succ, hparse]
    rfl

/-- A command `\m` that stands for `\m` opens one parser after the other, and is refused at the
greatest depth. -/
theorem parse_terminates_self_recursive :
    let registry := Registry.empty.define none (.simple "m" "\\m".toList)
    let s : ParseState := .start "\\m".toList {}
    let waiting := List.replicate maxDepth s
    (∃ r, Ends (turn registry) (.start [] "\\m") r) ∧
      turn registry (.start [] "\\m") = .inr (reading s [s]) ∧
      Advances registry (.start [] "\\m") (reading s [s]) ∧ (reading s [s]).depth ≤ maxDepth ∧
      (∃ position command, turn registry (reading s waiting) =
        .inr (ended (.error ⟨.faultIn position command .nestedTooDeeply, s.nest⟩) waiting)) ∧
      ∃ position command, registry.parse {} "\\m" =
        .error (.faultIn position command .nestedTooDeeply) := by
  intro registry s waiting
  have hp : s.piece? registry = some ({}, "\\m".toList) := rfl
  have hturn : turn registry (.start [] "\\m") = .inr (reading s [s]) := rfl
  obtain ⟨⟨r, hr, -⟩, hadvances, -, hdepth, hrefused, -⟩ := parse_terminates registry {} "\\m"
  refine ⟨⟨r, hr⟩, hturn, hadvances _ _ hturn, hdepth _ (.single hturn),
    hrefused s waiting _ _ (List.length_replicate ..) hp, ?_⟩
  obtain ⟨position, command, n, hn⟩ := parse_of_piece?_self hp maxDepth
  refine ⟨position, command, ?_⟩
  change parse registry.language {} "\\m".toList = _ at hn
  rw [Registry.parse, hn]
  rfl

end Typeset
