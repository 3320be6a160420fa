import Typeset.Proofs.Nest.Sound
import Typeset.Proofs.Parse.Tokens
import Typeset.Proofs.Table.Builder

/-!
# Brackets

Which markup of brackets a parse accepts. Braces, fences and environments must nest; `&` stands in
an environment, and a row separator not directly in a fence. Declarations, which end on their own
where the bracket around them ends, do not matter.

* `BracketToken`: the tokens, with their text and what they do to the brackets that are open
  (`BracketToken.brackets?`).
* `Nest.Bracketed`: a nest that has certain brackets open, and otherwise only declarations.
* `Nest.Bracketed.apply`: a nest does with a token what the open brackets say.
* `isOk_parse_spell_iff`: a parse accepts the tokens exactly if every bracket is closed in turn.
-/

namespace Typeset

/-- An environment that takes no column specification. -/
structure PlainEnvironment where
  name : String
  kind : TableKind
  named : TableKind.named? name = some kind
  plain : kind.takesSpec = false

/-- What can be open. -/
inductive Bracket where
  | brace
  | fence
  | environment (name : String)
  deriving DecidableEq, Repr

/-- Tokens that open or close brackets, that depend on them, or that stand between them. -/
inductive BracketToken where
  | char (c : Char) (ordinary : isOrdinary c = true) (noBracket : c ≠ '[')
  | openBrace
  | closeBrace
  | left
  | right
  | openEnvironment (e : PlainEnvironment)
  | closeEnvironment (e : PlainEnvironment)
  | column
  | row
  | bold
  | division

namespace BracketToken

/-- The token as it is written. -/
def text : BracketToken → List Char
  | char c _ _ => [c]
  | openBrace => ['{']
  | closeBrace => ['}']
  | left => '\\' :: ("left".toList ++ ['('])
  | right => '\\' :: ("right".toList ++ [')'])
  | openEnvironment e => '\\' :: ("begin".toList ++ ('{' :: (e.name.toList ++ ['}'])))
  | closeEnvironment e => '\\' :: ("end".toList ++ ('{' :: (e.name.toList ++ ['}'])))
  | column => ['&']
  | row => ['\\', '\\']
  | bold => '\\' :: "bf".toList
  | division => '\\' :: "over".toList

/-- The brackets that are open after the token, the innermost one first; none if the token does not
fit what is open before it. -/
def brackets? : BracketToken → List Bracket → Option (List Bracket)
  | char .., outer | bold, outer | division, outer => some outer
  | openBrace, outer => some (.brace :: outer)
  | left, outer => some (.fence :: outer)
  | openEnvironment e, outer => some (.environment e.name :: outer)
  | closeBrace, .brace :: outer => some outer
  | right, .fence :: outer => some outer
  | closeEnvironment e, .environment name :: outer => if name = e.name then some outer else none
  | column, .environment name :: outer => some (.environment name :: outer)
  | row, .fence :: _ => none
  | row, outer => some outer
  | closeBrace, _ | right, _ | closeEnvironment _, _ | column, _ => none

/-- The brackets that are open after tokens, if every token fits. -/
def bracketsAfter? : List BracketToken → List Bracket → Option (List Bracket)
  | [], outer => some outer
  | t :: ts, outer => (t.brackets? outer).bind (bracketsAfter? ts)

/-- The token is a declaration. -/
def isDeclaration : BracketToken → Bool
  | bold | division => true
  | _ => false

/-- Declarations leave the brackets alone. -/
theorem bracketsAfter?_filter (ts : List BracketToken) (outer : List Bracket) :
    bracketsAfter? (ts.filter (!·.isDeclaration)) outer = bracketsAfter? ts outer := by
  induction ts generalizing outer with
  | nil => rfl
  | cons t ts ih =>
    cases ht : t.isDeclaration with
    | true =>
      have hb : t.brackets? outer = some outer := by
        cases t <;> first | rfl | cases ht
      rw [List.filter_cons_of_neg (by simp [ht]), ih, bracketsAfter?, hb]
      rfl
    | false =>
      rw [List.filter_cons_of_pos (by simp [ht]), bracketsAfter?, bracketsAfter?]
      exact congrArg _ (funext ih)

/-- What the token asks for. -/
def move : BracketToken → Move
  | char c _ _ => .atom (.ofChar c)
  | openBrace => .openGroup
  | closeBrace => .closeGroup
  | left => .command (.ofBuiltin "left" .left) (.consume (.fence (some '(') [] [] []))
  | right => .command (.ofBuiltin "right" .right) (.right (some ')'))
  | openEnvironment e =>
    .command (.ofBuiltin "begin" .openEnvironment)
      (.openEnvironment e.name e.kind (e.kind.format none))
  | closeEnvironment e => .command (.ofBuiltin "end" .closeEnvironment) (.closeEnvironment e.name)
  | column => .column
  | row => .command (.ofBuiltin "\\" .rowSeparator) (.rowSeparator none)
  | bold =>
    .command (.ofBuiltin "bf" (.fontSwitch Builtin.boldChange))
      (.declare (.font Builtin.boldChange))
  | division =>
    .command (.ofBuiltin "over" (.division true none)) (.stealRow (.division true none [] []))

end BracketToken

/-! ## Nests with open brackets -/

/-- A format stays as it is when an atom joins the table. -/
theorem TableBuilder.addAtom_format (b : TableBuilder) (a : Atom) :
    (b.addAtom a).table.format = b.table.format := by
  unfold TableBuilder.addAtom TableBuilder.addRule
  split <;> first | rfl | (split <;> rfl)

namespace Nest

/-- The nest has the brackets open, and otherwise declarations. The format of its tables gives no
number of columns. -/
inductive Bracketed : Nest → List Bracket → Prop where
  | root {atoms lines : List Atom} {start : Nat} : Bracketed [.group atoms lines start true] []
  | brace {atoms lines : List Atom} {start : Nat} {n : Nest} {outer : List Bracket} :
      Bracketed n outer → Bracketed (.group atoms lines start false :: n) (.brace :: outer)
  | environment {b : TableBuilder} {name : String} {kind : TableKind} {start : Nat} {n : Nest}
      {outer : List Bracket} : b.table.format.declared = none → Bracketed n outer →
      Bracketed (.table b :: .environment name kind start :: n) (.environment name :: outer)
  | fence {package : Option String} {name : String} {left : Delimiter} {segments : List Atom}
      {middles : List Delimiter} {current : List Atom} {start : Nat} {n : Nest}
      {outer : List Bracket} : Bracketed n outer →
      Bracketed
        (.command { package, name, state := .fence left segments middles current } start :: n)
        (.fence :: outer)
  | declaration {c : Command} {start : Nat} {n : Nest} {outer : List Bracket} :
      c.state.isClosable = true → Bracketed n outer → Bracketed (.command c start :: n) outer

variable {n m : Nest} {outer : List Bracket}

theorem bracketed_start : Bracketed .start [] := .root

/-- An atom changes nothing about the brackets. -/
theorem Bracketed.deliver (h : Bracketed n outer) (here : Nat) (a : Atom) :
    ∃ m, n.deliver here a = .ok m ∧ Bracketed m outer := by
  cases h with
  | root => exact ⟨_, rfl, .root⟩
  | brace hn => exact ⟨_, rfl, .brace hn⟩
  | environment hd hn =>
    exact ⟨_, rfl, .environment (by rw [TableBuilder.addAtom_format]; exact hd) hn⟩
  | fence hn => exact ⟨_, rfl, .fence hn⟩
  | @declaration c start n _ hc hn =>
    obtain ⟨package, name, state⟩ := c
    cases state with
    | switch kind atoms => exact ⟨_, rfl, .declaration rfl hn⟩
    | division rule delims num den => exact ⟨_, rfl, .declaration rfl hn⟩
    | _ => cases hc

/-- The declarations end, and the brackets stay open. -/
theorem Bracketed.closeDeclarations (h : Bracketed n outer) (here : Nat) :
    ∃ m, n.closeDeclarations here = .ok m ∧ Bracketed m outer ∧
      m.endsInDeclaration = false := by
  fun_induction Nest.closeDeclarations here n with
  | case1 c start n hc hnone =>
    obtain ⟨a, ha, -⟩ := CommandState.exists_close_of_isClosable hc
    rw [ha] at hnone
    cases hnone
  | case2 c start n hc a ha f hd =>
    cases h with
    | fence => cases hc
    | declaration _ hn =>
      obtain ⟨m, hm, -⟩ := hn.deliver here a
      rw [hm] at hd
      cases hd
  | case3 c start n hc a ha m hd ih =>
    cases h with
    | fence => cases hc
    | declaration _ hn =>
      obtain ⟨m', hm, hb⟩ := hn.deliver here a
      rw [hm] at hd
      cases hd
      exact ih hb
  | case4 c start n hc => exact ⟨_, rfl, h, by simpa [endsInDeclaration] using hc⟩
  | case5 n hn =>
    refine ⟨_, rfl, h, ?_⟩
    unfold endsInDeclaration
    split
    · exact (hn _ _ _ rfl).elim
    · rfl

/-- The operation goes on with certain brackets open, or fails if there are none to go on with. -/
def Agrees (after : Option (List Bracket)) (x : Except Failure Nest) : Prop :=
  match after with
  | some outer => ∃ m, x = .ok m ∧ Bracketed m outer
  | none => ∃ f, x = .error f

/-- What follows the end of the declarations is settled by what it does without any. -/
theorem Bracketed.agrees_close {after : Option (List Bracket)} {g : Nest → Except Failure Nest}
    (h : Bracketed n outer) (here : Nat)
    (hg : ∀ m : Nest, Bracketed m outer → m.endsInDeclaration = false → Agrees after (g m)) :
    Agrees after (n.closeDeclarations here >>= g) := by
  obtain ⟨m, hm, hb, he⟩ := h.closeDeclarations here
  rw [hm]
  exact hg m hb he

theorem Bracketed.agrees_deliver (h : Bracketed n outer) (here : Nat) (a : Atom) :
    Agrees (some outer) (n.deliver here a) :=
  h.deliver here a

/-- The row of the innermost level can be taken. -/
theorem Bracketed.takeRow (h : Bracketed n outer) :
    ∃ row m, n.takeRow? = some (row, m) ∧ Bracketed m outer := by
  cases h with
  | root => exact ⟨_, _, rfl, .root⟩
  | brace hn => exact ⟨_, _, rfl, .brace hn⟩
  | environment hd hn => exact ⟨_, _, rfl, .environment hd hn⟩
  | fence hn => exact ⟨_, _, rfl, .fence hn⟩
  | @declaration c start n _ hc hn =>
    obtain ⟨package, name, state⟩ := c
    cases state with
    | switch kind atoms => exact ⟨_, _, rfl, .declaration rfl hn⟩
    | division rule delims num den => exact ⟨_, _, rfl, .declaration rfl hn⟩
    | _ => cases hc

end Nest

/-- An environment without column specification gives no number of columns. -/
theorem TableKind.declared_format_none (kind : TableKind) :
    (kind.format none).declared = none := by
  cases kind <;> rfl

/-- A table without a number of columns is sound. -/
theorem TableKind.exists_finish {b : TableBuilder} (h : b.table.format.declared = none)
    (kind : TableKind) : ∃ a, kind.finish b = .ok a :=
  ⟨_, finish_eq_ok_iff.mpr
    ⟨Table.fits_of_declared_eq_none (by rw [TableBuilder.close_format, h]), rfl⟩⟩

namespace Nest

variable {n m : Nest} {outer : List Bracket}

/-- A nest does with a token what its open brackets say. -/
theorem Bracketed.apply (h : Bracketed n outer) (t : BracketToken) (pos here : Nat) :
    Agrees (t.brackets? outer) (n.apply pos here t.move) := by
  cases t with
  | char c => exact h.agrees_deliver here _
  | openBrace => exact ⟨_, rfl, .brace h⟩
  | left => exact ⟨_, rfl, .fence h⟩
  | openEnvironment e =>
    exact ⟨_, rfl, .environment e.kind.declared_format_none h⟩
  | bold => exact ⟨_, rfl, .declaration rfl h⟩
  | division =>
    obtain ⟨row, m, ht, hb⟩ := h.takeRow
    simp only [BracketToken.move, Nest.apply, Nest.perform, ht]
    exact ⟨_, rfl, .declaration rfl hb⟩
  | closeBrace =>
    refine h.agrees_close here fun m hm he => ?_
    cases hm with
    | brace hn => exact hn.agrees_deliver here _
    | root | environment | fence => exact ⟨_, rfl⟩
    | declaration hc => exact absurd hc (by simpa [endsInDeclaration] using he)
  | right =>
    refine h.agrees_close here fun m hm he => ?_
    cases hm with
    | fence hn => exact hn.agrees_deliver here _
    | root | brace | environment => exact ⟨_, rfl⟩
    | declaration hc => exact absurd hc (by simpa [endsInDeclaration] using he)
  | closeEnvironment e =>
    refine h.agrees_close here fun m hm he => ?_
    cases hm with
    | @environment b name kind start n outer hd hn =>
      by_cases hname : name = e.name
      · obtain ⟨a, ha⟩ := TableKind.exists_finish hd kind
        simp only [BracketToken.brackets?, hname, if_true, ha]
        exact hn.agrees_deliver here a
      · simp only [BracketToken.brackets?, hname, if_false]
        exact ⟨_, rfl⟩
    | root | brace | fence => exact ⟨_, rfl⟩
    | declaration hc => exact absurd hc (by simpa [endsInDeclaration] using he)
  | column =>
    refine h.agrees_close here fun m hm he => ?_
    cases hm with
    | environment hd hn => exact ⟨_, rfl, .environment hd hn⟩
    | root | brace | fence => exact ⟨_, rfl⟩
    | declaration hc => exact absurd hc (by simpa [endsInDeclaration] using he)
  | row =>
    refine h.agrees_close here fun m hm he => ?_
    cases hm with
    | environment hd hn => exact ⟨_, rfl, .environment hd hn⟩
    | root => exact ⟨_, rfl, .root⟩
    | brace hn => exact ⟨_, rfl, .brace hn⟩
    | fence => exact ⟨_, rfl⟩
    | declaration hc => exact absurd hc (by simpa [endsInDeclaration] using he)

/-- The markup has an atom exactly if no bracket is open at its end. -/
theorem Bracketed.isOk_finish (h : Bracketed n outer) (here : Nat) :
    (n.finish here).isOk = true ↔ outer = [] := by
  obtain ⟨m, hm, hb, he⟩ := h.closeDeclarations here
  unfold Nest.finish
  rw [hm]
  cases hb with
  | root => exact iff_of_true rfl rfl
  | brace | environment | fence => exact iff_of_false nofun nofun
  | declaration hc => exact absurd hc (by simpa [endsInDeclaration] using he)

end Nest

/-! ## The text of tokens -/

/-- Tokens with blanks between them. Each token comes with the number of blanks after it, not
counting the one that separates it from the next token. -/
def spell : List (BracketToken × Nat) → List Char
  | [] => []
  | [(t, blanks)] => t.text ++ List.replicate blanks ' '
  | (t, blanks) :: ts => t.text ++ (List.replicate (blanks + 1) ' ' ++ spell ts)

/-- A token starts with a character that is neither blank nor starts a comment or an option. -/
theorem BracketToken.exists_text_eq (t : BracketToken) :
    ∃ x cs, t.text = x :: cs ∧ Text.isBlank x = false ∧ x ≠ '%' ∧ x ≠ '[' := by
  cases t with
  | char c ordinary noBracket =>
    simp only [isOrdinary, Bool.and_eq_true, Bool.not_eq_true'] at ordinary
    refine ⟨c, [], rfl, ordinary.1, ?_, noBracket⟩
    rintro rfl
    exact absurd ordinary.2 (by decide)
  | _ => exact ⟨_, _, rfl, by decide, by decide, by decide⟩

/-- The text of tokens starts with no comment and no option. -/
theorem head_spell (ts : List (BracketToken × Nat)) :
    ∀ x ∈ ((spell ts).dropWhile Text.isBlank).head?, x ≠ '%' ∧ x ≠ '[' := by
  have hhead (t : BracketToken) (cs : List Char) :
      ∀ x ∈ ((t.text ++ cs).dropWhile Text.isBlank).head?, x ≠ '%' ∧ x ≠ '[' := by
    obtain ⟨y, ys, hy, hblank, hne⟩ := t.exists_text_eq
    rw [hy, List.cons_append, List.dropWhile_cons_of_neg (by simp [hblank])]
    rintro x ⟨⟩
    exact hne
  match ts with
  | [] => nofun
  | [(t, blanks)] => exact hhead t _
  | (t, blanks) :: t' :: ts => exact hhead t _

/-- What stands behind the first token: blanks and the text of the other tokens. -/
theorem exists_spell_cons (t : BracketToken) (blanks : Nat) (ts : List (BracketToken × Nat)) :
    ∃ n, spell ((t, blanks) :: ts) = t.text ++ (List.replicate n ' ' ++ spell ts) ∧
      (n = 0 → ts = []) := by
  cases ts with
  | nil => exact ⟨blanks, by simp [spell], fun _ => rfl⟩
  | cons t' ts => exact ⟨blanks + 1, rfl, nofun⟩

variable {l : Language}

/-- Every token is read, whatever tokens follow it. -/
theorem BracketToken.reads (t : BracketToken) (packages : List String)
    (hl : l.registry = .builtin) (ts : List (BracketToken × Nat)) {n : Nat} (hn : n = 0 → ts = []) :
    l.Reads { packages } t.text (List.replicate n ' ' ++ spell ts) t.move := by
  have hletter : ∀ c ∈ (List.replicate n ' ' ++ spell ts).head?, c.isAlpha = false := by
    cases n with
    | zero => rw [hn rfl]; nofun
    | succ n => rintro _ ⟨⟩; decide
  cases t with
  | char c ordinary => exact Language.reads_ordinary ordinary _
  | openBrace | closeBrace | column => exact Language.reads_char (by decide) (fun _ => rfl) _
  | left => exact Language.reads_left hl ⟨by decide, by decide, by decide, by decide, rfl⟩ 0 _
  | right => exact Language.reads_right hl ⟨by decide, by decide, by decide, by decide, rfl⟩ 0 _
  | openEnvironment e => exact Language.reads_begin hl e.named e.plain _
  | closeEnvironment e => exact Language.reads_end hl e.named _
  | row =>
    refine Language.reads_rowSeparator hl ?_
    rw [Cursor.dropWhile_replicate_blank]
    exact head_spell ts
  | bold => exact Language.reads_bold hl hletter
  | division => exact Language.reads_over hl hletter

/-- From a state before tokens, a parse succeeds exactly if the tokens close what is open. -/
theorem isOk_outcome_iff (hl : l.registry = .builtin) {packages : List String}
    (ts : List (BracketToken × Nat)) {s : ParseState} {outer : List Bracket}
    (hn : s.nest.Bracketed outer)
    (hscope : s.reader.scope = { packages }) (hs : s.reader.cursor.IsBefore (spell ts)) :
    (s.outcome l).isOk = true ↔
      BracketToken.bracketsAfter? (ts.map Prod.fst) outer = some [] := by
  induction ts generalizing s outer with
  | nil =>
    rw [ParseState.outcome_of_isBefore_nil hs, hn.isOk_finish]
    simp [BracketToken.bracketsAfter?]
  | cons p ts ih =>
    obtain ⟨t, blanks⟩ := p
    obtain ⟨n, hspell, hzero⟩ := exists_spell_cons t blanks ts
    rw [hspell] at hs
    obtain ⟨pos, here, c, hc, hstep⟩ :=
      (t.reads packages hl ts hzero).exists_step hs hscope
    have ha := hn.apply t pos here
    rw [List.map_cons, BracketToken.bracketsAfter?]
    cases hb : t.brackets? outer with
    | none =>
      rw [hb] at ha
      obtain ⟨f, hf⟩ := ha
      rw [hf] at hstep
      rw [ParseState.outcome_of_step_error hstep]
      exact iff_of_false nofun nofun
    | some inner =>
      rw [hb] at ha
      obtain ⟨m, hm, hbr⟩ := ha
      rw [hm] at hstep
      rw [ParseState.outcome_of_step hstep]
      refine ih hbr rfl ?_
      rw [Cursor.IsBefore, hc, Cursor.dropWhile_replicate_blank]

/-- **Which brackets a parse accepts.** Tokens with blanks between them have an atom exactly if
every closing bracket closes the innermost open one, which is of its kind and name, no bracket is
left open, every `&` stands in an environment, and no row separator stands directly in a fence.
Without their declarations they are accepted just the same. -/
theorem isOk_parse_spell_iff (packages : List String) (blanks : Nat)
    (ts : List (BracketToken × Nat)) :
    let accepts ts := (Registry.builtin.parse { packages }
      (String.ofList (List.replicate blanks ' ' ++ spell ts))).isOk
    (accepts ts = true ↔ BracketToken.bracketsAfter? (ts.map Prod.fst) [] = some []) ∧
      accepts (ts.filter (!·.1.isDeclaration)) = accepts ts := by
  intro accepts
  have hiff (ts : List (BracketToken × Nat)) :
      accepts ts = true ↔ BracketToken.bracketsAfter? (ts.map Prod.fst) [] = some [] := by
    have hstart : (ParseState.start (List.replicate blanks ' ' ++ spell ts)
        { packages }).reader.cursor.IsBefore (spell ts) := Cursor.dropWhile_replicate_blank blanks _
    have h :=
      isOk_outcome_iff (l := Registry.builtin.language) rfl ts Nest.bracketed_start rfl hstart
    rw [← h, ← ParseState.parse_eq_outcome]
    simp only [accepts, Registry.parse, String.toList_ofList]
    split <;> simp_all [Except.isOk, Except.toBool]
  refine ⟨hiff ts, Bool.eq_iff_iff.mpr ?_⟩
  have hmap : (ts.filter (!·.1.isDeclaration)).map Prod.fst =
      (ts.map Prod.fst).filter (!·.isDeclaration) := by
    rw [List.filter_map]
    rfl
  rw [hiff, hiff, hmap, BracketToken.bracketsAfter?_filter]

end Typeset
