import Typeset.Proofs.Cursor.Balanced
import Typeset.Proofs.Parse.Calls
import Typeset.Proofs.Parse.Lexing

/-!
# The order of scripts

A superscript and a subscript may stand in either order behind their base, and so may primes and a
subscript.

* `toOption_parse_swap`: two texts whose tokens may be done in either order may stand in either
  order.
* `Registry.Reorders`: markup and the same markup with scripts in another order.
* `Registry.Reorders.toOption_parse_eq`: both come to the same.
* `not_parse_script_order`: where the scripts are no tokens, or are not read the same way, the order
  matters.
-/

namespace Typeset

variable {l : Language} {scope scope' : Scope} {rest before after text text' x y : List Char}
  {moves moves' mx my : List Move} {o ox oy : Option Scope}

/-- Two texts in front of the same rest come to the same if their tokens do. -/
theorem toOption_parse_of_lexesAs (h : l.LexesAs rest scope text moves o)
    (h' : l.LexesAs rest scope text' moves' o)
    (hsame : o ≠ none → Nest.start.after moves = Nest.start.after moves') :
    (ParseState.parse l scope (text ++ rest)).toOption =
      (ParseState.parse l scope (text' ++ rest)).toOption := by
  obtain ⟨m, hm, hmoves⟩ := h
  obtain ⟨m', hm', hmoves'⟩ := h'
  exact ParseState.toOption_parse_eq hm hm' fun hne => by rw [hmoves hne, hmoves' hne, hsame hne]

/-- Where a token is refused in the markup in front of it, a text fails. -/
theorem toOption_parse_of_refused (h : l.Lexes after scope before moves none) :
    (ParseState.parse l scope (before ++ after)).toOption = none := by
  obtain ⟨f, hf⟩ := (ParseState.leads_start h).exists_error
  rw [ParseState.parse_eq_outcome, hf]
  rfl

/-- Two texts may stand in either order if each is read the same way in front of the other one and
without it, if their tokens may be done in either order, and if they leave the names as they are. -/
theorem toOption_parse_swap (hbefore : l.Lexes (x ++ (y ++ after)) scope before moves (some scope'))
    (hbefore' : l.Lexes (y ++ (x ++ after)) scope before moves (some scope'))
    (hx : l.LexesAs (y ++ after) scope' x mx ox) (hx' : l.LexesAs after scope' x mx ox)
    (hy : l.LexesAs after scope' y my oy) (hy' : l.LexesAs (x ++ after) scope' y my oy)
    (hox : ∀ s ∈ ox, s = scope') (hoy : ∀ s ∈ oy, s = scope') (hcomm : ox ≠ none → oy ≠ none →
      ∀ n, Nest.start.after moves = some n → n.after (mx ++ my) = n.after (my ++ mx)) :
    (ParseState.parse l scope (before ++ (x ++ (y ++ after)))).toOption =
      (ParseState.parse l scope (before ++ (y ++ (x ++ after)))).toOption := by
  rw [← List.append_assoc x] at hbefore
  rw [← List.append_assoc y] at hbefore'
  have h := hbefore.append_lexesAs (hx.append fun s hs => hox s hs ▸ hy)
  have h' := hbefore'.append_lexesAs (hy'.append fun s hs => hoy s hs ▸ hx')
  have ho : (oy.bind fun _ => ox) = ox.bind fun _ => oy := by
    cases ox with
    | none => cases oy <;> rfl
    | some s =>
      cases oy with
      | none => rfl
      | some t => rw [hox s rfl, hoy t rfl]
  rw [ho] at h'
  have hsame : (ox.bind fun _ => oy) ≠ none →
      Nest.start.after (moves ++ (mx ++ my)) = Nest.start.after (moves ++ (my ++ mx)) := by
    intro hne
    have hxne : ox ≠ none := by rintro rfl; exact hne rfl
    have hyne : oy ≠ none := by rintro rfl; cases ox <;> exact hne rfl
    rw [Nest.after_append, Nest.after_append]
    exact Option.bind_congr fun n hn => hcomm hxne hyne n hn
  simpa only [List.append_assoc] using toOption_parse_of_lexesAs h h' hsame

/-! ## Scripts and primes -/

/-- Between braces, in front of either rest, the text is read as the same tokens, in which every
brace has its partner and which set up no names; or a token is refused in front of both. -/
def Language.IsPlainGroup (l : Language) (scope : Scope) (text rest rest' : List Char) : Prop :=
  ∃ moves o, l.LexesAs ('}' :: rest) scope text moves o ∧
    l.LexesAs ('}' :: rest') scope text moves o ∧ (o ≠ none → braceDepth? 0 moves = some 0) ∧
    ∀ s ∈ o, s = scope

theorem Language.lexesAs_primes (l : Language) (rest : List Char) (scope : Scope) (k : Nat) :
    l.LexesAs rest scope (List.replicate k '\'') (List.replicate k .prime) (some scope) := by
  refine Lexes.lexesAs ?_
  induction k with
  | zero => exact .nil
  | succ k ih => exact ih.cons_char (by decide) fun _ => rfl

/-- Markup, and the same markup with scripts in another order, in a language in which pieces nest up
to a depth. The scripts are groups that are read the same way in both orders and set up no names. -/
inductive Registry.Reorders (registry : Registry) :
    Nat → Scope → List Char → List Char → Prop where
  /-- A superscript and a subscript behind markup that is read the same way in front of both. -/
  | scripts {depth : Nat} {scope scope' : Scope} {before after a b : List Char}
      {moves : List Move} :
      Language.Lexes (.nested registry depth) (scripted .sup a ++ (scripted .sub b ++ after)) scope
        before moves (some scope') →
      Language.Lexes (.nested registry depth) (scripted .sub b ++ (scripted .sup a ++ after)) scope
        before moves (some scope') →
      Language.IsPlainGroup (.nested registry depth) scope' a (scripted .sub b ++ after) after →
      Language.IsPlainGroup (.nested registry depth) scope' b (scripted .sup a ++ after) after →
      Reorders registry depth scope (before ++ (scripted .sup a ++ (scripted .sub b ++ after)))
        (before ++ (scripted .sub b ++ (scripted .sup a ++ after)))
  /-- Primes and a subscript, where there is a base. -/
  | primes {depth : Nat} {scope scope' : Scope} {before after b : List Char} {moves : List Move}
      (k : Nat) :
      Language.Lexes (.nested registry depth)
        (List.replicate k '\'' ++ (scripted .sub b ++ after)) scope before moves (some scope') →
      Language.Lexes (.nested registry depth)
        (scripted .sub b ++ (List.replicate k '\'' ++ after)) scope before moves (some scope') →
      Language.IsPlainGroup (.nested registry depth) scope' b (List.replicate k '\'' ++ after)
        after →
      (∀ n, Nest.start.after moves = some n → n.takeLast? ≠ none) →
      Reorders registry depth scope
        (before ++ (List.replicate k '\'' ++ (scripted .sub b ++ after)))
        (before ++ (scripted .sub b ++ (List.replicate k '\'' ++ after)))
  /-- A command that hands a piece of markup on in which scripts stand in another order. -/
  | piece {depth : Nat} {scope scope' : Scope} {before after token token' text text' : List Char}
      {moves : List Move} {c : Command} :
      Language.Lexes (.nested registry (depth + 1)) (token ++ after) scope before moves
        (some scope') →
      Language.Lexes (.nested registry (depth + 1)) (token' ++ after) scope before moves
        (some scope') →
      Language.HandsOn (.nested registry (depth + 1)) scope' c token after text →
      Language.HandsOn (.nested registry (depth + 1)) scope' c token' after text' →
      Reorders registry depth scope' text text' →
      Reorders registry (depth + 1) scope (before ++ (token ++ after))
        (before ++ (token' ++ after))
  /-- The markup is refused in front of what is in another order. -/
  | refused {depth : Nat} {scope : Scope} {before after after' : List Char}
      {moves moves' : List Move} :
      Language.Lexes (.nested registry depth) after scope before moves none →
      Language.Lexes (.nested registry depth) after' scope before moves' none →
      Reorders registry depth scope (before ++ after) (before ++ after')
  | trans {depth : Nat} {scope : Scope} {cs cs' cs'' : List Char} :
      Reorders registry depth scope cs cs' → Reorders registry depth scope cs' cs'' →
      Reorders registry depth scope cs cs''

/-- Markup with scripts in another order comes to the same. -/
theorem Registry.Reorders.toOption_parse_eq {registry : Registry} {depth : Nat}
    {cs cs' : List Char} (h : registry.Reorders depth scope cs cs') :
    (ParseState.parse (.nested registry depth) scope cs).toOption =
      (ParseState.parse (.nested registry depth) scope cs').toOption := by
  induction h with
  | scripts h h' ha hb =>
    obtain ⟨mx, ox, ha, ha', hda, hox⟩ := ha
    obtain ⟨my, oy, hb', hb, hdb, hoy⟩ := hb
    exact toOption_parse_swap h h' (ha.scripted .sup) (ha'.scripted .sup) (hb.scripted .sub)
      (hb'.scripted .sub) hox hoy fun hne hne' n _ =>
        Nest.after_script_comm (hda hne) (hdb hne') n
  | @primes depth scope scope' before after b moves k h h' hb hbase =>
    obtain ⟨my, oy, hb', hb, hdb, hoy⟩ := hb
    have hprimes : ∀ s ∈ some scope', s = scope' := by
      rintro s ⟨⟩
      rfl
    exact toOption_parse_swap h h' (Language.lexesAs_primes _ _ scope' k)
      (Language.lexesAs_primes _ _ scope' k) (hb.scripted .sub) (hb'.scripted .sub) hprimes hoy
      fun _ hne' n hn => Nest.after_primes_comm (hdb hne') (hbase n hn) k
  | @piece depth scope scope' before after token token' text text' moves c h h' ht ht' _ ih =>
    have hanswer (a : Atom) (cs : List Char) :
        (Language.nested registry (depth + 1)).answer? scope' cs = some (.ok a) ↔
          ∃ b, (ParseState.parse (.nested registry depth) scope' cs).toOption = some b ∧
            b.unwrapped = a := by
      rw [Language.answer?_nested_succ]
      unfold pieceAnswer
      cases ParseState.parse (.nested registry depth) scope' cs <;> simp [Except.toOption]
    obtain ⟨m, o, hm, hm'⟩ := ht.exists_lexesAs ht' fun a => by rw [hanswer, hanswer, ih]
    simpa only [List.append_assoc] using
      toOption_parse_of_lexesAs (h.append_lexesAs hm) (h'.append_lexesAs hm') fun _ => rfl
  | refused h h' => rw [toOption_parse_of_refused h, toOption_parse_of_refused h']
  | trans _ _ ih ih' => exact ih.trans ih'

/-- Markup comes to the same with a superscript and a subscript in the other order, and with primes
and a subscript. The markup in front of them is read the same way in front of both orders; primes
have a base there. The scripts are groups that are read the same way in both orders and set up no
names. All of that may stand in a piece of the markup. -/
theorem parse_script_order {registry : Registry} {packages : List String} {cs cs' : List Char}
    (h : registry.Reorders maxDepth { packages } cs cs') :
    (registry.parse { packages } (String.ofList cs)).toOption =
      (registry.parse { packages } (String.ofList cs')).toOption := by
  rw [registry.toOption_parse, registry.toOption_parse]
  exact h.toOption_parse_eq

/-- A root hands its degree on. -/
theorem Language.handsOn_degree (hl : l.registry = .builtin) (packages : List String)
    {degree : List Char} (hd : IsBody '[' ']' degree) (rest : List Char) :
    l.HandsOn { packages } (.ofBuiltin "sqrt" .sqrt)
      ('\\' :: ("sqrt".toList ++ '[' :: (degree ++ [']']))) rest degree := by
  have hword : KnowsWord "sqrt" .sqrt :=
    ⟨⟨by simp [Builtin.table, Builtin.fractions], by decide⟩, by decide, by decide⟩
  have hblank : ('[' :: (degree ++ ']' :: rest)).dropWhile Text.isBlank =
      '[' :: (degree ++ ']' :: rest) := List.dropWhile_cons_of_neg (by decide)
  refine ⟨_, rfl, fun position => ?_⟩
  have hbracket : ∀ c ∈ ('[' :: (degree ++ ']' :: rest)).head?, c.isAlpha = false := by
    rintro _ ⟨⟩
    decide
  obtain ⟨q, hq⟩ := Cursor.readName?_letters hword.ne_nil (List.all_eq_true.mp hword.isAlpha)
    hbracket position
  rw [hblank] at hq
  let e : Cursor := { rest := '[' :: (degree ++ ']' :: rest), position := q }
  let d : Cursor := { rest, position := q + byteLength ('[' :: (degree ++ [']'])) }
  have hoption : e.readOptional? = (some degree, d) :=
    Cursor.readOptional?_eq_some_iff.mpr ⟨[], .nil, rfl, rfl, hd⟩
  refine ⟨"sqrt".toList, e, d, ?_, fun pos => ?_, ?_, Cursor.isBefore_of_rest rfl⟩
  · rw [List.append_assoc, List.cons_append, List.append_assoc, List.singleton_append]
    exact hq
  · rw [String.ofList_toList]
    exact resolve_of_knows hl hword.toKnows pos
  · simp only [Command.ofBuiltin, CommandState.piece?, Builtin.piece?, Reading.optional?,
      Reading.ofCursor, hoption]

/-- Scripts of a letter in the degree of a root. -/
theorem parse_script_order_root :
    let root (degree : List Char) := '\\' :: ("sqrt".toList ++ '[' :: (degree ++ [']'])) ++ ['y']
    let first := ['x'] ++ (scripted .sup ['2'] ++ (scripted .sub ['i'] ++ []))
    let second := ['x'] ++ (scripted .sub ['i'] ++ (scripted .sup ['2'] ++ []))
    Registry.builtin.Reorders maxDepth {} (root first) (root second) ∧
      (Registry.builtin.parse {} (String.ofList (root first))).toOption =
        (Registry.builtin.parse {} (String.ofList (root second))).toOption := by
  intro root first second
  have hgroup (l : Language) (c : Char) (hc : isOrdinary c = true) (rest rest' : List Char) :
      l.IsPlainGroup {} [c] rest rest' := by
    have hlexes (rest : List Char) : l.LexesAs ('}' :: rest) {} [c] [.atom (.ofChar c)] (some {}) :=
      (Language.Lexes.nil.cons_ordinary hc).lexesAs
    exact ⟨_, _, hlexes rest, hlexes rest', fun _ => rfl, by rintro s ⟨⟩; rfl⟩
  have hletter (l : Language) (rest : List Char) :
      l.Lexes rest {} ['x'] [.atom (.ofChar 'x')] (some {}) :=
    .cons_ordinary (by decide) .nil
  have hdegree : Registry.builtin.Reorders 99 {} first second :=
    .scripts (hletter _ _) (hletter _ _) (hgroup _ '2' (by decide) _ _)
      (hgroup _ 'i' (by decide) _ _)
  have hroot {degree : List Char} (hd : IsBody '[' ']' degree) :=
    Language.handsOn_degree (l := .nested .builtin 100) rfl [] hd ['y']
  have hnil (rest : List Char) :
      Language.Lexes (.nested .builtin 100) rest {} [] [] (some {}) := .nil
  have hfirst : IsBody '[' ']' first :=
    isBody_of_forall (by simp [first, scripted, Canonical.braced, Canonical.sign])
  have hsecond : IsBody '[' ']' second :=
    isBody_of_forall (by simp [second, scripted, Canonical.braced, Canonical.sign])
  have h := Registry.Reorders.piece (hnil _) (hnil _) (hroot hfirst) (hroot hsecond) hdegree
  exact ⟨h, parse_script_order h⟩

/-! ## Where the order matters -/

section Limits

theorem Nest.after_script_atom (a : Atom) (slot : ScriptSlot) (n : Nest) :
    n.after (scriptMoves slot [.atom a]) = n.editLast? (Atom.withScript? slot (.row [a])) := by
  rw [after_script rfl]
  unfold withContent?
  rw [content?_atom]
  rfl

/-- A row separator alone in front of an atom. -/
theorem Nest.content?_rowSeparator (c : Command) (a : Atom) :
    content? [.command c (.rowSeparator none), .atom a] =
      some (.lines [.row [], .row [a]] (some .center)) := by
  have hafter : start.after [.command c (.rowSeparator none), .atom a] =
      some [.group [a] [.row []] 0 true] := by
    rw [after_cons, Nest.apply, perform, rowSeparator, start,
      closeDeclarations_of_endsInDeclaration rfl]
    rfl
  rw [content?, hafter, Option.bind_some, finish_root]
  rfl

/-- A letter with an atom below and other markup above. -/
theorem Nest.content?_scripts {moves : List Move} (hd : braceDepth? 0 moves = some 0) (c : Char)
    (a : Atom) :
    content? ([.atom (.ofChar c)] ++ (scriptMoves .sub [.atom a] ++ scriptMoves .sup moves)) =
      (content? moves).map fun g => .row [.scripts (.ofChar c) (some g) (some (.row [a]))] := by
  have hsub : start.after ([.atom (.ofChar c)] ++ scriptMoves .sub [.atom a]) =
      some [.group [.scripts (.ofChar c) none (some (.row [a]))] [] 0 true] := by
    rw [after_append]
    exact after_script_atom _ _ _
  rw [← List.append_assoc, content?, after_append, hsub, Option.bind_some, after_script hd]
  unfold withContent?
  cases content? moves with
  | none => rfl
  | some g =>
    change (finish 0 [.group _ [] 0 true]).toOption = _
    rw [finish_root]
    rfl

/-- The tokens of a script of one character. -/
theorem lexes_script {x : Char} (hx : isOrdinary x = true) (slot : ScriptSlot)
    (rest : List Char) : l.Lexes rest {} (scripted slot [x])
      (Nest.scriptMoves slot [.atom (.ofChar x)]) (some {}) :=
  (Language.Lexes.nil.cons_ordinary hx).lexesAs.scripted slot |>.lexes

variable (hl : l.registry = .builtin)

include hl in
/-- A prime behind the last argument of a command stands on nothing, where a script is refused. -/
theorem parse_frac_ne :
    (ParseState.parse l {}
        ('\\' :: "frac".toList ++ (' ' :: 'b' :: (['\''] ++ scripted .sub ['c'])))).toOption ≠
      (ParseState.parse l {}
        ('\\' :: "frac".toList ++ (' ' :: 'b' :: (scripted .sub ['c'] ++ ['\''])))).toOption := by
  let frac : Move := .command (.ofBuiltin "frac" (.fraction true none false))
    (.takeArguments (.fraction true none false))
  have hfrac {cs : List Char} {moves : List Move} (h : l.Lexes [] {} cs moves (some {})) :
      l.Lexes [] {} ('\\' :: "frac".toList ++ (' ' :: 'b' :: cs))
        (frac :: .atom (.ofChar 'b') :: moves) (some {}) :=
    .token (Language.reads_frac hl (by rintro _ ⟨⟩; decide)).readsTo
      (.blank (by decide) (h.cons_ordinary (by decide)))
  have hsub (rest : List Char) := lexes_script (l := l) (x := 'c') (by decide) .sub rest
  have hprime (rest : List Char) : l.LexesAs rest {} ['\''] [.prime] (some {}) :=
    l.lexesAs_primes rest {} 1
  have hfirst := ((hprime _).lexes.append_lexesAs (hsub []).lexesAs).lexes
  have hsecond := ((hsub _).append_lexesAs (hprime [])).lexes
  rw [ParseState.toOption_parse_of_lexes (hfrac hfirst),
    ParseState.toOption_parse_of_lexes (hfrac hsecond)]
  have hfraction : Nest.start.after [frac, .atom (.ofChar 'b'), .prime] =
      some [.group [.fraction (.ofChar 'b') (.scripts .empty (some .prime) none) true] [] 0 true] :=
    rfl
  have hsome : Nest.content? ([frac, .atom (.ofChar 'b'), .prime] ++
      Nest.scriptMoves .sub [.atom (.ofChar 'c')]) ≠ none := by
    rw [Nest.content?, Nest.after_append, hfraction, Option.bind_some, Nest.after_script_atom]
    change (Nest.finish 0 [.group _ [] 0 true]).toOption ≠ none
    rw [Nest.finish_root]
    exact Option.some_ne_none _
  exact hsome

theorem knows_rowSeparator : Language.Knows "\\" .rowSeparator :=
  ⟨by simp [Builtin.table, Builtin.tables], by decide⟩

include hl in
/-- The option of a row separator goes on behind the closing brace, to the bracket of the other
script, and is no length. -/
theorem lexes_lines_refused : l.Lexes [] {} (scripted .sup ['\\', '\\', '['] ++ scripted .sub [']'])
    [.script .sup, .openGroup] none := by
  have hrefuses : l.Refuses {} (['\\', '\\', '[', '}'] ++ scripted .sub [']'] ++ []) := by
    refine ⟨'\\', _, rfl, by decide, fun pos position => ?_⟩
    exact ⟨_, _, Language.run_readCommand_error hl knows_rowSeparator rfl rfl pos⟩
  exact .cons_char (by decide) (fun _ => rfl)
    (.cons_char (by decide) (fun _ => rfl) (.refused hrefuses))

include hl in
/-- Without a bracket behind it, the row separator has no option. -/
theorem lexes_lines : l.Lexes [] {} (scripted .sup ['\\', '\\', '['])
    (Nest.scriptMoves .sup [.command (.ofBuiltin "\\" .rowSeparator) (.rowSeparator none),
      .atom (.ofChar '[')]) (some {}) := by
  have hseparator : l.Reads {} ['\\', '\\'] ['[', '}']
      (.command (.ofBuiltin "\\" .rowSeparator) (.rowSeparator none)) := by
    refine ⟨'\\', _, rfl, by decide, fun pos position =>
      ⟨Cursor.advance { rest := ['\\', '[', '}'], position } 1, ?_, Cursor.isBefore_of_rest rfl⟩⟩
    exact Language.run_readCommand hl knows_rowSeparator rfl rfl pos
  have hclose : l.Lexes [] {} ['}'] [.closeGroup] (some {}) :=
    .of_reads (Language.reads_char (by decide) (fun _ => rfl) _)
  have hrow : l.Lexes [] {} ['\\', '\\', '[', '}']
      [.command (.ofBuiltin "\\" .rowSeparator) (.rowSeparator none), .atom (.ofChar '['),
        .closeGroup] (some {}) :=
    .token hseparator.readsTo (hclose.cons_ordinary (by decide))
  exact (hrow.cons_char (by decide) fun _ => rfl).cons_char (by decide) fun _ => rfl

include hl in
/-- An option may go on behind the closing brace of the group in which it starts. -/
theorem parse_lines_ne :
    (ParseState.parse l {}
        ('b' :: (scripted .sup ['\\', '\\', '['] ++ scripted .sub [']']))).toOption ≠
      (ParseState.parse l {}
        ('b' :: (scripted .sub [']'] ++ scripted .sup ['\\', '\\', '[']))).toOption := by
  have hbracket := lexes_script (l := l) (x := ']') (by decide) .sub
    (scripted .sup ['\\', '\\', '['] ++ [])
  have hsecond := (hbracket.append_lexesAs (lexes_lines hl).lexesAs).lexes.cons_ordinary
    (x := 'b') (by decide)
  have hfirst := toOption_parse_of_refused
    ((lexes_lines_refused hl).cons_ordinary (x := 'b') (by decide))
  rw [List.append_nil] at hfirst
  rw [hfirst, ParseState.toOption_parse_of_lexes hsecond]
  have hsome (c : Command) : Nest.content? ([.atom (.ofChar 'b')] ++
      (Nest.scriptMoves .sub [.atom (.ofChar ']')] ++
        Nest.scriptMoves .sup [.command c (.rowSeparator none), .atom (.ofChar '[')])) ≠ none := by
    rw [Nest.content?_scripts rfl, Nest.content?_rowSeparator]
    exact Option.some_ne_none _
  exact (hsome _).symm

include hl in
/-- The argument of a text command is set as it is written. -/
theorem toOption_parse_text {w : List Char} (hw : Cursor.IsBalanced w) :
    (ParseState.parse l {} ('\\' :: ("text".toList ++ Canonical.braced w))).toOption =
      some (.row [.text (String.ofList (plainText w)) Builtin.romanChange]) := by
  have hword : Language.KnowsWord "text" (.text Builtin.romanChange) :=
    ⟨⟨by simp [Builtin.table, Builtin.fonts], by decide⟩, by decide, by decide⟩
  have hblank : (Canonical.braced w ++ []).dropWhile Text.isBlank = Canonical.braced w ++ [] :=
    List.dropWhile_cons_of_neg (by decide)
  have hstart : l.Starts {} (.text Builtin.romanChange)
      ((Canonical.braced w ++ []).dropWhile Text.isBlank) []
      (.done (some (.text (String.ofList (plainText w)) Builtin.romanChange))) := fun position => by
    obtain ⟨d, hd, hrest⟩ := Reading.takes_group (s := {}) hw
      { rest := Canonical.braced w ++ [], position } rfl
    refine ⟨d, ?_, Cursor.isBefore_of_rest hrest⟩
    rw [hblank, Builtin.start, Reading.run_bind, hd]
    rfl
  have hreads := Language.reads_command hl hword (Canonical.braced w) []
    (by rintro _ ⟨⟩; decide) hstart
  rw [ParseState.toOption_parse_of_lexes (.of_reads hreads)]
  exact Nest.content?_atom _

end Limits

/-- The order of scripts matters where a command in front of the base takes it, where an option goes
on behind the closing brace of a script, and in text. -/
theorem not_parse_script_order :
    let parse (cs : List Char) := (Registry.builtin.parse {} (String.ofList cs)).toOption
    let braced := Canonical.braced
    parse ('\\' :: "frac".toList ++ (' ' :: 'b' :: (['\''] ++ scripted .sub ['c']))) ≠
        parse ('\\' :: "frac".toList ++ (' ' :: 'b' :: (scripted .sub ['c'] ++ ['\'']))) ∧
      parse ('b' :: (scripted .sup ['\\', '\\', '['] ++ scripted .sub [']'])) ≠
        parse ('b' :: (scripted .sub [']'] ++ scripted .sup ['\\', '\\', '['])) ∧
      parse ('\\' :: ("text".toList ++
          braced ('b' :: (scripted .sup ['c'] ++ scripted .sub ['d'])))) ≠
        parse ('\\' :: ("text".toList ++
          braced ('b' :: (scripted .sub ['d'] ++ scripted .sup ['c'])))) := by
  intro parse braced
  have hparse (cs : List Char) : parse cs =
      (ParseState.parse Registry.builtin.language {} cs).toOption :=
    Registry.toOption_parse .builtin [] cs
  simp only [hparse]
  refine ⟨parse_frac_ne rfl, parse_lines_ne rfl, ?_⟩
  have hsup : plainText ('b' :: (scripted .sup ['c'] ++ scripted .sub ['d'])) =
      ['b', '^', 'c', '_', 'd'] := by decide
  have hsub : plainText ('b' :: (scripted .sub ['d'] ++ scripted .sup ['c'])) =
      ['b', '_', 'd', '^', 'c'] := by decide
  have htext {w : List Char} (hw : Cursor.IsBalanced w) :=
    toOption_parse_text (l := Registry.builtin.language) rfl hw
  refine (htext (by decide)).trans_ne (Ne.trans_eq ?_ (htext (by decide)).symm)
  rw [hsup, hsub]
  simp

end Typeset
