import Typeset.Proofs.Parse.Writing

/-!
# Names of definitions

A definition gets the name of its command from an argument: a command with its backslash, in braces
or without them. The blanks and the closing braces at the end of the argument do not count, so a
command whose whole name is one of these has no name there.

* `isTrimmed`: the names that the end of an argument takes away.
* `readDefinedName?_of_isName`: every other name is the name of a definition.
* `Reading.run_definedName`: what a definition reads where the argument is a command.
* `readDefinedName?_of_readArgument?`: both, for a command as it stands in the markup.
-/

namespace Typeset

open Canonical (braced)

/-- One blank, or one closing brace. -/
def isTrimmed : List Char → Bool
  | [c] => Text.isBlank c || c == '}'
  | _ => false

variable {name token rest : List Char}

namespace IsWord

theorem not_isTrimmed (h : IsWord name) : isTrimmed name = false := by
  unfold isTrimmed
  split
  · rename_i c
    have hc := plain_of_isAlpha (.inl (h.isAlpha c (by simp)))
    rw [hc.1, Bool.false_or, beq_eq_false_iff_ne]
    exact hc.2.2.2
  · rfl

end IsWord

/-- The name of a command in a definition is the name of the command, unless it is trimmed away. -/
theorem readDefinedName?_of_isName (h : IsName name) :
    readDefinedName? ('\\' :: name) =
      if isTrimmed name then none else some (String.ofList name) := by
  cases h with
  | word h => rw [readDefinedName?_command h, h.not_isTrimmed, if_neg (by decide)]
  | @char c h =>
    have hbackslash : Text.isBlank '\\' = false := by decide
    by_cases hblank : Text.isBlank c = true
    · simp [readDefinedName?, Text.trim, Text.trimStart, Text.trimEnd, isTrimmed, hblank,
        hbackslash]
    · rw [Bool.not_eq_true] at hblank
      by_cases hbrace : c = '}'
      · subst hbrace
        decide
      · simp [readDefinedName?, Text.trim, Text.trimStart, Text.trimEnd, isTrimmed, hblank,
          hbackslash, hbrace]

namespace Cursor

variable {c d : Cursor}

/-- The name that is read behind a backslash is one. -/
theorem isName_of_readName? (h : c.readName? = (some name, d)) : IsName name := by
  unfold readName? at h
  split at h
  · cases h
  · rename_i x xs hrest
    split at h
    · rename_i hx
      cases h
      refine .word ⟨?_, fun y hy => List.mem_takeWhile_imp hy⟩
      rw [hrest, List.takeWhile_cons_of_pos hx]
      exact List.cons_ne_nil x _
    · rename_i hx
      cases h
      exact .char (by simpa using hx)

/-- At a backslash the argument is a command. -/
theorem readArgument?_of_backslash (hc : c.peek = some '\\') :
    c.readArgument? = ((c.advance 1).readName?.1.map ('\\' :: ·), (c.advance 1).readName?.2) := by
  obtain ⟨xs, hxs⟩ := List.head?_eq_some_iff.mp hc
  have hskip : c.skipIgnorable = c := skipIgnorable_eq_self hxs (by decide) (by decide)
  simp only [readArgument?, hskip, hc]

/-- Braces around a command delimit it, also one whose name is a brace. -/
theorem isBalanced_of_isName (h : IsName name) : IsBalanced ('\\' :: name) := by
  cases h with
  | word h => exact isBalanced_command h
  | @char c h =>
    rw [isBalanced_iff, List.cons_append, List.singleton_append, balancedLength?_backslash]
    rfl

end Cursor

namespace Reading

/-- The name that a definition reads: that of the command, or an error behind the command if its
name is trimmed away. -/
def nameAnswer (behind : Cursor) (name : List Char) : Except ParseError String :=
  if isTrimmed name then
    .error (.fault behind.position (.invalidName (String.ofList ('\\' :: name))))
  else
    .ok (String.ofList name)

/-- Where the argument is a command, a definition reads its name. -/
theorem run_definedName {c d : Cursor} (s : Scope) (h : IsName name)
    (hrun : argument.run ⟨c, s⟩ = (.ok ('\\' :: name), ⟨d, s⟩)) :
    definedName.run ⟨c, s⟩ = (nameAnswer d name, ⟨d, s⟩) := by
  rw [definedName, run_bind, hrun, nameAnswer]
  simp only [readDefinedName?_of_isName h]
  split <;> rfl

theorem run_argument_of_backslash {c d : Cursor} (s : Scope) (hc : c.peek = some '\\')
    (h : c.readArgument? = (some token, d)) : argument.run ⟨c, s⟩ = (.ok token, ⟨d, s⟩) := by
  obtain ⟨xs, hxs⟩ := List.head?_eq_some_iff.mp hc
  have hskip : c.skipIgnorable = c := Cursor.skipIgnorable_eq_self hxs (by decide) (by decide)
  simp only [argument, run_bind, skipIgnorable, move, ofCursor, hskip, position, reader, peek,
    run_pure, hc, if_neg (show ¬some '\\' = some '}' by decide), h]
  rfl

end Reading

/-- **A definition can name every command but those whose name is a blank or a closing brace.** At a
backslash in the markup, let the next argument be a command. Its name is the one that a call of it
has, and this is the name that a definition reads from the argument and from the argument in braces,
unless the name is one blank or one closing brace: then the argument has no name, and the definition
fails behind it. -/
theorem readDefinedName?_of_readArgument? {c d : Cursor} (hc : c.peek = some '\\')
    (h : c.readArgument? = (some token, d)) :
    ∃ name, (c.advance 1).readName? = (some name, d) ∧ token = '\\' :: name ∧
      readDefinedName? token = (if isTrimmed name then none else some (String.ofList name)) ∧
      ∀ s : Scope,
        Reading.definedName.run ⟨c, s⟩ = (Reading.nameAnswer d name, ⟨d, s⟩) ∧
        ∀ (e : Cursor) (rest : List Char), e.rest = braced token ++ rest →
          ∃ f : Cursor, f.rest = rest ∧
            Reading.definedName.run ⟨e, s⟩ = (Reading.nameAnswer f name, ⟨f, s⟩) := by
  rw [Cursor.readArgument?_of_backslash hc, Prod.mk.injEq] at h
  obtain ⟨hname, hd⟩ := h
  obtain ⟨name, hsome, rfl⟩ := Option.map_eq_some_iff.mp hname
  have hread : (c.advance 1).readName? = (some name, d) := Prod.ext hsome hd
  have hn : IsName name := Cursor.isName_of_readName? hread
  refine ⟨name, hread, rfl, readDefinedName?_of_isName hn, fun s => ⟨?_, fun e rest he => ?_⟩⟩
  · refine Reading.run_definedName s hn (Reading.run_argument_of_backslash s hc ?_)
    rw [Cursor.readArgument?_of_backslash hc, hread]
    rfl
  · obtain ⟨f, hf, hrest⟩ := Reading.takes_argument (Cursor.isBalanced_of_isName hn) e he
    exact ⟨f, hrest, Reading.run_definedName s hn hf⟩

/-- A definition can name the command of an opening brace. -/
theorem readDefinedName?_of_readArgument?_brace :
    let c := Cursor.start ("\\\x7b\x7bx\x7d".toList)
    c.peek = some '\\' ∧ c.readArgument? = (some ['\\', '{'], c.advance 2) ∧
      ∃ name, (c.advance 1).readName? = (some name, c.advance 2) ∧ ['\\', '{'] = '\\' :: name ∧
        readDefinedName? ['\\', '{'] =
          (if isTrimmed name then none else some (String.ofList name)) ∧
        ∀ s : Scope,
          Reading.definedName.run ⟨c, s⟩ =
            (Reading.nameAnswer (c.advance 2) name, ⟨c.advance 2, s⟩) ∧
          ∀ (e : Cursor) (rest : List Char), e.rest = braced ['\\', '{'] ++ rest →
            ∃ f : Cursor, f.rest = rest ∧
              Reading.definedName.run ⟨e, s⟩ = (Reading.nameAnswer f name, ⟨f, s⟩) := by
  intro c
  have hc : c.peek = some '\\' := by decide
  have h : c.readArgument? = (some ['\\', '{'], c.advance 2) := by decide
  exact ⟨hc, h, readDefinedName?_of_readArgument? hc h⟩

/-- The command of a closing brace is an argument and can be called, but a definition finds no name
in it. -/
theorem readDefinedName?_closingBrace :
    let c := Cursor.start ['\\', '}']
    c.readArgument? = (some ['\\', '}'], c.advance 2) ∧
      (c.advance 1).readName? = (some ['}'], c.advance 2) ∧
      readDefinedName? ['\\', '}'] ≠ some (String.ofList ['}']) := by
  decide

end Typeset
