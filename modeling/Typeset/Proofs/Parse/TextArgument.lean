import Typeset.Proofs.Parse.Calls

/-!
# Text arguments

A command for running text sets its argument as it stands. Two scans read it: one looks for the end
of the group, the other takes the text out of it, and they have to agree on what is escaped.

* `spellings`, `IsSpelling`: the ways to write a text as such an argument.
* `IsSpelling.isBalanced`: the first scan ends behind the text.
* `IsSpelling.plainText_eq`: the second scan gives the text back.
* `parse_text_command`: a text command with a text in braces is one atom with that text.
-/

namespace Typeset

open Canonical (braced)

/-- The characters that a backslash in running text stands in front of without a meaning of its
own. -/
def escapable : List Char := ['{', '}', '%', '&', '#', '$', '_']

/-- The ways to write a character of running text. Braces are escaped; the other escapable
characters may be. -/
def spellings (c : Char) : List (List Char) :=
  if c = '{' ∨ c = '}' then [['\\', c]]
  else if c ∈ escapable then [[c], ['\\', c]]
  else [[c]]

/-- A way to write a text: its characters one after the other, each in one of its spellings. -/
inductive IsSpelling : List Char → List Char → Prop where
  | nil : IsSpelling [] []
  | cons {c : Char} {s t w : List Char} :
      s ∈ spellings c → IsSpelling t w → IsSpelling (c :: t) (s ++ w)

/-- A character stands for itself or is escaped. -/
theorem spellings_cases {c : Char} {s : List Char} (h : s ∈ spellings c) :
    s = [c] ∧ c ≠ '{' ∧ c ≠ '}' ∨ s = ['\\', c] ∧ c ∈ escapable := by
  unfold spellings at h
  split at h
  · rename_i hc
    obtain rfl := List.mem_singleton.mp h
    exact .inr ⟨rfl, by rcases hc with rfl | rfl <;> decide⟩
  · rename_i hc
    obtain ⟨ho, hcl⟩ := not_or.mp hc
    split at h
    · rcases List.mem_pair.mp h with rfl | rfl
      · exact .inl ⟨rfl, ho, hcl⟩
      · exact .inr ⟨rfl, ‹_›⟩
    · obtain rfl := List.mem_singleton.mp h
      exact .inl ⟨rfl, ho, hcl⟩

/-! ## The two scans -/

theorem plainText_escaped {c : Char} (h : c ∈ escapable) (cs : List Char) :
    plainText ('\\' :: c :: cs) = c :: plainText cs := by
  rw [plainText]
  exact if_pos h

theorem plainText_plain {c : Char} (hb : c ≠ '\\') (ho : c ≠ '{') (hc : c ≠ '}') (ht : c ≠ '~')
    (cs : List Char) : plainText (c :: cs) = c :: plainText cs := by
  rw [plainText]
  · rw [if_neg (not_or.mpr ⟨ho, hc⟩), if_neg ht]
  · exact fun h _ => hb h
  · exact fun _ _ h => absurd h hb

namespace IsSpelling

variable {t w : List Char}

/-- Braces in a text are escaped, so that the group ends behind it. -/
theorem isBalanced (h : IsSpelling t w) (hb : '\\' ∉ t) : Cursor.IsBalanced w := by
  rw [Cursor.isBalanced_iff]
  induction h with
  | nil => rfl
  | @cons c s t w hs _ ih =>
    obtain ⟨hc, ht⟩ := List.ne_and_not_mem_of_not_mem_cons hb
    rcases spellings_cases hs with ⟨rfl, ho, hcl⟩ | ⟨rfl, -⟩
    · rw [List.singleton_append, List.cons_append, balancedLength?_cons hc.symm,
        if_neg (fun h => ho h.1), if_neg hcl, ih ht]
      rfl
    · rw [List.cons_append, List.singleton_append, List.cons_append, List.cons_append,
        balancedLength?_backslash, ih ht]
      rfl

/-- What is taken out of an argument is the text that it spells. -/
theorem plainText_eq (h : IsSpelling t w) (hb : '\\' ∉ t) (htilde : '~' ∉ t) : plainText w = t := by
  induction h with
  | nil => rfl
  | @cons c s t w hs _ ih =>
    obtain ⟨hc, hb⟩ := List.ne_and_not_mem_of_not_mem_cons hb
    obtain ⟨ht, htilde⟩ := List.ne_and_not_mem_of_not_mem_cons htilde
    rcases spellings_cases hs with ⟨rfl, ho, hcl⟩ | ⟨rfl, he⟩
    · rw [List.singleton_append, plainText_plain hc.symm ho hcl ht.symm, ih hb htilde]
    · rw [List.cons_append, List.singleton_append, plainText_escaped he, ih hb htilde]

end IsSpelling

/-! ## Text commands -/

/-- The token of a text command with its argument delivers the text. -/
theorem ParseState.exists_step_text {l : Language} {s : ParseState} {c : Command}
    {font : FontChange} {name w rest : List Char} (hname : IsWord name) (hw : Cursor.IsBalanced w)
    (hstate : c.state = .fresh (.text font))
    (hc : ∀ pos, l.resolve s.reader.scope (String.ofList name) pos = .ok c)
    (hs : s.reader.cursor.IsBefore ('\\' :: (name ++ (braced w ++ rest)))) :
    ∃ (here : Nat) (d : Cursor), d.rest = rest ∧ s.step l = some (do
      return { reader := { cursor := d, scope := s.reader.scope },
               nest := ← s.nest.deliver here (.text (String.ofList (plainText w)) font) }) := by
  obtain ⟨pos, e, he, hstep⟩ := exists_step_command hs hname (by rintro x ⟨⟩; decide) hc
  obtain ⟨d, hd, hrest⟩ := Reading.takes_group (s := s.reader.scope) hw e he
  refine ⟨d.position, d, hrest, ?_⟩
  simp only [hstep, Command.start, Reading.inCommand, hstate, CommandState.start, Builtin.start,
    Reading.run_bind, hd]
  rfl

/-- **Text comes through unchanged.** Where a name stands for a text command, the command with a
text in braces is one atom that holds exactly the text, in whatever way the text is spelled and
whatever blanks, line breaks and comment signs are in it. -/
theorem parse_text_command (registry : Registry) (o : ParseOptions) {package : Option String}
    {font : FontChange} {name : List Char} (hname : IsWord name)
    (hlookup : registry.lookup? (String.ofList name) o.packages =
      some (package, .builtin (.text font)))
    {t : String} (hbackslash : '\\' ∉ t.toList) (htilde : '~' ∉ t.toList)
    {w : List Char} (hw : IsSpelling t.toList w) :
    registry.parse o (String.ofList ('\\' :: (name ++ braced w))) = .ok (.row [.text t font]) := by
  let s := ParseState.start ('\\' :: (name ++ braced w)) { packages := o.packages }
  have hresolve (pos : Nat) : registry.language.resolve s.reader.scope (String.ofList name) pos =
      .ok { package, name := "\\" ++ String.ofList name, state := .fresh (.text font) } := by
    have hfind : s.reader.scope.definitions.find? (String.ofList name) = none := rfl
    rw [Language.resolve, hfind, Registry.language, Language.registry_nested]
    simp only [Registry.resolve, show s.reader.scope.packages = o.packages from rfl, hlookup]
    rfl
  have hstart : s.reader.cursor.IsBefore ('\\' :: (name ++ (braced w ++ []))) := by
    rw [List.append_nil]
    exact Cursor.isBefore_of_rest rfl
  obtain ⟨here, d, hd, hstep⟩ :=
    ParseState.exists_step_text hname (hw.isBalanced hbackslash) rfl hresolve hstart
  rw [hw.plainText_eq hbackslash htilde, String.ofList_toList] at hstep
  have hparse : ParseState.parse registry.language { packages := o.packages }
      ('\\' :: (name ++ braced w)) = .ok (.row [.text t font]) := by
    rw [ParseState.parse_eq_outcome, ParseState.outcome_of_step hstep,
      ParseState.outcome_of_isBefore_nil (Cursor.isBefore_of_rest hd)]
    exact Canonical.finish_of_closesTo (fun _ => rfl) _
  rw [Registry.parse, String.toList_ofList, hparse]

/-- A comment sign, a line break and a closing brace, of which the brace is escaped. -/
theorem parse_text_command_closing_brace :
    let w := ['5', '%', '\n', '\\', '}']
    IsSpelling "5%\n\x7d".toList w ∧
      Registry.builtin.parse { packages := ["braket"] }
          (String.ofList ('\\' :: ("textbf".toList ++ braced w))) =
        .ok (.row [.text "5%\n\x7d" Builtin.boldChange]) := by
  have ht : "5%\n\x7d".toList = ['5', '%', '\n', '}'] := by decide
  have hw : IsSpelling "5%\n\x7d".toList ['5', '%', '\n', '\\', '}'] := by
    rw [ht]
    exact .cons (s := ['5']) (by decide) <| .cons (s := ['%']) (by decide) <|
      .cons (s := ['\n']) (by decide) <| .cons (s := ['\\', '}']) (by decide) .nil
  have hlookup : Registry.builtin.lookup? (String.ofList "textbf".toList) ["braket"] =
      some (none, .builtin (.text Builtin.boldChange)) := by
    rw [String.ofList_toList]
    exact Registry.lookup?_builtin (by simp [Builtin.table, Builtin.fonts]) (by decide) _
  exact ⟨hw, parse_text_command .builtin { packages := ["braket"] }
    ⟨by decide, List.all_eq_true.mp (by decide)⟩ hlookup (by decide) (by decide) hw⟩

end Typeset
