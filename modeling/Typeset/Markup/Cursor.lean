import Typeset.Text

/-!
# Cursors

A place in the markup and the readings that move it. Positions are byte offsets.

* `Cursor.advance`: every reading moves the cursor over a number of characters.
* `Cursor.Follows`: one cursor is reached from another by reading; all readings have a lemma
  `_follows`.
* `balancedLength?`: where the group that a delimiter opens is closed.
-/

namespace Typeset

/-- The number of bytes of a text. -/
def byteLength : List Char → Nat
  | [] => 0
  | c :: cs => c.utf8Size + byteLength cs

theorem byteLength_append (cs ds : List Char) :
    byteLength (cs ++ ds) = byteLength cs + byteLength ds := by
  induction cs with
  | nil => simp [byteLength]
  | cons c cs ih => simp [byteLength, ih, Nat.add_assoc]

/-- A place in the markup: what is left to read, and the offset of its first byte. -/
structure Cursor where
  rest : List Char
  position : Nat := 0
  deriving DecidableEq, Repr

namespace Cursor

/-- The start of a text. -/
def start (cs : List Char) : Cursor := { rest := cs }

/-- The place `n` characters on. -/
def advance (c : Cursor) (n : Nat) : Cursor :=
  { rest := c.rest.drop n, position := c.position + byteLength (c.rest.take n) }

/-- The cursor is reached from `earlier` by reading. -/
def Follows (later earlier : Cursor) : Prop :=
  ∃ read, earlier.rest = read ++ later.rest ∧ later.position = earlier.position + byteLength read

theorem Follows.refl (c : Cursor) : c.Follows c := ⟨[], rfl, rfl⟩

theorem Follows.trans {a b c : Cursor} (hab : a.Follows b) (hbc : b.Follows c) : a.Follows c := by
  obtain ⟨r, hr, hp⟩ := hab
  obtain ⟨r', hr', hp'⟩ := hbc
  exact ⟨r' ++ r, by rw [hr', hr, List.append_assoc], by
    rw [hp, hp', byteLength_append, Nat.add_assoc]⟩

theorem Follows.length_le {a b : Cursor} (h : a.Follows b) : a.rest.length ≤ b.rest.length := by
  obtain ⟨r, hr, _⟩ := h
  rw [hr, List.length_append]
  omega

theorem advance_follows (c : Cursor) (n : Nat) : (c.advance n).Follows c :=
  ⟨c.rest.take n, (List.take_append_drop n c.rest).symm, rfl⟩

/-! ## Characters -/

/-- Nothing is left to read. -/
def isAtEnd (c : Cursor) : Bool := c.rest.isEmpty

/-- The next character. -/
def peek (c : Cursor) : Option Char := c.rest.head?

/-- The next character, which is read. -/
def next (c : Cursor) : Option Char × Cursor := (c.peek, c.advance 1)

theorem next_follows (c : Cursor) : c.next.2.Follows c := c.advance_follows 1

/-- Reads the next character if it is the given one. -/
def eat (x : Char) (c : Cursor) : Bool × Cursor :=
  if c.peek = some x then (true, c.advance 1) else (false, c)

theorem eat_follows (x : Char) (c : Cursor) : (c.eat x).2.Follows c := by
  unfold eat
  split
  · exact c.advance_follows 1
  · exact .refl c

/-! ## Blanks and comments -/

/-- The place after the blanks. -/
def skipBlanks (c : Cursor) : Cursor := c.advance (c.rest.takeWhile Text.isBlank).length

theorem skipBlanks_follows (c : Cursor) : c.skipBlanks.Follows c := c.advance_follows _

/-- The number of characters to the end of the line, the line break included. -/
def lineLength : List Char → Nat
  | [] => 0
  | '\n' :: _ => 1
  | _ :: cs => 1 + lineLength cs

/-- The place after the line. -/
def skipLine (c : Cursor) : Cursor := c.advance (lineLength c.rest)

theorem skipLine_follows (c : Cursor) : c.skipLine.Follows c := c.advance_follows _

mutual

/-- The number of characters in the blanks and comments that start the text. -/
def ignorableLength : List Char → Nat
  | [] => 0
  | c :: cs =>
    if Text.isBlank c then 1 + ignorableLength cs
    else if c = '%' then 1 + commentLength cs
    else 0

/-- The number of characters in the rest of a comment and the blanks and comments after it. -/
def commentLength : List Char → Nat
  | [] => 0
  | c :: cs => if c = '\n' then 1 + ignorableLength cs else 1 + commentLength cs

end

/-- The place after blanks and comments. -/
def skipIgnorable (c : Cursor) : Cursor := c.advance (ignorableLength c.rest)

theorem skipIgnorable_follows (c : Cursor) : c.skipIgnorable.Follows c := c.advance_follows _

/-! ## Names, groups and arguments -/

/-- The name of a command whose backslash has been read: letters, and the blanks after them are
passed over, or any other single character. -/
def readName? (c : Cursor) : Option (List Char) × Cursor :=
  match c.rest with
  | [] => (none, c)
  | x :: _ =>
    if x.isAlpha then
      let name := c.rest.takeWhile Char.isAlpha
      (some name, (c.advance name.length).skipBlanks)
    else
      (some [x], c.advance 1)

theorem readName?_follows (c : Cursor) : c.readName?.2.Follows c := by
  unfold readName?
  split
  · exact .refl c
  · split
    · exact (skipBlanks_follows _).trans (c.advance_follows _)
    · exact c.advance_follows 1

/-- The number of characters before the delimiter that closes a group, `depth` groups inside it. A
backslash takes the character after it along. Equal delimiters do not nest. -/
def balancedLength? (opening closing : Char) : Nat → List Char → Option Nat
  | _, [] => none
  | depth, c :: cs =>
    if c = '\\' then
      match cs with
      | [] => none
      | _ :: rest => (balancedLength? opening closing depth rest).map (· + 2)
    else if c = opening ∧ opening ≠ closing then
      (balancedLength? opening closing (depth + 1) cs).map (· + 1)
    else if c = closing then
      match depth with
      | 0 => some 0
      | depth + 1 => (balancedLength? opening closing depth cs).map (· + 1)
    else
      (balancedLength? opening closing depth cs).map (· + 1)

/-- The content of the group that starts here. Without one, or if it is not closed, nothing is
read. -/
def readBalanced? (opening closing : Char) (c : Cursor) : Option (List Char) × Cursor :=
  match c.rest with
  | [] => (none, c)
  | x :: cs =>
    if x = opening then
      match balancedLength? opening closing 0 cs with
      | none => (none, c)
      | some n => (some (cs.take n), c.advance (n + 2))
    else
      (none, c)

theorem readBalanced?_follows (opening closing : Char) (c : Cursor) :
    (c.readBalanced? opening closing).2.Follows c := by
  unfold readBalanced?
  split
  · exact .refl c
  · split
    · split
      · exact .refl c
      · exact c.advance_follows _
    · exact .refl c

/-- The content of brackets after blanks and comments. Without them nothing is read. -/
def readOptional? (c : Cursor) : Option (List Char) × Cursor :=
  match c.skipIgnorable.readBalanced? '[' ']' with
  | (some body, d) => (some body, d)
  | (none, _) => (none, c)

theorem readOptional?_follows (c : Cursor) : c.readOptional?.2.Follows c := by
  unfold readOptional?
  split
  · rename_i body d h
    have := readBalanced?_follows '[' ']' c.skipIgnorable
    rw [h] at this
    exact this.trans (skipIgnorable_follows c)
  · exact .refl c

/-- An argument after blanks and comments: the content of braces, a command with its backslash, or
one character. -/
def readArgument? (c : Cursor) : Option (List Char) × Cursor :=
  let d := c.skipIgnorable
  match d.peek with
  | none => (none, d)
  | some '{' => d.readBalanced? '{' '}'
  | some '\\' =>
    let (name, e) := (d.advance 1).readName?
    (name.map ('\\' :: ·), e)
  | some x => (some [x], d.advance 1)

theorem readArgument?_follows (c : Cursor) : c.readArgument?.2.Follows c := by
  have hd := skipIgnorable_follows c
  unfold readArgument?
  simp only
  split
  · exact hd
  · exact (readBalanced?_follows _ _ _).trans hd
  · exact (readName?_follows _).trans ((advance_follows _ _).trans hd)
  · exact (advance_follows _ _).trans hd

/-- Everything before the next `stop`. -/
def readUntil (stop : Char) (c : Cursor) : List Char × Cursor :=
  let body := c.rest.takeWhile (· ≠ stop)
  (body, c.advance body.length)

theorem readUntil_follows (stop : Char) (c : Cursor) : (c.readUntil stop).2.Follows c :=
  c.advance_follows _

end Cursor

end Typeset
