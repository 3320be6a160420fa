/-!
# Text

Small readings on lists of characters that several notations share.

* `isBlank`: the characters with the property White_Space; `trim` drops them at both ends.
* `split`: the pieces between the occurrences of a separator.
* `readNat?`: a count, written in decimal digits, that fits in 64 bits.
-/

namespace Typeset.Text

/-- The characters that Unicode lists as white space. -/
def isBlank (c : Char) : Bool :=
  let n := c.toNat
  (0x09 ≤ n && n ≤ 0x0D) || n == 0x20 || n == 0x85 || n == 0xA0 || n == 0x1680 ||
    (0x2000 ≤ n && n ≤ 0x200A) || n == 0x2028 || n == 0x2029 || n == 0x202F || n == 0x205F ||
    n == 0x3000

/-- The text from the first character that fails `p`. -/
def trimStart (p : Char → Bool) (cs : List Char) : List Char := cs.dropWhile p

/-- The text up to the last character that fails `p`. -/
def trimEnd (p : Char → Bool) (cs : List Char) : List Char := (cs.reverse.dropWhile p).reverse

/-- The text without the blanks at its ends. -/
def trim (cs : List Char) : List Char := trimEnd isBlank (trimStart isBlank cs)

/-- A text without blanks has none at its ends. -/
theorem trim_of_forall {cs : List Char} (h : ∀ c ∈ cs, isBlank c = false) : trim cs = cs := by
  have hdrop {ds : List Char} (hd : ∀ c ∈ ds, isBlank c = false) : ds.dropWhile isBlank = ds := by
    cases ds with
    | nil => rfl
    | cons d ds => exact List.dropWhile_cons_of_neg (by simp [hd d])
  rw [trim, trimEnd, trimStart, hdrop h, hdrop (by simpa using h), List.reverse_reverse]

/-- The pieces of a text between the occurrences of `sep`; there is always at least one. -/
def split (sep : Char) : List Char → List (List Char)
  | [] => [[]]
  | c :: cs =>
    match split sep cs with
    | [] => [[c]]
    | piece :: pieces => if c = sep then [] :: piece :: pieces else (c :: piece) :: pieces

/-- A text without the separator is one piece. -/
theorem split_of_forall {sep : Char} {cs : List Char} (h : ∀ c ∈ cs, c ≠ sep) :
    split sep cs = [cs] := by
  induction cs with
  | nil => rfl
  | cons c cs ih =>
    rw [List.forall_mem_cons] at h
    simp only [split, ih h.2, if_neg h.1]

/-- The text before the first `sep` and the text after it. -/
def splitOnce (sep : Char) : List Char → Option (List Char × List Char)
  | [] => none
  | c :: cs => if c = sep then some ([], cs) else (splitOnce sep cs).map fun (a, b) => (c :: a, b)

/-- The number that decimal digits denote. -/
def digitsValue (ds : List Char) : Nat := ds.foldl (fun n d => 10 * n + (d.toNat - '0'.toNat)) 0

/-- A count: decimal digits, after an optional plus sign, of a number below `2 ^ 64`. -/
def readNat? (cs : List Char) : Option Nat :=
  let digits := match cs with
    | '+' :: rest => rest
    | _ => cs
  if digits ≠ [] ∧ digits.all Char.isDigit ∧ digitsValue digits < Nat.pow 2 64 then
    some (digitsValue digits)
  else
    none

/-- Lower case of an ASCII capital. -/
def lower (cs : List Char) : List Char := cs.map Char.toLower

end Typeset.Text
