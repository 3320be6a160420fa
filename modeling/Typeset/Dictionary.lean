/-!
# Dictionaries

Values under names, in the order in which the names first came.

* `find?_insert`: a name leads to the value that was put under it last.
-/

namespace Typeset

/-- Values under names. -/
structure Dictionary (β : Type) where
  entries : List (String × β) := []

namespace Dictionary

variable {β : Type}

/-- A dictionary without names. -/
def empty : Dictionary β := {}

/-- The value under a name. -/
def find? (d : Dictionary β) (name : String) : Option β := d.entries.lookup name

/-- The name has a value. -/
def contains (d : Dictionary β) (name : String) : Bool := (d.find? name).isSome

/-- The number of names. -/
def size (d : Dictionary β) : Nat := d.entries.length

/-- The names, in the order in which they first came. -/
def names (d : Dictionary β) : List String := d.entries.map Prod.fst

/-- The entries with a value under a name: in the place of the name, or at the end. -/
def put (name : String) (value : β) : List (String × β) → List (String × β)
  | [] => [(name, value)]
  | (n, v) :: rest => if name = n then (n, value) :: rest else (n, v) :: put name value rest

/-- The dictionary with a value under a name. -/
def insert (d : Dictionary β) (name : String) (value : β) : Dictionary β :=
  { entries := put name value d.entries }

theorem lookup_cons (m n : String) (v : β) (es : List (String × β)) :
    ((n, v) :: es).lookup m = if m = n then some v else es.lookup m := by
  rw [List.lookup_cons]
  by_cases h : m = n
  · simp [h]
  · simp [beq_eq_false_iff_ne.mpr h, h]

theorem lookup_put (name : String) (value : β) (m : String) (es : List (String × β)) :
    (put name value es).lookup m = if m = name then some value else es.lookup m := by
  induction es with
  | nil => simp [put, lookup_cons]
  | cons e rest ih =>
    obtain ⟨n, v⟩ := e
    unfold put
    split <;> grind [lookup_cons]

/-- A name leads to the value that was put under it last. -/
@[simp] theorem find?_insert (d : Dictionary β) (name : String) (value : β) (m : String) :
    (d.insert name value).find? m = if m = name then some value else d.find? m :=
  lookup_put name value m d.entries

end Dictionary

end Typeset
