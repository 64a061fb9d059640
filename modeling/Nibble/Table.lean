import Nibble.Text.Basic

set_option autoImplicit false

/-! Tables from names to values. A name stands in a table at most once, at the place where it
was first set; setting it again replaces its value. -/

namespace Nibble

abbrev Table (α : Type) := List (Text × α)

namespace Table

variable {α : Type}

def find? (name : Text) : Table α → Option α
  | [] => none
  | (key, value) :: rest => if key = name then some value else find? name rest

def set (name : Text) (value : α) : Table α → Table α
  | [] => [(name, value)]
  | (key, old) :: rest =>
      if key = name then (key, value) :: rest else (key, old) :: set name value rest

def has (name : Text) (table : Table α) : Bool :=
  (find? name table).isSome

/-- Sets every pair in order, so that the last value of a name stays. -/
def setAll (pairs : List (Text × α)) (table : Table α) : Table α :=
  pairs.foldl (fun current pair => set pair.1 pair.2 current) table

theorem find?_set_self (name : Text) (value : α) (table : Table α) :
    find? name (set name value table) = some value := by
  induction table with
  | nil => simp [set, find?]
  | cons pair rest ih =>
      obtain ⟨key, old⟩ := pair
      by_cases same : key = name
      · simp [set, find?, same]
      · simp [set, find?, same, ih]

theorem find?_set_of_ne (name other : Text) (value : α) (table : Table α)
    (different : other ≠ name) :
    find? other (set name value table) = find? other table := by
  induction table with
  | nil => simp [set, find?, different.symm]
  | cons pair rest ih =>
      obtain ⟨key, old⟩ := pair
      by_cases same : key = name
      · subst same
        simp [set, find?, different.symm]
      · simp only [set, if_neg same, find?, ih]

end Table

end Nibble
