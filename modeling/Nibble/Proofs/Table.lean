import Nibble.Table

set_option autoImplicit false

/-! Tables that grow. What a name is set to replaces nothing but the value of that name, so setting
new names keeps every entry. -/

namespace Nibble

namespace Table

variable {α : Type}

theorem find?_of_absent {table : Table α} {name : Text} (absent : table.has name = false) :
    table.find? name = none := by
  unfold has at absent
  cases found : table.find? name with
  | none => rfl
  | some value =>
      rw [found] at absent
      cases absent

theorem has_set_of_ne {table : Table α} {name other : Text} (different : other ≠ name) (value : α) :
    (table.set name value).has other = table.has other := by
  unfold has
  rw [find?_set_of_ne _ _ _ _ different]

theorem mem_set {name : Text} {value : α} {table : Table α} {entry : Text × α}
    (member : entry ∈ table.set name value) : entry = (name, value) ∨ entry ∈ table := by
  induction table with
  | nil => exact .inl (List.mem_singleton.mp member)
  | cons pair rest ih =>
      obtain ⟨key, old⟩ := pair
      by_cases same : key = name
      · rw [set, if_pos same] at member
        rcases List.mem_cons.mp member with first | later
        · exact .inl (by rw [first, same])
        · exact .inr (List.mem_cons_of_mem _ later)
      · rw [set, if_neg same] at member
        rcases List.mem_cons.mp member with first | later
        · exact .inr (by rw [first]; exact List.mem_cons_self)
        · exact (ih later).imp_right (List.mem_cons_of_mem _)

theorem mem_of_find? {table : Table α} {name : Text} {value : α}
    (found : table.find? name = some value) : (name, value) ∈ table := by
  induction table with
  | nil => cases found
  | cons pair rest ih =>
      obtain ⟨key, old⟩ := pair
      rw [find?] at found
      by_cases same : key = name
      · rw [if_pos same] at found
        cases found
        rw [same]
        exact List.mem_cons_self
      · rw [if_neg same] at found
        exact List.mem_cons_of_mem _ (ih found)

/-! ### Names -/

/-- The names in a table, in the order in which they were first set. -/
def names (table : Table α) : List Text :=
  table.map Prod.fst

theorem mem_names_iff {table : Table α} {name : Text} :
    name ∈ table.names ↔ table.has name = true := by
  unfold names has
  induction table with
  | nil => simp [find?]
  | cons entry rest ih =>
      obtain ⟨key, value⟩ := entry
      by_cases same : key = name
      · simp [find?, same]
      · rw [List.map_cons, List.mem_cons, find?, if_neg same, ← ih]
        exact or_iff_right (Ne.symm same)

theorem find?_setAll {pairs : Table α} (distinct : (pairs.map Prod.fst).Nodup)
    (table : Table α) (name : Text) :
    (table.setAll pairs).find? name = (pairs.find? name).or (table.find? name) := by
  induction pairs generalizing table with
  | nil => rfl
  | cons pair rest ih =>
      obtain ⟨key, value⟩ := pair
      rw [List.map_cons, List.nodup_cons] at distinct
      obtain ⟨fresh, others⟩ := distinct
      show ((table.set key value).setAll rest).find? name = _
      rw [ih others, find?]
      by_cases same : key = name
      · subst same
        have absent : find? key rest = none := by
          apply find?_of_absent
          rw [← Bool.not_eq_true, ← mem_names_iff]
          exact fresh
        rw [absent, find?_set_self, if_pos rfl]
        rfl
      · rw [find?_set_of_ne _ _ _ _ (Ne.symm same), if_neg same]

theorem names_set_absent {table : Table α} {name : Text} (absent : table.has name = false)
    (value : α) : (table.set name value).names = table.names ++ [name] := by
  unfold names
  induction table with
  | nil => rfl
  | cons entry rest ih =>
      obtain ⟨key, old⟩ := entry
      by_cases same : key = name
      · simp [has, find?, same] at absent
      · rw [has, find?, if_neg same] at absent
        rw [set, if_neg same, List.map_cons, ih absent]
        rfl

/-! ### Tables with more entries -/

/-- Every entry of the older table stands in the newer one with its value, some names apart. -/
def Kept (apart : List Text) (older newer : Table α) : Prop :=
  ∀ name, name ∉ apart → ∀ value, older.find? name = some value → newer.find? name = some value

namespace Kept

variable {apart : List Text} {name : Text}

theorem refl (apart : List Text) (table : Table α) : Kept apart table table :=
  fun _ _ _ found => found

theorem trans {older middle newer : Table α} (first : Kept apart older middle)
    (second : Kept apart middle newer) : Kept apart older newer :=
  fun other outside value found => second other outside value (first other outside value found)

theorem set_apart (member : name ∈ apart) (value : α) (table : Table α) :
    Kept apart table (table.set name value) := by
  intro other outside old found
  have different : other ≠ name := by
    rintro rfl
    exact outside member
  rw [find?_set_of_ne _ _ _ _ different]
  exact found

theorem set_absent {table : Table α} (absent : table.has name = false) (value : α) :
    Kept apart table (table.set name value) := by
  intro other _ old found
  have different : other ≠ name := by
    rintro rfl
    rw [find?_of_absent absent] at found
    cases found
  rw [find?_set_of_ne _ _ _ _ different]
  exact found

end Kept

end Table

end Nibble
