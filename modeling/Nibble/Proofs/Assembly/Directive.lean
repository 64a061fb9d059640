import Nibble.Assembly.Directive
import Nibble.Memory

set_option autoImplicit false

/-! What a line can ask for: a directive that is read moves the location to a place inside memory,
or has at least one word; and the only word that waits for a label is that of a call. -/

namespace Nibble.Directive

def WellFormed : Directive → Prop
  | .origin address => address < Memory.size
  | .codes words link =>
      words ≠ [] ∧ ∀ target, link = some target → target ≠ [] ∧ words = [Word.call 0]

theorem wellFormed_single (word : Word) : WellFormed (.codes [word] none) :=
  ⟨List.cons_ne_nil _ _, fun _ waiting => nomatch waiting⟩

theorem steps_of_bind {α β : Type} {first : Except Failure α} {second : α → Except Failure β}
    {result : β} (succeeded : first.bind second = .ok result) :
    ∃ value, first = .ok value ∧ second value = .ok result := by
  cases first with
  | error failure => cases succeeded
  | ok value => exact ⟨value, rfl, succeeded⟩

theorem immediate_le {limit value : Nat} {word : Text} (read : immediate limit word = .ok value) :
    value ≤ limit := by
  unfold immediate at read
  split at read
  · cases read
  · split at read
    · cases read
    · cases read
      omega

theorem isLabel_ne_nil {target : Text} (label : isLabel target = true) : target ≠ [] := by
  rintro rfl
  cases label

theorem wellFormed_origin {operands : List Text} {directive : Directive}
    (read : origin? operands = .ok directive) : directive.WellFormed := by
  unfold origin? at read
  split at read
  · obtain ⟨address, known, result⟩ := steps_of_bind read
    cases result
    exact Nat.lt_succ_of_le (immediate_le known)
  · cases read

theorem wellFormed_data {operands : List Text} {directive : Directive}
    (read : data operands = .ok directive) : directive.WellFormed := by
  unfold data at read
  split at read
  · cases read
  · next nonempty =>
    obtain ⟨codes, known, result⟩ := steps_of_bind read
    cases result
    refine ⟨?_, fun _ waiting => nomatch waiting⟩
    rintro rfl
    cases operands with
    | nil => exact nonempty rfl
    | cons word rest =>
        obtain ⟨value, _, others⟩ := steps_of_bind known
        obtain ⟨_, _, impossible⟩ := steps_of_bind others
        cases impossible

theorem wellFormed_bare {word : Word} {operands : List Text} {directive : Directive}
    (read : bare word operands = .ok directive) : directive.WellFormed := by
  unfold bare at read
  split at read
  · cases read
    exact wellFormed_single word
  · cases read

theorem wellFormed_call {operands : List Text} {directive : Directive}
    (read : call operands = .ok directive) : directive.WellFormed := by
  unfold call at read
  split at read
  · cases read
  · split at read
    · cases read
      exact wellFormed_single _
    · split at read
      · next label =>
        cases read
        refine ⟨List.cons_ne_nil _ _, fun target same => ?_⟩
        cases same
        exact ⟨isLabel_ne_nil label, rfl⟩
      · cases read
    · cases read
  · cases read

theorem wellFormed_skip {encode : UInt8 → UInt8 → Word} {operands : List Text}
    {directive : Directive} (read : skip encode operands = .ok directive) :
    directive.WellFormed := by
  obtain ⟨_, _, read⟩ := steps_of_bind read
  obtain ⟨_, _, read⟩ := steps_of_bind read
  obtain ⟨_, _, read⟩ := steps_of_bind read
  cases read
  exact wellFormed_single _

theorem wellFormed_either {operation : Operation} {limit : Nat}
    {encode : UInt8 → UInt8 → Word} {operands : List Text} {directive : Directive}
    (read : either operation limit encode operands = .ok directive) :
    directive.WellFormed := by
  obtain ⟨_, _, read⟩ := steps_of_bind read
  obtain ⟨_, _, read⟩ := steps_of_bind read
  split at read
  · obtain ⟨_, _, read⟩ := steps_of_bind read
    cases read
    exact wellFormed_single _
  · obtain ⟨_, _, read⟩ := steps_of_bind read
    cases read
    exact wellFormed_single _

theorem wellFormed_pair {operation : Operation} {operands : List Text} {directive : Directive}
    (read : pair operation operands = .ok directive) : directive.WellFormed := by
  obtain ⟨_, _, read⟩ := steps_of_bind read
  obtain ⟨_, _, read⟩ := steps_of_bind read
  obtain ⟨_, _, read⟩ := steps_of_bind read
  obtain ⟨_, _, read⟩ := steps_of_bind read
  cases read
  exact wellFormed_single _

theorem wellFormed_ofWords {first : Text} {operands : List Text} {directive : Directive}
    (read : ofWords first operands = .ok directive) : directive.WellFormed := by
  unfold ofWords at read
  split at read
  · exact wellFormed_origin read
  · exact wellFormed_data read
  · exact wellFormed_bare read
  · exact wellFormed_bare read
  · exact wellFormed_call read
  · exact wellFormed_skip read
  · exact wellFormed_skip read
  · exact wellFormed_either read
  · exact wellFormed_either read
  · exact wellFormed_pair read
  · exact wellFormed_pair read
  · exact wellFormed_pair read
  · cases read

end Nibble.Directive
