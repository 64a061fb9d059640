import Nibble.Machine.Basic

set_option autoImplicit false

/-! Runs. There is no backward jump other than a call, a call needs a free stack slot, and a
return continues after the call that it ends. So every run ends: the addresses at which the
machine still has to continue, the saved ones first and the program counter last, are read as
the digits of one number, each digit the distance of the address from the end of the address
space, and every completed instruction makes that number smaller. -/

namespace Nibble

namespace Machine

def digitBase : Nat := 65537

def weigh : Nat → List UInt16 → Nat
  | _, [] => 0
  | level, address :: rest =>
      (65536 - address.toNat) * Nat.pow digitBase level + weigh (level - 1) rest

/-- What is left to run: the continuation addresses as one number. -/
def weight (machine : Machine) : Nat :=
  weigh 16 (machine.stack.frames ++ [machine.counter])

theorem weigh_append (level : Nat) (first second : List UInt16) :
    weigh level (first ++ second) = weigh level first + weigh (level - first.length) second := by
  induction first generalizing level with
  | nil => simp [weigh]
  | cons address rest ih =>
      have levels : level - (rest.length + 1) = level - 1 - rest.length := by omega
      simp only [List.cons_append, weigh, ih, List.length_cons, levels]
      omega

theorem weigh_singleton (level : Nat) (address : UInt16) :
    weigh level [address] = (65536 - address.toNat) * Nat.pow digitBase level := by
  simp [weigh]

theorem weigh_singleton_pos (level : Nat) (address : UInt16) : 0 < weigh level [address] := by
  rw [weigh_singleton]
  have bound := address.toNat_lt
  exact Nat.mul_pos (by omega) (Nat.pow_pos (by decide))

theorem weigh_advance (level : Nat) (earlier later : UInt16)
    (progress : earlier.toNat < later.toNat) :
    weigh level [later] < weigh level [earlier] := by
  rw [weigh_singleton, weigh_singleton]
  have bound := later.toNat_lt
  exact Nat.mul_lt_mul_of_pos_right (by omega) (Nat.pow_pos (by decide))

/-- A later address weighs less even with any further address one level below it. -/
theorem weigh_nest (level : Nat) (earlier later nested : UInt16)
    (progress : earlier.toNat < later.toNat) :
    weigh (level + 1) [later, nested] < weigh (level + 1) [earlier] := by
  have bound := later.toNat_lt
  have digits : 65536 - earlier.toNat ≥ (65536 - later.toNat) + 1 := by omega
  have outer : (65536 - earlier.toNat) * Nat.pow digitBase (level + 1) ≥
      ((65536 - later.toNat) + 1) * Nat.pow digitBase (level + 1) := Nat.mul_le_mul_right _ digits
  have higher : Nat.pow digitBase (level + 1) = digitBase * Nat.pow digitBase level :=
    Nat.pow_succ'
  have inner : (65536 - nested.toNat) * Nat.pow digitBase level <
      Nat.pow digitBase (level + 1) := by
    rw [higher]
    exact Nat.mul_lt_mul_of_pos_right (by unfold digitBase; omega) (Nat.pow_pos (by decide))
  simp only [weigh, Nat.add_sub_cancel]
  rw [Nat.add_mul] at outer
  omega

/-- Where an instruction can continue: after itself or after a skipped word, at the youngest
return address, or in a subroutine with the return address saved. -/
inductive Continues (before after : Machine) : Prop where
  | onward (sameStack : after.stack = before.stack)
      (counter : after.counter = before.counter ∨ after.counter = before.counter + 2)
  | returns (popped : before.stack.pop? = some (after.counter, after.stack))
  | calls (pushed : before.stack.push? before.counter = some after.stack)

theorem execute_continues (machine after : Machine) (instruction : Instruction)
    (executed : machine.execute instruction = .ok after) : Continues machine after := by
  obtain ⟨operation, x, y, n, address, immediate⟩ := instruction
  have registerCases (index : UInt8) :
      (∃ found, register index = .ok found) ∨ (∃ failure, register index = .error failure) := by
    cases register index with
    | ok found => exact .inl ⟨found, rfl⟩
    | error failure => exact .inr ⟨failure, rfl⟩
  cases operation with
  | halt | unknown | unlisted number => simp [execute] at executed
  | ret =>
      simp only [execute, ret] at executed
      split at executed
      · next found =>
        cases executed
        exact .returns found
      · cases executed
  | call =>
      simp only [execute, call] at executed
      split at executed
      · next found =>
        cases executed
        exact .calls found
      · cases executed
  | skipEqual =>
      rcases registerCases x with ⟨found, known⟩ | ⟨failure, known⟩ <;>
        simp only [execute, known, bind, Except.bind, pure, Except.pure] at executed <;>
          cases executed
      by_cases same : machine.get found = immediate
      · exact .onward (by simp [skipEqual, same, skip]) (.inr (by simp [skipEqual, same, skip]))
      · exact .onward (by simp [skipEqual, same]) (.inl (by simp [skipEqual, same]))
  | skipUnequal =>
      rcases registerCases x with ⟨found, known⟩ | ⟨failure, known⟩ <;>
        simp only [execute, known, bind, Except.bind, pure, Except.pure] at executed <;>
          cases executed
      by_cases same : machine.get found = immediate
      · exact .onward (by simp [skipUnequal, same]) (.inl (by simp [skipUnequal, same]))
      · exact .onward (by simp [skipUnequal, same, skip]) (.inr (by simp [skipUnequal, same, skip]))
  | load | add =>
      rcases registerCases x with ⟨found, known⟩ | ⟨failure, known⟩ <;>
        simp only [execute, known, bind, Except.bind, pure, Except.pure] at executed <;>
          cases executed
      exact .onward rfl (.inl rfl)
  | copy | or | and | xor | sum =>
      rcases registerCases x with ⟨first, firstKnown⟩ | ⟨failure, firstKnown⟩ <;>
        rcases registerCases y with ⟨second, secondKnown⟩ | ⟨failure, secondKnown⟩ <;>
        simp only [execute, firstKnown, secondKnown, bind, Except.bind, pure, Except.pure]
          at executed <;>
        cases executed
      exact .onward rfl (.inl rfl)

/-- Every completed instruction leaves less to run. -/
theorem weight_lt_of_tick (machine after : Machine) (ticked : machine.tick = (after, .running)) :
    after.weight < machine.weight := by
  unfold tick fetch at ticked
  by_cases inside : machine.counter.toNat + 1 < Memory.size
  · simp only [if_pos inside] at ticked
    split at ticked
    · next result executed =>
      simp only [Prod.mk.injEq, and_true] at ticked
      subst ticked
      have small : machine.counter.toNat + 1 < 4096 := inside
      have step : (machine.counter + 2).toNat = machine.counter.toNat + 2 := by
        rw [UInt16.toNat_add]
        exact Nat.mod_eq_of_lt (by simp; omega)
      have twice : (machine.counter + 2 + 2).toNat = machine.counter.toNat + 4 := by
        rw [UInt16.toNat_add, step]
        exact Nat.mod_eq_of_lt (by simp; omega)
      have shape := execute_continues machine.skip result _ executed
      unfold weight
      simp only [weigh_append]
      cases shape with
      | onward sameStack counter =>
          have frames : result.stack.frames = machine.stack.frames := by rw [sameStack]; rfl
          rw [frames]
          apply Nat.add_lt_add_left
          apply weigh_advance
          rcases counter with same | skipped
          · rw [same]; simp only [skip, step]; omega
          · rw [skipped]; simp only [skip, twice]; omega
      | returns popped =>
          have frames := CallStack.frames_pop? _ _ _ popped
          change machine.stack.frames = _ at frames
          rw [frames, ← weigh_append]
          have remaining := weigh_singleton_pos
            (16 - (result.stack.frames ++ [result.counter]).length) machine.counter
          omega
      | calls pushed =>
          have frames := CallStack.frames_push? _ _ _ pushed
          change result.stack.frames = machine.stack.frames ++ [machine.counter + 2] at frames
          have deeper := CallStack.length_frames result.stack
          have bounded := result.stack.pointer_le
          rw [frames, List.length_append, List.length_singleton] at deeper
          rw [frames, weigh_append, Nat.add_assoc]
          apply Nat.add_lt_add_left
          obtain ⟨level, levels⟩ : ∃ level, 16 - machine.stack.frames.length = level + 1 :=
            ⟨15 - machine.stack.frames.length, by omega⟩
          have lower : 16 - (machine.stack.frames ++ [machine.counter + 2]).length = level := by
            simp only [List.length_append, List.length_singleton]; omega
          rw [lower, levels]
          have nested :=
            weigh_nest level machine.counter (machine.counter + 2) result.counter (by omega)
          simpa [weigh] using nested
    · split at ticked <;> simp at ticked
  · simp only [if_neg inside] at ticked
    simp at ticked

/-- Runs until an instruction halts or fails: the machine at the end, and the failure if there
was one. -/
def run (machine : Machine) : Machine × Option Failure :=
  match ticked : machine.tick with
  | (after, .running) =>
      have := weight_lt_of_tick machine after ticked
      after.run
  | (after, .halted) => (after, none)
  | (after, .fault failure) => (after, some failure)
termination_by machine.weight

end Machine

end Nibble
