import Nibble.Proofs.Machine.Trace

set_option autoImplicit false

/-! Calls and returns nest. A tick leaves the live stack entries as they are, adds one, or takes the
youngest one away and continues there. So the entries at the time of a call, and the return address
that the call adds, stay at the bottom of the stack as long as nothing is taken from below, and the
return that first brings the depth back takes exactly that address. -/

namespace Nibble.Machine

theorem continues_of_tick {machine after : Machine} (ticked : machine.tick = (after, .running)) :
    Continues machine.skip after := by
  unfold tick at ticked
  split at ticked
  · cases ticked
  · split at ticked
    · next result executed =>
      cases ticked
      cases execute_continues _ _ _ executed with
      | onward sameStack counter => exact .onward sameStack counter
      | returns popped => exact .returns popped
      | calls pushed => exact .calls pushed
    · split at ticked <;> cases ticked

theorem frames_of_tick {machine after : Machine} (ticked : machine.tick = (after, .running)) :
    after.stack.frames = machine.stack.frames ∨
      after.stack.frames = machine.stack.frames ++ [machine.counter + 2] ∨
      machine.stack.frames = after.stack.frames ++ [after.counter] := by
  cases continues_of_tick ticked with
  | onward sameStack counter => exact .inl (congrArg CallStack.frames sameStack)
  | returns popped => exact .inr (.inr (CallStack.frames_pop? _ _ _ popped))
  | calls pushed => exact .inr (.inl (CallStack.frames_push? _ _ _ pushed))

theorem frames_of_call {machine after : Machine} {word : Word} (fetched : machine.fetch = .ok word)
    (calls : word.operation = .call) (ticked : machine.tick = (after, .running)) :
    after.stack.frames = machine.stack.frames ++ [machine.counter + 2] := by
  simp only [tick, fetched, execute, Word.decode, calls, call] at ticked
  cases pushed : machine.skip.stack.push? machine.skip.counter with
  | none =>
      simp only [pushed] at ticked
      cases ticked
  | some stack =>
      simp only [pushed] at ticked
      cases ticked
      exact CallStack.frames_push? _ _ _ pushed

/-- Entries at the bottom of the stack stay there while the stack is no smaller. -/
theorem prefix_of_tick {machine after : Machine} {entries : List UInt16}
    (ticked : machine.tick = (after, .running)) (kept : entries <+: machine.stack.frames)
    (deep : entries.length ≤ after.stack.pointer) : entries <+: after.stack.frames := by
  rcases frames_of_tick ticked with same | pushed | popped
  · rw [same]
    exact kept
  · rw [pushed]
    exact kept.trans (List.prefix_append _ _)
  · have shorter : after.stack.frames <+: machine.stack.frames := by
      rw [popped]
      exact List.prefix_append _ _
    exact List.prefix_of_prefix_length_le kept shorter (by rwa [CallStack.length_frames])

theorem pointer_of_frames {stack larger : CallStack} {address : UInt16}
    (frames : larger.frames = stack.frames ++ [address]) : larger.pointer = stack.pointer + 1 := by
  have lengths := congrArg List.length frames
  rwa [List.length_append, CallStack.length_frames, CallStack.length_frames,
    List.length_singleton] at lengths

/-! ### From a call to its return -/

section

variable {machine : Machine} {word : Word} {count : Nat}

theorem tick_after (running : ∀ index, index < count → (machine.after index).tick.2 = .running)
    {index : Nat} (inside : index < count) :
    (machine.after index).tick = (machine.after (index + 1), .running) :=
  Prod.ext rfl (running index inside)

/-- While the depth stays above that of the call, the entries before the call and its return
address stay at the bottom of the stack. -/
theorem prefix_after_call (fetched : machine.fetch = .ok word) (calls : word.operation = .call)
    (running : ∀ index, index < count → (machine.after index).tick.2 = .running)
    (started : 0 < count)
    (deep : ∀ index, 0 < index → index ≤ count →
      machine.stack.pointer < (machine.after index).stack.pointer) :
    machine.stack.frames ++ [machine.counter + 2] <+: (machine.after count).stack.frames := by
  induction count with
  | zero => exact absurd started (Nat.lt_irrefl 0)
  | succ count ih =>
      have ticked := tick_after running (Nat.lt_succ_self count)
      cases count with
      | zero =>
          have called := frames_of_call fetched calls ticked
          exact called ▸ List.prefix_rfl
      | succ count =>
          have kept := ih (fun index inside => running index (Nat.lt_succ_of_lt inside))
            (Nat.succ_pos count)
            fun index later inside => deep index later (Nat.le_succ_of_le inside)
          refine prefix_of_tick ticked kept ?_
          rw [List.length_append, CallStack.length_frames, List.length_singleton]
          exact deep _ (Nat.succ_pos _) (Nat.le_refl _)

/-- The depth changes by one at a time, so it stays above that of the call until it is equal. -/
theorem deep_of_ne (fetched : machine.fetch = .ok word) (calls : word.operation = .call)
    (running : ∀ index, index < count → (machine.after index).tick.2 = .running)
    (apart : ∀ index, 0 < index → index ≤ count →
      (machine.after index).stack.pointer ≠ machine.stack.pointer)
    (index : Nat) (later : 0 < index) (inside : index ≤ count) :
    machine.stack.pointer < (machine.after index).stack.pointer := by
  induction index with
  | zero => exact absurd later (Nat.lt_irrefl 0)
  | succ index ih =>
      have ticked := tick_after running inside
      have different := apart (index + 1) later inside
      cases index with
      | zero =>
          have depth := pointer_of_frames (frames_of_call fetched calls ticked)
          omega
      | succ index =>
          have deep := ih (Nat.succ_pos index) (Nat.le_of_succ_le inside)
          rcases frames_of_tick ticked with same | pushed | popped
          · have depth := congrArg List.length same
            rw [CallStack.length_frames, CallStack.length_frames] at depth
            omega
          · have depth := pointer_of_frames pushed
            omega
          · have depth := pointer_of_frames popped
            omega

/-- The tick that takes the depth back to that of the call is its return. -/
theorem returns_of_tick {before after : Machine} {entries : List UInt16} {address : UInt16}
    (ticked : before.tick = (after, .running)) (kept : entries ++ [address] <+: before.stack.frames)
    (depth : after.stack.pointer = entries.length) :
    after.counter = address ∧ after.stack.frames = entries := by
  have least := kept.length_le
  rw [List.length_append, List.length_singleton, CallStack.length_frames] at least
  rcases frames_of_tick ticked with same | pushed | popped
  · have unchanged := congrArg List.length same
    rw [CallStack.length_frames, CallStack.length_frames] at unchanged
    omega
  · have deeper := pointer_of_frames pushed
    omega
  · have all : entries ++ [address] = before.stack.frames := by
      apply kept.eq_of_length
      rw [CallStack.length_frames, pointer_of_frames popped, depth, List.length_append,
        List.length_singleton]
    obtain ⟨frames, counter⟩ := List.append_inj' (all.trans popped) rfl
    exact ⟨(List.cons.inj counter).1.symm, frames.symm⟩

end

/-- Calls and returns are strictly nested. Let a run of ticks that complete begin with a call. As
long as the depth stays above that of the call, the entries from before the call followed by its
return address are the first ones of the stack. In the first state behind the call with the depth of
before, whatever was called and returned in between, the machine goes on behind the call and the
entries are those of before. -/
theorem call_returns (machine : Machine) (word : Word) (count : Nat)
    (fetched : machine.fetch = .ok word) (calls : word.operation = .call)
    (running : ∀ index, index < count → (machine.after index).tick.2 = .running)
    (started : 0 < count) :
    ((∀ index, 0 < index → index ≤ count →
        machine.stack.pointer + 1 ≤ (machine.after index).stack.pointer) →
      (machine.after count).stack.frames.take (machine.stack.pointer + 1) =
        machine.stack.frames ++ [machine.counter + 2]) ∧
    ((∀ index, 0 < index → index < count →
        (machine.after index).stack.pointer ≠ machine.stack.pointer) →
      (machine.after count).stack.pointer = machine.stack.pointer →
      (machine.after count).counter = machine.counter + 2 ∧
      (machine.after count).stack.frames = machine.stack.frames) := by
  constructor
  · intro deep
    have kept := prefix_after_call fetched calls running started deep
    have entries := List.prefix_iff_eq_take.mp kept
    rw [List.length_append, CallStack.length_frames, List.length_singleton] at entries
    exact entries.symm
  · intro apart depth
    obtain ⟨earlier, rfl⟩ : ∃ earlier, count = earlier + 1 := ⟨count - 1, by omega⟩
    have ticked := tick_after running (Nat.lt_succ_self earlier)
    have before : ∀ index, index < earlier → (machine.after index).tick.2 = .running :=
      fun index inside => running index (Nat.lt_succ_of_lt inside)
    cases earlier with
    | zero =>
        have deeper := pointer_of_frames (frames_of_call fetched calls ticked)
        omega
    | succ earlier =>
        have deep := deep_of_ne fetched calls before fun index later inside =>
          apart index later (Nat.lt_succ_of_le inside)
        have kept := prefix_after_call fetched calls before (Nat.succ_pos earlier) deep
        exact returns_of_tick ticked kept (depth.trans (CallStack.length_frames _).symm)

/-- A subroutine that calls another one: four ticks lead to the call, into the inner call, and
back twice. -/
theorem call_returns_two_deep :
    let machine : Machine :=
      { memory := fun address =>
          [0x20, 0x04, 0x00, 0x00, 0x20, 0x08, 0x00, 0xEE, 0x00, 0xEE].getD address.val 0 }
    machine.fetch = .ok 0x2004 ∧ (machine.after 2).stack.frames = [2, 6] ∧
      (machine.after 4).counter = machine.counter + 2 ∧
      (machine.after 4).stack.frames = machine.stack.frames := by
  intro machine
  have bytes : Word.ofBytes (machine.memory.byte 0) (machine.memory.byte 1) = 0x2004 := by decide
  have fetched : machine.fetch = .ok 0x2004 := by
    rw [← bytes]
    exact if_pos (by decide)
  have running : ∀ index, index < 4 → (machine.after index).tick.2 = .running := by decide
  have apart : ∀ index, index < 4 → 0 < index →
      (machine.after index).stack.pointer ≠ machine.stack.pointer := by decide
  refine ⟨fetched, by decide, ?_⟩
  exact (call_returns machine 0x2004 4 fetched rfl running (by decide)).2
    (fun index later inside => apart index inside later) (by decide)

end Nibble.Machine
