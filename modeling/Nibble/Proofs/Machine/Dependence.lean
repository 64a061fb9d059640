import Nibble.Proofs.Machine.Fault

set_option autoImplicit false

/-! What a run depends on. Two machines with the same program counter, registers and live stack
entries, whose memories agree on the bytes that one of them fetches, run alike: the stack slots
above the pointer, the count of instructions and the rest of the memory play no part. -/

namespace Nibble.Machine

/-- Two machines in the same live state. Their memories, their dead stack slots and their counts of
instructions may differ. -/
structure Alike (one other : Machine) : Prop where
  counter : one.counter = other.counter
  registers : one.registers = other.registers
  frames : one.stack.frames = other.stack.frames

namespace Alike

variable {one other : Machine}

theorem get (alike : one.Alike other) (index : Fin 16) : one.get index = other.get index := by
  unfold Machine.get
  rw [alike.registers]

theorem pointer (alike : one.Alike other) : one.stack.pointer = other.stack.pointer := by
  rw [← CallStack.length_frames, alike.frames, CallStack.length_frames]

/-! ### The outcomes of the table -/

theorem resumed (alike : one.Alike other) (counter : UInt16) :
    (Pattern.resumed one counter).Alike (Pattern.resumed other counter) :=
  ⟨rfl, alike.registers, alike.frames⟩

theorem rewritten (alike : one.Alike other) {value otherValue : Fin 16 → UInt8}
    (same : ∀ index, value index = otherValue index) :
    (Pattern.rewritten one value).Alike (Pattern.rewritten other otherValue) := by
  have values : value = otherValue := funext same
  unfold Pattern.rewritten Pattern.resumed
  constructor
  · dsimp only
    rw [alike.counter]
  · dsimp only
    rw [values]
  · exact alike.frames

theorem assigned (alike : one.Alike other) (x : Fin 16) {value otherValue : UInt8}
    (same : value = otherValue) :
    (Pattern.assigned one x value).Alike (Pattern.assigned other x otherValue) := by
  apply alike.rewritten
  intro index
  rw [same, alike.get]

theorem refused (alike : one.Alike other) (word : Word) (reason : Reason) :
    (Pattern.refused one word reason).2 = (Pattern.refused other word reason).2 ∧
      (Pattern.refused one word reason).1.Alike (Pattern.refused other word reason).1 := by
  unfold Pattern.refused
  rw [alike.counter]
  exact ⟨rfl, rfl, alike.registers, alike.frames⟩

end Alike

theorem frames_dropped (stack : CallStack) (bound : stack.pointer - 1 ≤ 16) :
    CallStack.frames { stack with pointer := stack.pointer - 1, pointer_le := bound } =
      stack.frames.dropLast := by
  rw [List.dropLast_eq_take, CallStack.length_frames]
  unfold CallStack.frames
  rw [List.take_take, Nat.min_eq_left (Nat.sub_le _ _)]

theorem frames_pushed (stack : CallStack) (address : UInt16) (room : stack.pointer < 16) :
    CallStack.frames
        { slots := Vector.ofFn fun index =>
            if index.val = stack.pointer then address else stack.slots[index]
          pointer := stack.pointer + 1
          pointer_le := room } =
      stack.frames ++ [address] := by
  refine CallStack.frames_push? stack _ address ?_
  rw [← slots_push stack.slots stack.pointer room address]
  exact dif_pos room

theorem alike_outcome {one other : Machine} (alike : one.Alike other) (pattern : Pattern) :
    (pattern.outcome one).2 = (pattern.outcome other).2 ∧
      (pattern.outcome one).1.Alike (pattern.outcome other).1 := by
  unfold Pattern.outcome
  cases pattern with
  | halt =>
      refine ⟨rfl, ?_⟩
      rw [alike.counter]
      exact alike.resumed _
  | ret =>
      dsimp only
      rw [alike.frames]
      cases other.stack.frames.getLast? with
      | none => exact alike.refused _ _
      | some address =>
          refine ⟨rfl, rfl, alike.registers, ?_⟩
          dsimp only [Pattern.resumed]
          rw [frames_dropped, frames_dropped, alike.frames]
  | call address =>
      dsimp only
      by_cases room : other.stack.pointer < 16
      · have otherRoom : one.stack.pointer < 16 := by rwa [alike.pointer]
        rw [dif_pos room, dif_pos otherRoom]
        refine ⟨rfl, rfl, alike.registers, ?_⟩
        dsimp only [Pattern.resumed]
        rw [frames_pushed one.stack _ otherRoom, frames_pushed other.stack _ room, alike.frames,
          alike.counter]
      · rw [dif_neg room, dif_neg (by rwa [alike.pointer])]
        exact alike.refused _ _
  | skipEqual x immediate | skipUnequal x immediate =>
      refine ⟨rfl, ?_⟩
      dsimp only
      rw [alike.get, alike.counter]
      exact alike.resumed _
  | load x immediate => exact ⟨rfl, alike.assigned x rfl⟩
  | add x immediate =>
      refine ⟨rfl, alike.assigned x ?_⟩
      rw [alike.get]
  | copy x y => exact ⟨rfl, alike.assigned x (alike.get y)⟩
  | or x y | and x y | xor x y =>
      refine ⟨rfl, alike.assigned x ?_⟩
      rw [alike.get, alike.get]
  | sum x y =>
      refine ⟨rfl, alike.rewritten ?_⟩
      intro index
      rw [alike.get x, alike.get y, alike.get index]

/-! ### One tick -/

/-- The two bytes at the program counter are looked up by a fetch, if both lie in memory. -/
def Looks (machine : Machine) (address : Nat) : Prop :=
  machine.counter.toNat + 1 < Memory.size ∧
    (address = machine.counter.toNat ∨ address = machine.counter.toNat + 1)

theorem fetch_eq_of_alike {one other : Machine} (alike : one.Alike other)
    (agree : ∀ address, one.Looks address → one.memory.byte address = other.memory.byte address) :
    one.fetch = other.fetch := by
  unfold fetch
  rw [← alike.counter]
  by_cases inside : one.counter.toNat + 1 < Memory.size
  · rw [if_pos inside, if_pos inside, agree _ ⟨inside, .inl rfl⟩, agree _ ⟨inside, .inr rfl⟩]
  · rw [if_neg inside, if_neg inside]

theorem alike_tick {one other : Machine} (alike : one.Alike other)
    (agree : ∀ address, one.Looks address → one.memory.byte address = other.memory.byte address) :
    one.tick.2 = other.tick.2 ∧ one.tick.1.Alike other.tick.1 := by
  have same := fetch_eq_of_alike alike agree
  cases fetched : one.fetch with
  | error failure =>
      have otherFetched := same.symm.trans fetched
      simp only [tick, fetched, otherFetched]
      exact ⟨by rw [alike.counter], alike⟩
  | ok word =>
      have otherFetched := same.symm.trans fetched
      by_cases unknown : word.operation = .unknown
      · rw [tick_of_unknown fetched unknown, tick_of_unknown otherFetched unknown]
        exact alike.refused _ _
      · obtain ⟨pattern, number⟩ := Word.exists_pattern unknown
        rw [tick_of_pattern fetched number, tick_of_pattern otherFetched number]
        exact alike_outcome alike pattern

/-! ### Whole runs -/

/-- The addresses that a run fetches: those looked up by the fetch of some tick before which every
tick completed. -/
def Fetches (machine : Machine) (address : Nat) : Prop :=
  ∃ count, (∀ index, index < count → (machine.after index).tick.2 = .running) ∧
    (machine.after count).Looks address

theorem Looks.fetches {machine : Machine} {address : Nat} (looks : machine.Looks address) :
    machine.Fetches address :=
  ⟨0, fun index before => absurd before (Nat.not_lt_zero index), looks⟩

theorem Fetches.of_tick {machine after : Machine} {address : Nat}
    (ticked : machine.tick = (after, .running)) (fetches : after.Fetches address) :
    machine.Fetches address := by
  obtain ⟨count, running, looks⟩ := fetches
  have first : machine.tick.1 = after := congrArg Prod.fst ticked
  refine ⟨count + 1, ?_, ?_⟩
  · intro index before
    cases index with
    | zero => exact congrArg Prod.snd ticked
    | succ index =>
        rw [after_succ, first]
        exact running index (Nat.lt_of_succ_lt_succ before)
  · rw [after_succ, first]
    exact looks

/-- Traces of the same length to the ticks that end two runs. -/
theorem exists_completes_of_alike {one other : Machine} (alike : one.Alike other)
    (agree : ∀ address, one.Fetches address →
      one.memory.byte address = other.memory.byte address) :
    ∃ count last otherLast, Completes count one last ∧ Completes count other otherLast ∧
      EndsRun last one.run ∧ EndsRun otherLast other.run ∧
      one.run.2 = other.run.2 ∧ one.run.1.Alike other.run.1 := by
  induction one using run_induction generalizing other with
  | step one ih =>
      obtain ⟨signals, stillAlike⟩ :=
        alike_tick alike fun address looks => agree address looks.fetches
      have kept := memory_tick one
      have otherKept := memory_tick other
      rw [run_eq one, run_eq other]
      cases ticked : one.tick with
      | mk after signal =>
          cases otherTicked : other.tick with
          | mk otherAfter otherSignal =>
              rw [ticked, otherTicked] at signals stillAlike
              rw [ticked] at kept
              rw [otherTicked] at otherKept
              cases signals
              cases signal with
              | running =>
                  -- The memories are those of before, and what the rest fetches the whole fetches.
                  have stillAgree : ∀ address, after.Fetches address →
                      after.memory.byte address = otherAfter.memory.byte address := by
                    intro address fetches
                    rw [kept, otherKept]
                    exact agree address (fetches.of_tick ticked)
                  obtain ⟨count, last, otherLast, trace, otherTrace, rest⟩ :=
                    ih after ticked stillAlike stillAgree
                  exact ⟨count + 1, last, otherLast, .next ticked trace,
                    .next otherTicked otherTrace, rest⟩
              | halted =>
                  exact ⟨0, one, other, .here one, .here other, ticked, otherTicked, rfl,
                    stillAlike⟩
              | fault failure =>
                  exact ⟨0, one, other, .here one, .here other, ticked, otherTicked, rfl,
                    stillAlike⟩

/-- A run depends on the live state and on the bytes it fetches, and on nothing else. Two machines
in the same live state whose memories agree on every byte that the run of the first one fetches
have the same outcome, after the same number of instructions, and end in the same live state. -/
theorem run_of_alike (one other : Machine) (alike : one.Alike other)
    (agree : ∀ address, one.Fetches address →
      one.memory.byte address = other.memory.byte address) :
    one.run.2 = other.run.2 ∧ one.run.1.Alike other.run.1 ∧
      ∃ count last otherLast, Completes count one last ∧ EndsRun last one.run ∧
        Completes count other otherLast ∧ EndsRun otherLast other.run ∧
        let executed := count + if one.run.2 = none then 1 else 0
        one.run.1.ticks = one.ticks + Int64.ofNat executed ∧
          other.run.1.ticks = other.ticks + Int64.ofNat executed := by
  obtain ⟨count, last, otherLast, trace, otherTrace, ending, otherEnding, outcome, final⟩ :=
    exists_completes_of_alike alike agree
  have counted := ticks_of_endsRun trace ending
  have otherCounted := ticks_of_endsRun otherTrace otherEnding
  rw [← outcome] at otherCounted
  exact ⟨outcome, final, count, last, otherLast, trace, ending, otherTrace, otherEnding, counted,
    otherCounted⟩

/-- A call and its return, with other bytes behind the subroutine, other dead stack slots, the
lowest of which the call overwrites, and another count. -/
theorem run_of_alike_stale_slots :
    let one : Machine :=
      { memory := fun address => [0x20, 0x04, 0x00, 0x00, 0x00, 0xEE].getD address.val 0 }
    let other : Machine :=
      { memory := fun address => [0x20, 0x04, 0x00, 0x00, 0x00, 0xEE].getD address.val 0xFF
        stack := { slots := Vector.replicate 16 0xABC }
        ticks := 7 }
    one.memory.byte 6 ≠ other.memory.byte 6 ∧ one.stack.slots ≠ other.stack.slots ∧
      one.Alike other ∧
      (∀ address, one.Fetches address →
        one.memory.byte address = other.memory.byte address) ∧
      one.run.2 = other.run.2 ∧ one.run.1.Alike other.run.1 ∧
      ∃ count last otherLast, Completes count one last ∧ EndsRun last one.run ∧
        Completes count other otherLast ∧ EndsRun otherLast other.run ∧
        let executed := count + if one.run.2 = none then 1 else 0
        one.run.1.ticks = 0 + Int64.ofNat executed ∧
          other.run.1.ticks = 7 + Int64.ofNat executed := by
  intro one other
  have alike : one.Alike other := ⟨rfl, rfl, by decide⟩
  have agree : ∀ address, one.Fetches address →
      one.memory.byte address = other.memory.byte address := by
    rintro address ⟨count, running, _, place⟩
    have few : count < 3 := by
      apply Nat.lt_of_not_le
      intro many
      exact absurd (running 2 many) (by decide)
    have counters : ∀ count, count < 3 → (one.after count).counter.toNat + 1 < 6 := by decide
    have counter := counters count few
    have bytes : ∀ address, address < 6 →
        one.memory.byte address = other.memory.byte address := by decide
    exact bytes address (by omega)
  exact ⟨by decide, by decide, alike, agree, run_of_alike one other alike agree⟩

end Nibble.Machine
