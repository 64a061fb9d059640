import Nibble.Proofs.Machine.Dispatch
import Nibble.Proofs.Machine.Trace

set_option autoImplicit false

/-! Faults. A run that does not halt ends with an instruction that cannot be carried out, or with
a program counter behind the last word. The fault names the place and the reason, and it leaves
nothing behind but the program counter past the instruction. -/

namespace Nibble.Machine

/-! ### How a tick ends -/

theorem fetch_cases (machine : Machine) :
    machine.counter.toNat ≤ 0xFFE ∧
        machine.fetch = .ok (Word.ofBytes (machine.memory.byte machine.counter.toNat)
          (machine.memory.byte (machine.counter.toNat + 1))) ∨
      0xFFF ≤ machine.counter.toNat ∧ machine.fetch = .error (.plain .fetchBounds) := by
  by_cases inside : machine.counter.toNat + 1 < Memory.size
  · exact .inl ⟨Nat.le_of_lt_succ (Nat.lt_of_succ_lt_succ inside), if_pos inside⟩
  · exact .inr ⟨Nat.le_of_succ_le_succ (Nat.le_of_not_lt inside), if_neg inside⟩

/-- Every way in which a tick can end. -/
inductive Ends (machine : Machine) : Machine × Signal → Prop where
  | strays (beyond : 0xFFF ≤ machine.counter.toNat)
      (unfetched : machine.fetch = .error (.plain .fetchBounds)) :
      Ends machine (machine, .fault (.executing machine.counter 0 (.plain .fetchBounds)))
  | halts (fetched : machine.fetch = .ok 0) :
      Ends machine (Pattern.resumed machine (machine.counter + 2), .halted)
  | completes (word : Word) (after : Machine) (fetched : machine.fetch = .ok word)
      (nonzero : word ≠ 0) (counted : after.ticks = machine.ticks + 1) :
      Ends machine (after, .running)
  | overflows (word : Word) (fetched : machine.fetch = .ok word)
      (operation : word.operation = .call) (full : machine.stack.pointer = 16) :
      Ends machine (Pattern.refused machine word .stackOverflow)
  | underflows (fetched : machine.fetch = .ok 0x00EE) (empty : machine.stack.pointer = 0) :
      Ends machine (Pattern.refused machine 0x00EE .stackUnderflow)
  | refuses (word : Word) (fetched : machine.fetch = .ok word)
      (operation : word.operation = .unknown) :
      Ends machine (Pattern.refused machine word .unimplemented)

theorem ends_tick_of_pattern {machine : Machine} {word : Word} (fetched : machine.fetch = .ok word)
    {pattern : Pattern} (same : pattern.word = word.toNat) : Ends machine machine.tick := by
  have operation := Word.operation_of_pattern same
  have number : word = UInt16.ofNat pattern.word := by
    rw [same, UInt16.ofNat_toNat]
  -- Only the word zero is a halt, so every other pattern has a word that is not zero.
  have completes (usual : pattern.operation ≠ .halt)
      (running : (pattern.outcome machine).2 = .running) : Ends machine machine.tick := by
    have counted := (framed_tick fetched).ticks
    rw [tick_of_pattern fetched same] at counted ⊢
    generalize pattern.outcome machine = result at running counted
    obtain ⟨after, signal⟩ := result
    cases running
    refine .completes word after fetched ?_ counted
    rintro rfl
    exact usual operation.symm
  cases pattern with
  | halt =>
      rw [tick_of_pattern fetched same]
      rw [number] at fetched
      exact .halts fetched
  | ret =>
      cases top : machine.stack.frames.getLast? with
      | none =>
          have empty : machine.stack.pointer = 0 := by
            rw [← CallStack.length_frames, List.getLast?_eq_none_iff.mp top]
            rfl
          rw [tick_of_pattern fetched same]
          simp only [Pattern.outcome, top]
          rw [number] at fetched
          exact .underflows fetched empty
      | some address => exact completes (by rintro ⟨⟩) (by simp only [Pattern.outcome, top])
  | call address =>
      by_cases room : machine.stack.pointer < 16
      · exact completes (by rintro ⟨⟩) (by simp only [Pattern.outcome, dif_pos room])
      · have limit := machine.stack.pointer_le
        rw [tick_of_pattern fetched same]
        simp only [Pattern.outcome, dif_neg room]
        rw [← number]
        exact .overflows word fetched operation (by omega)
  | skipEqual x immediate | skipUnequal x immediate | load x immediate | add x immediate =>
      exact completes (by rintro ⟨⟩) rfl
  | copy x y | or x y | and x y | xor x y | sum x y => exact completes (by rintro ⟨⟩) rfl

theorem ends_tick (machine : Machine) : Ends machine machine.tick := by
  rcases fetch_cases machine with ⟨_, fetched⟩ | ⟨beyond, unfetched⟩
  · generalize Word.ofBytes _ _ = word at fetched
    by_cases unknown : word.operation = .unknown
    · rw [tick_of_unknown fetched unknown]
      exact .refuses word fetched unknown
    · obtain ⟨pattern, same⟩ := Word.exists_pattern unknown
      exact ends_tick_of_pattern fetched same
  · have ticked : machine.tick =
        (machine, .fault (.executing machine.counter 0 (.plain .fetchBounds))) := by
      simp only [tick, unfetched]
    rw [ticked]
    exact .strays beyond unfetched

/-! ### What a fault says -/

/-- A fault told by its word and its reason, between the machine before and after the tick. -/
structure Diagnosis (before final : Machine) (word : Word) (reason : Reason) : Prop where
  kind : reason = .fetchBounds ∨ reason = .stackOverflow ∨ reason = .stackUnderflow ∨
    reason = .unimplemented
  bounds : reason = .fetchBounds → 0xFFF ≤ before.counter.toNat ∧ word = 0 ∧ final = before
  instruction : reason ≠ .fetchBounds →
    before.counter.toNat ≤ 0xFFE ∧
    word = Word.ofBytes (before.memory.byte before.counter.toNat)
      (before.memory.byte (before.counter.toNat + 1)) ∧
    final = { before with counter := before.counter + 2 } ∧
    (reason = .stackOverflow ↔ word.decode.operation = .call ∧ before.stack.pointer = 16) ∧
    (reason = .stackUnderflow ↔ word = 0x00EE ∧ before.stack.pointer = 0) ∧
    (reason = .unimplemented ↔ word.decode.operation = .unknown)

theorem ofBytes_of_fetch {machine : Machine} {word : Word} (fetched : machine.fetch = .ok word) :
    machine.counter.toNat ≤ 0xFFE ∧
      word = Word.ofBytes (machine.memory.byte machine.counter.toNat)
        (machine.memory.byte (machine.counter.toNat + 1)) := by
  rcases fetch_cases machine with ⟨inside, same⟩ | ⟨_, unfetched⟩
  · rw [same] at fetched
    exact ⟨inside, (Except.ok.inj fetched).symm⟩
  · rw [unfetched] at fetched
    cases fetched

theorem fetch_of_halted {before final : Machine} (ticked : before.tick = (final, .halted)) :
    before.fetch = .ok 0 := by
  have ends := ends_tick before
  rw [ticked] at ends
  generalize halting : (final, Signal.halted) = result at ends
  cases ends with
  | halts fetched => exact fetched
  | strays | completes | overflows | underflows | refuses => cases halting

theorem exists_diagnosis {before final : Machine} {failure : Failure}
    (ticked : before.tick = (final, .fault failure)) :
    ∃ word reason, failure = .executing before.counter word (.plain reason) ∧
      Diagnosis before final word reason := by
  have ends := ends_tick before
  rw [ticked] at ends
  generalize faulty : (final, Signal.fault failure) = result at ends
  cases ends with
  | strays beyond unfetched =>
      cases faulty
      exact ⟨0, .fetchBounds, rfl, .inl rfl, fun _ => ⟨beyond, rfl, rfl⟩,
        fun other => absurd rfl other⟩
  | halts fetched => cases faulty
  | completes word after fetched nonzero counted => cases faulty
  | overflows word fetched operation full =>
      cases faulty
      obtain ⟨inside, bytes⟩ := ofBytes_of_fetch fetched
      refine ⟨word, .stackOverflow, rfl, .inr (.inl rfl), nofun,
        fun _ => ⟨inside, bytes, rfl, ?_, ?_, ?_⟩⟩
      · exact iff_of_true rfl ⟨operation, full⟩
      · refine iff_of_false nofun ?_
        rintro ⟨rfl, _⟩
        cases operation
      · refine iff_of_false nofun ?_
        intro unknown
        cases operation.symm.trans unknown
  | underflows fetched empty =>
      cases faulty
      obtain ⟨inside, bytes⟩ := ofBytes_of_fetch fetched
      refine ⟨0x00EE, .stackUnderflow, rfl, .inr (.inr (.inl rfl)), nofun,
        fun _ => ⟨inside, bytes, rfl, ?_, ?_, ?_⟩⟩
      · exact iff_of_false nofun nofun
      · exact iff_of_true rfl ⟨rfl, empty⟩
      · exact iff_of_false nofun nofun
  | refuses word fetched operation =>
      cases faulty
      obtain ⟨inside, bytes⟩ := ofBytes_of_fetch fetched
      refine ⟨word, .unimplemented, rfl, .inr (.inr (.inr rfl)), nofun,
        fun _ => ⟨inside, bytes, rfl, ?_, ?_, ?_⟩⟩
      · refine iff_of_false nofun ?_
        rintro ⟨call, _⟩
        cases operation.symm.trans call
      · refine iff_of_false nofun ?_
        rintro ⟨rfl, _⟩
        cases operation
      · exact iff_of_true rfl operation

/-! ### Whole runs -/

theorem ticks_tick (machine : Machine) :
    machine.tick.1.ticks = machine.ticks + Int64.ofNat machine.tick.2.completed := by
  have ends := ends_tick machine
  generalize machine.tick = result at ends ⊢
  cases ends with
  | completes word after fetched nonzero counted => exact counted
  | halts => rfl
  | strays | overflows | underflows | refuses => exact (Int64.add_zero machine.ticks).symm

theorem memory_tick (machine : Machine) : machine.tick.1.memory = machine.memory := by
  rcases fetch_cases machine with ⟨_, fetched⟩ | ⟨_, unfetched⟩
  · exact (framed_tick fetched).memory
  · simp only [tick, unfetched]

theorem ticks_of_completes {count : Nat} {machine last : Machine}
    (trace : Completes count machine last) :
    last.ticks = machine.ticks + Int64.ofNat count := by
  induction trace with
  | here machine => exact (Int64.add_zero machine.ticks).symm
  | @next count machine second last ticked rest ih =>
      have counted := ticks_tick machine
      rw [ticked] at counted
      calc last.ticks = second.ticks + Int64.ofNat count := ih
        _ = machine.ticks + Int64.ofNat 1 + Int64.ofNat count := by rw [counted]; rfl
        _ = machine.ticks + Int64.ofNat (count + 1) := by
            rw [Int64.add_assoc, ← Int64.ofNat_add, Nat.add_comm]

/-- A run has completed the ticks before its last one, and the last one too if it halted. -/
theorem ticks_of_endsRun {count : Nat} {machine last : Machine}
    (trace : Completes count machine last) (ending : EndsRun last machine.run) :
    machine.run.1.ticks =
      machine.ticks + Int64.ofNat (count + if machine.run.2 = none then 1 else 0) := by
  have completed := ticks_of_completes trace
  have counted := ticks_tick last
  rw [Int64.ofNat_add, ← Int64.add_assoc]
  generalize machine.run = result at ending ⊢
  obtain ⟨final, outcome⟩ := result
  cases outcome with
  | none =>
      have ticked : last.tick = (final, .halted) := ending
      rw [ticked, completed] at counted
      exact counted
  | some failure =>
      have ticked : last.tick = (final, .fault failure) := ending
      rw [ticked, completed] at counted
      exact counted

/-- Whatever makes a run fail, the run tells at which instruction. -/
theorem executing_of_run {machine : Machine} {failure : Failure}
    (failed : machine.run.2 = some failure) :
    ∃ address word reason, failure = .executing address word (.plain reason) := by
  obtain ⟨count, last, _, ending⟩ := exists_completes_endsRun machine
  generalize machine.run = result at failed ending
  obtain ⟨final, outcome⟩ := result
  cases failed
  obtain ⟨word, reason, same, _⟩ := exists_diagnosis ending
  exact ⟨last.counter, word, reason, same⟩

def fetched (machine : Machine) (count : Nat) : List Word :=
  (List.range count).filterMap fun index => (machine.after index).fetch.toOption

theorem fetched_succ (machine : Machine) (count : Nat) :
    machine.fetched (count + 1) =
      machine.fetched count ++ (machine.after count).fetch.toOption.toList := by
  unfold fetched
  rw [List.range_succ, List.filterMap_append, List.filterMap_cons, List.filterMap_nil]
  cases (machine.after count).fetch.toOption with
  | none => rfl
  | some word => rfl

theorem ne_zero_of_mem_fetched {machine : Machine} {count : Nat}
    (running : ∀ index, index < count → (machine.after index).tick.2 = .running) {word : Word}
    (member : word ∈ machine.fetched count) : word ≠ 0 := by
  obtain ⟨index, inside, same⟩ := List.mem_filterMap.mp member
  have completed := running index (List.mem_range.mp inside)
  have ends := ends_tick (machine.after index)
  generalize (machine.after index).tick = result at completed ends
  cases ends with
  | completes other after fetched nonzero counted =>
      rw [fetched] at same
      cases same
      exact nonzero
  | _ => cases completed

/-- The tick that ends a run halts exactly if the last word that the run fetched is zero. -/
theorem halted_iff_getLast?_fetched {machine last : Machine} {count : Nat}
    (trace : Completes count machine last) (ended : last.tick.2 ≠ .running) :
    last.tick.2 = .halted ↔ (machine.fetched (count + 1)).getLast? = some 0 := by
  obtain ⟨final, running⟩ := trace.after_eq
  have latest (word : Word) (fetched : last.fetch = .ok word) :
      (machine.fetched (count + 1)).getLast? = some word := by
    rw [fetched_succ, final, fetched]
    exact List.getLast?_concat
  have ends := ends_tick last
  generalize last.tick = result at ended ends
  cases ends with
  | strays beyond unfetched =>
      -- No word is fetched by the last tick; those before it completed, so none of them is zero.
      have unchanged : machine.fetched (count + 1) = machine.fetched count := by
        rw [fetched_succ, final, unfetched]
        exact List.append_nil _
      refine iff_of_false nofun ?_
      intro zero
      rw [unchanged] at zero
      exact ne_zero_of_mem_fetched running (List.mem_of_getLast? zero) rfl
  | halts fetched => exact iff_of_true rfl (latest 0 fetched)
  | completes word after fetched nonzero counted => exact absurd rfl ended
  | overflows word fetched operation full =>
      refine iff_of_false nofun ?_
      intro zero
      cases (latest word fetched).symm.trans zero
      cases operation
  | underflows fetched empty =>
      refine iff_of_false nofun ?_
      intro zero
      cases (latest 0x00EE fetched).symm.trans zero
  | refuses word fetched operation =>
      refine iff_of_false nofun ?_
      intro zero
      cases (latest word fetched).symm.trans zero
      cases operation

/-- A run reports the fault exactly, and the failing instruction has no effect. A run is a number
of ticks that complete and one that ends it. It is without a failure if and only if the last word
it fetched is zero, which the last tick finds in memory, and then it has completed one instruction
more; any failure is that of the last tick, told by the address, the word and the reason, and the
last tick completed nothing. -/
theorem run_reports (machine : Machine) :
    ∃ count last, Completes count machine last ∧
      (machine.run.2 = none ↔ (machine.fetched (count + 1)).getLast? = some 0) ∧
      (machine.run.2 = none →
        last.tick = (machine.run.1, .halted) ∧
        last.counter.toNat ≤ 0xFFE ∧
        0 = Word.ofBytes (last.memory.byte last.counter.toNat)
          (last.memory.byte (last.counter.toNat + 1)) ∧
        machine.run.1.ticks = machine.ticks + Int64.ofNat (count + 1)) ∧
      ∀ failure, machine.run.2 = some failure →
        last.tick = (machine.run.1, .fault failure) ∧
        machine.run.1.ticks = machine.ticks + Int64.ofNat count ∧
        ∃ word reason, failure = .executing last.counter word (.plain reason) ∧
          Diagnosis last machine.run.1 word reason := by
  obtain ⟨count, last, trace, ending⟩ := exists_completes_endsRun machine
  have completed := ticks_of_completes trace
  have counted := ticks_tick last
  have halted := halted_iff_getLast?_fetched trace
  refine ⟨count, last, trace, ?_⟩
  cases outcome : machine.run with
  | mk final failure =>
      rw [outcome] at ending
      cases failure with
      | none =>
          have ticked : last.tick = (final, .halted) := ending
          rw [ticked] at halted counted
          refine ⟨iff_of_true rfl ((halted nofun).mp rfl), ?_, nofun⟩
          intro _
          obtain ⟨inside, bytes⟩ := ofBytes_of_fetch (fetch_of_halted ticked)
          refine ⟨ticked, inside, bytes, ?_⟩
          rw [counted, completed, Int64.ofNat_add]
          exact Int64.add_assoc _ _ _
      | some failure =>
          have ticked : last.tick = (final, .fault failure) := ending
          rw [ticked] at halted counted
          have other : (machine.fetched (count + 1)).getLast? ≠ some 0 := by
            intro zero
            cases (halted nofun).mpr zero
          refine ⟨iff_of_false nofun other, nofun, ?_⟩
          intro reported same
          cases same
          refine ⟨ticked, ?_, exists_diagnosis ticked⟩
          rw [counted, completed]
          exact Int64.add_zero _

end Nibble.Machine
