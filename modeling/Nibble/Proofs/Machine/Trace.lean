import Nibble.Machine.Run

set_option autoImplicit false

/-! Traces of the machine: ticks in a row that all complete. A trace uses up weight at every tick,
so none is longer than the weight it starts with, and a run is the one trace that cannot be
continued followed by the tick that ends it. -/

namespace Nibble.Machine

/-- So many ticks in a row, all of which complete. -/
inductive Completes : Nat → Machine → Machine → Prop where
  | here (machine : Machine) : Completes 0 machine machine
  | next {count : Nat} {machine after last : Machine}
      (ticked : machine.tick = (after, .running)) (rest : Completes count after last) :
      Completes (count + 1) machine last

theorem Completes.weight_le {count : Nat} {machine last : Machine}
    (trace : Completes count machine last) : count + last.weight ≤ machine.weight := by
  induction trace with
  | here machine => exact Nat.le_of_eq (Nat.zero_add _)
  | next ticked rest ih =>
      have less := weight_lt_of_tick _ _ ticked
      omega

/-! ### The states of a run -/

def after (machine : Machine) : Nat → Machine
  | 0 => machine
  | count + 1 => (machine.after count).tick.1

theorem after_succ (machine : Machine) (count : Nat) :
    machine.after (count + 1) = machine.tick.1.after count := by
  induction count with
  | zero => rfl
  | succ count ih => exact congrArg (fun state : Machine => state.tick.1) ih

/-- A trace goes through the states of the run, and every tick before its end completes. -/
theorem Completes.after_eq {count : Nat} {machine last : Machine}
    (trace : Completes count machine last) :
    machine.after count = last ∧
      ∀ index, index < count → (machine.after index).tick.2 = .running := by
  induction trace with
  | here machine => exact ⟨rfl, fun index before => absurd before (Nat.not_lt_zero index)⟩
  | @next count machine second last ticked rest ih =>
      have first : machine.tick.1 = second := congrArg Prod.fst ticked
      refine ⟨?_, ?_⟩
      · rw [after_succ, first]
        exact ih.1
      · intro index before
        cases index with
        | zero => exact congrArg Prod.snd ticked
        | succ index =>
            rw [after_succ, first]
            exact ih.2 index (Nat.lt_of_succ_lt_succ before)

/-! ### How a run ends -/

theorem run_eq (machine : Machine) :
    machine.run =
      match machine.tick with
      | (after, .running) => after.run
      | (after, .halted) => (after, none)
      | (after, .fault failure) => (after, some failure) := by
  rw [run]
  split
  · next found => simp only [found]
  · next found => simp only [found]
  · next found => simp only [found]

/-- The tick that ends a run: a halt, or a fault that the run reports. -/
def EndsRun (last : Machine) : Machine × Option Failure → Prop
  | (final, none) => last.tick = (final, .halted)
  | (final, some failure) => last.tick = (final, .fault failure)

/-- What holds of a machine whenever it holds after a tick of it that completes, holds of every
machine: each such tick lowers the weight. -/
theorem run_induction {motive : Machine → Prop}
    (step : ∀ machine : Machine,
      (∀ after, machine.tick = (after, .running) → motive after) → motive machine)
    (machine : Machine) : motive machine := by
  induction bound : machine.weight using Nat.strongRecOn generalizing machine with
  | ind weight ih =>
      subst bound
      apply step
      intro after ticked
      exact ih after.weight (weight_lt_of_tick _ _ ticked) after rfl

/-- A run is a trace and one further tick, which ends it. -/
theorem exists_completes_endsRun (machine : Machine) :
    ∃ count last, Completes count machine last ∧ EndsRun last machine.run := by
  induction machine using run_induction with
  | step machine ih =>
      rw [run_eq]
      cases ticked : machine.tick with
      | mk after signal =>
          cases signal with
          | running =>
              obtain ⟨count, last, rest, ending⟩ := ih after ticked
              exact ⟨count + 1, last, .next ticked rest, ending⟩
          | halted => exact ⟨0, machine, .here machine, ticked⟩
          | fault failure => exact ⟨0, machine, .here machine, ticked⟩

/-- What every tick keeps, a run keeps. -/
theorem run_keeps {property : Machine → Prop}
    (kept : ∀ machine, property machine → property machine.tick.1) {machine : Machine}
    (holds : property machine) : property machine.run.1 := by
  induction machine using run_induction with
  | step machine ih =>
      have next := kept machine holds
      rw [run_eq]
      cases ticked : machine.tick with
      | mk after signal =>
          rw [ticked] at next
          cases signal with
          | running => exact ih after ticked next
          | halted => exact next
          | fault failure => exact next

theorem completes_of_sequence (states : Nat → Machine)
    (ticks : ∀ index, (states index).tick = (states (index + 1), .running)) (start count : Nat) :
    Completes count (states start) (states (start + count)) := by
  induction count generalizing start with
  | zero => exact .here _
  | succ count ih =>
      refine .next (ticks start) ?_
      have rest := ih (start + 1)
      rwa [Nat.add_right_comm start 1 count] at rest

/-- Every run ends. Whatever the machine holds, a number of ticks complete, no more than its
weight, and the tick after them halts or fails with what the run reports; so there is no infinite
sequence of ticks that all complete. -/
theorem run_ends (machine : Machine) :
    (∃ count last, count ≤ machine.weight ∧ Completes count machine last ∧
      (last.tick = (machine.run.1, .halted) ∧ machine.run.2 = none ∨
        ∃ failure, last.tick = (machine.run.1, .fault failure) ∧
          machine.run.2 = some failure)) ∧
    ¬ ∃ states : Nat → Machine, states 0 = machine ∧
      ∀ index, (states index).tick = (states (index + 1), .running) := by
  constructor
  · obtain ⟨count, last, trace, ending⟩ := exists_completes_endsRun machine
    have used := trace.weight_le
    refine ⟨count, last, by omega, trace, ?_⟩
    cases outcome : machine.run with
    | mk final failure =>
        rw [outcome] at ending
        cases failure with
        | none => exact .inl ⟨ending, rfl⟩
        | some failure => exact .inr ⟨failure, ending, rfl⟩
  · rintro ⟨states, rfl, ticks⟩
    have trace := completes_of_sequence states ticks 0 ((states 0).weight + 1)
    have used := trace.weight_le
    omega

end Nibble.Machine
