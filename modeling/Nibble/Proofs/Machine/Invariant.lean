import Nibble.Proofs.Machine.Checked
import Nibble.Proofs.Machine.Fault
import Nibble.Proofs.Machine.Nesting

set_option autoImplicit false

/-! What holds of a machine whatever is done to it from power-up on. The bounds on the program
counter and on the return addresses need each other: a return address is a program counter that a
call has saved, and a return puts it back. -/

namespace Nibble

inductive Action where
  | reset
  | load (origin : UInt16) (image : List UInt8)
  | tick
  | run
deriving DecidableEq, Repr

namespace Machine

/-- The machine after an action. An image that does not fit leaves it as it is. -/
def act (machine : Machine) : Action → Machine
  | .reset => initial
  | .load origin image =>
      match machine.load origin image with
      | .ok loaded => loaded
      | .error _ => machine
  | .tick => machine.tick.1
  | .run => machine.run.1

def perform (machine : Machine) (actions : List Action) : Machine :=
  actions.foldl act machine

/-! ### Bounds -/

structure Sound (machine : Machine) : Prop where
  depth : machine.stack.pointer ≤ 16
  entries : ∀ address ∈ machine.stack.frames, 2 ≤ address.toNat ∧ address.toNat ≤ 0x1000
  counter : machine.counter.toNat ≤ 0x1002

theorem sound_initial : initial.Sound := by
  refine ⟨Nat.zero_le _, ?_, Nat.zero_le _⟩
  intro address member
  cases member

theorem sound_load {machine loaded : Machine} {origin : UInt16} {image : List UInt8}
    (sound : machine.Sound) (accepted : machine.load origin image = .ok loaded) :
    loaded.Sound := by
  unfold load at accepted
  by_cases large : origin.toNat + image.length > Memory.size
  · rw [if_pos large] at accepted
    cases accepted
  · rw [if_neg large] at accepted
    cases accepted
    refine ⟨sound.depth, sound.entries, ?_⟩
    change ¬ origin.toNat + image.length > 4096 at large
    change origin.toNat ≤ 0x1002
    omega

theorem toNat_add_of_lt {address step : UInt16} (small : address.toNat + step.toNat < 65536) :
    (address + step).toNat = address.toNat + step.toNat := by
  rw [UInt16.toNat_add]
  exact Nat.mod_eq_of_lt small

/-- Where the instructions of the table go on: with the next word or the one behind it, inside the
memory that a call can name, or at a return address. -/
theorem counter_outcome {machine : Machine} (pattern : Pattern)
    (inside : machine.counter.toNat ≤ 0xFFE)
    (entries : ∀ address ∈ machine.stack.frames, 2 ≤ address.toNat ∧ address.toNat ≤ 0x1000) :
    (pattern.outcome machine).1.counter.toNat ≤ 0x1002 := by
  have next : (machine.counter + 2).toNat = machine.counter.toNat + 2 :=
    toNat_add_of_lt (show machine.counter.toNat + 2 < 65536 by omega)
  have further : (machine.counter + 4).toNat = machine.counter.toNat + 4 :=
    toNat_add_of_lt (show machine.counter.toNat + 4 < 65536 by omega)
  have onward : (machine.counter + 2).toNat ≤ 0x1002 := by omega
  cases pattern with
  | halt => exact onward
  | ret =>
      unfold Pattern.outcome
      dsimp only
      cases top : machine.stack.frames.getLast? with
      | none => exact onward
      | some address =>
          have bounds := entries address (List.mem_of_getLast? top)
          exact Nat.le_trans bounds.2 (by decide)
  | call address =>
      unfold Pattern.outcome
      dsimp only
      split
      · have low := address.isLt
        change (UInt16.ofNat address).toNat ≤ 0x1002
        rw [UInt16.toNat_ofNat']
        omega
      · exact onward
  | skipEqual x immediate | skipUnequal x immediate =>
      unfold Pattern.outcome
      dsimp only [Pattern.resumed]
      split
      · omega
      · omega
  | load x immediate | add x immediate | copy x y | or x y | and x y | xor x y | sum x y =>
      exact onward

theorem counter_tick {machine : Machine} (sound : machine.Sound) :
    machine.tick.1.counter.toNat ≤ 0x1002 := by
  rcases fetch_cases machine with ⟨inside, fetched⟩ | ⟨_, unfetched⟩
  · generalize Word.ofBytes _ _ = word at fetched
    by_cases unknown : word.operation = .unknown
    · rw [tick_of_unknown fetched unknown]
      have next : (machine.counter + 2).toNat = machine.counter.toNat + 2 :=
        toNat_add_of_lt (show machine.counter.toNat + 2 < 65536 by omega)
      change (machine.counter + 2).toNat ≤ 0x1002
      omega
    · obtain ⟨pattern, same⟩ := Word.exists_pattern unknown
      rw [tick_of_pattern fetched same]
      exact counter_outcome pattern inside sound.entries
  · simp only [tick, unfetched]
    exact sound.counter

theorem counter_le_of_running {machine after : Machine}
    (ticked : machine.tick = (after, .running)) : machine.counter.toNat ≤ 0xFFE := by
  rcases fetch_cases machine with ⟨inside, _⟩ | ⟨_, unfetched⟩
  · exact inside
  · simp only [tick, unfetched] at ticked
    cases ticked

theorem stack_of_stopped {machine : Machine} (stopped : machine.tick.2 ≠ .running) :
    machine.tick.1.stack = machine.stack := by
  have ends := ends_tick machine
  generalize machine.tick = result at stopped ends ⊢
  cases ends with
  | completes word after fetched nonzero counted => exact absurd rfl stopped
  | _ => rfl

theorem entries_tick {machine : Machine} (sound : machine.Sound) :
    ∀ address ∈ machine.tick.1.stack.frames, 2 ≤ address.toNat ∧ address.toNat ≤ 0x1000 := by
  by_cases running : machine.tick.2 = .running
  · have ticked : machine.tick = (machine.tick.1, .running) := Prod.ext rfl running
    have inside := counter_le_of_running ticked
    have next : (machine.counter + 2).toNat = machine.counter.toNat + 2 :=
      toNat_add_of_lt (show machine.counter.toNat + 2 < 65536 by omega)
    rcases frames_of_tick ticked with same | pushed | popped
    · rw [same]
      exact sound.entries
    · intro address member
      rw [pushed] at member
      rcases List.mem_append.mp member with before | added
      · exact sound.entries address before
      · rw [List.mem_singleton.mp added]
        omega
    · -- What is left below the entry that was taken was live before.
      intro address member
      apply sound.entries
      rw [popped]
      exact List.mem_append_left _ member
  · rw [stack_of_stopped running]
    exact sound.entries

theorem sound_tick {machine : Machine} (sound : machine.Sound) : machine.tick.1.Sound :=
  ⟨machine.tick.1.stack.pointer_le, entries_tick sound, counter_tick sound⟩

theorem sound_act {machine : Machine} (sound : machine.Sound) (action : Action) :
    (machine.act action).Sound := by
  cases action with
  | reset => exact sound_initial
  | load origin image =>
      unfold act
      dsimp only
      cases accepted : machine.load origin image with
      | ok loaded => exact sound_load sound accepted
      | error failure => exact sound
  | tick => exact sound_tick sound
  | run => exact run_keeps (fun _ => sound_tick) sound

theorem sound_perform {machine : Machine} (sound : machine.Sound) (actions : List Action) :
    (machine.perform actions).Sound := by
  unfold perform
  induction actions generalizing machine with
  | nil => exact sound
  | cons action rest ih => exact ih (sound_act sound action)

/-! ### Memory -/

theorem memory_run (machine : Machine) : machine.run.1.memory = machine.memory := by
  refine @run_keeps (fun later => later.memory = machine.memory) ?_ machine rfl
  intro later kept
  exact (memory_tick later).trans kept

theorem cause_of_memory_change {machine : Machine} {action : Action}
    (changed : (machine.act action).memory ≠ machine.memory) :
    action = .reset ∨ ∃ origin image, action = .load origin image := by
  cases action with
  | reset => exact .inl rfl
  | load origin image => exact .inr ⟨origin, image, rfl⟩
  | tick => exact absurd (memory_tick machine) changed
  | run => exact absurd (memory_run machine) changed

/-! ### The count of instructions -/

def runSignals (machine : Machine) : List Signal :=
  match ticked : machine.tick with
  | (after, .running) =>
      have := weight_lt_of_tick machine after ticked
      .running :: after.runSignals
  | (_, .halted) => [.halted]
  | (_, .fault failure) => [.fault failure]
termination_by machine.weight

def signals (machine : Machine) : Action → List Signal
  | .reset | .load _ _ => []
  | .tick => [machine.tick.2]
  | .run => machine.runSignals

/-- What the ticks since the last reset report, given what those before the actions did. -/
def signalsSince (machine : Machine) (earlier : List Signal) : List Action → List Signal
  | [] => earlier
  | .reset :: rest => (machine.act .reset).signalsSince [] rest
  | action :: rest => (machine.act action).signalsSince (earlier ++ machine.signals action) rest

theorem runSignals_eq (machine : Machine) :
    machine.runSignals =
      match machine.tick with
      | (after, .running) => .running :: after.runSignals
      | (_, signal) => [signal] := by
  rw [runSignals]
  split
  · next found => simp only [found]
  · next found => simp only [found]
  · next found => simp only [found]

/-- How many of these ticks completed: they report that the machine runs on or that it halted. -/
def completions (signals : List Signal) : Nat :=
  signals.countP fun signal => signal = .running ∨ signal = .halted

theorem completions_append (earlier later : List Signal) :
    completions (earlier ++ later) = completions earlier + completions later :=
  List.countP_append

theorem completions_singleton (signal : Signal) : completions [signal] = signal.completed := by
  cases signal with
  | running | halted => rfl
  | fault failure => rfl

theorem ticks_run (machine : Machine) :
    machine.run.1.ticks = machine.ticks + Int64.ofNat (completions machine.runSignals) := by
  induction machine using run_induction with
  | step machine ih =>
      have counted := ticks_tick machine
      rw [run_eq, runSignals_eq]
      cases ticked : machine.tick with
      | mk after signal =>
          rw [ticked] at counted
          cases signal with
          | running =>
              have rest := ih after ticked
              have split : completions (.running :: after.runSignals) =
                  1 + completions after.runSignals := completions_append [.running] _
              dsimp only at counted ⊢
              rw [rest, counted, split, Int64.ofNat_add, Int64.add_assoc]
              rfl
          | halted => exact counted
          | fault failure => exact counted

theorem ticks_act {machine : Machine} {action : Action} (other : action ≠ .reset) :
    (machine.act action).ticks =
      machine.ticks + Int64.ofNat (completions (machine.signals action)) := by
  cases action with
  | reset => exact absurd rfl other
  | load origin image =>
      unfold act load
      dsimp only
      split
      · next accepted =>
        split at accepted
        · cases accepted
        · cases accepted
          exact (Int64.add_zero machine.ticks).symm
      · exact (Int64.add_zero machine.ticks).symm
  | tick =>
      rw [signals, completions_singleton]
      exact ticks_tick machine
  | run => exact ticks_run machine

theorem ticks_perform {machine : Machine} {earlier : List Signal}
    (counted : machine.ticks = Int64.ofNat (completions earlier)) (actions : List Action) :
    (machine.perform actions).ticks =
      Int64.ofNat (completions (machine.signalsSince earlier actions)) := by
  unfold perform
  induction actions generalizing machine earlier with
  | nil => exact counted
  | cons action rest ih =>
      rw [List.foldl_cons]
      by_cases again : action = .reset
      · subst again
        exact ih rfl
      · have here : (machine.act action).ticks =
            Int64.ofNat (completions (earlier ++ machine.signals action)) := by
          rw [ticks_act again, counted, completions_append, Int64.ofNat_add]
        have unfolded : machine.signalsSince earlier (action :: rest) =
            (machine.act action).signalsSince (earlier ++ machine.signals action) rest := by
          cases action with
          | reset => exact absurd rfl again
          | load origin image | tick | run => rfl
        rw [unfolded]
        exact ih here

/-! ### The invariant -/

/-- Whatever is done to a machine from power-up on, its call depth, its return addresses and its
program counter keep their bounds. So adding to the program counter never wraps, neither for the
fetched word nor for a skipped one, and no tick looks anything up out of range. Only resets and
loads change the memory, and the count of instructions is the number of ticks since the last reset,
those inside runs among them, that completed or halted, as far as 64 bits hold it. -/
theorem perform_invariant (actions : List Action) :
    let machine := initial.perform actions
    machine.Sound ∧
      machine.skip.counter.toNat = machine.counter.toNat + 2 ∧
      machine.skip.skip.counter.toNat = machine.counter.toNat + 4 ∧
      machine.tickChecked = some machine.tick ∧
      (∀ action, (machine.act action).memory ≠ machine.memory →
        action = .reset ∨ ∃ origin image, action = .load origin image) ∧
      machine.ticks = Int64.ofNat (completions (initial.signalsSince [] actions)) := by
  intro machine
  have sound : machine.Sound := sound_perform sound_initial actions
  have low := sound.counter
  have once : machine.skip.counter.toNat = machine.counter.toNat + 2 :=
    toNat_add_of_lt (show machine.counter.toNat + 2 < 65536 by omega)
  have twice : machine.skip.skip.counter.toNat = machine.skip.counter.toNat + 2 :=
    toNat_add_of_lt (show machine.skip.counter.toNat + 2 < 65536 by omega)
  refine ⟨sound, once, by omega, tickChecked_eq machine, ?_, ticks_perform rfl actions⟩
  intro action changed
  exact cause_of_memory_change changed

end Machine

end Nibble
