import Nibble.Machine.Basic
import Nibble.Proofs.Instruction

set_option autoImplicit false

/-! The instruction table. Every pattern of the table is given as the number of the words that have
it, and what it prescribes is given field by field for the machine after a tick. One tick of the
machine does what the table prescribes for the pattern of the word at the program counter, and a
word without a pattern is refused. -/

namespace Nibble

/-- The patterns of the table, with the operands that a word of the pattern has. -/
inductive Pattern where
  | halt
  | ret
  | call (address : Fin 4096)
  | skipEqual (x : Fin 16) (immediate : Fin 256)
  | skipUnequal (x : Fin 16) (immediate : Fin 256)
  | load (x : Fin 16) (immediate : Fin 256)
  | add (x : Fin 16) (immediate : Fin 256)
  | copy (x y : Fin 16)
  | or (x y : Fin 16)
  | and (x y : Fin 16)
  | xor (x y : Fin 16)
  | sum (x y : Fin 16)
deriving DecidableEq, Repr

namespace Pattern

def word : Pattern → Nat
  | halt => 0x0000
  | ret => 0x00EE
  | call address => 0x2000 + address
  | skipEqual x immediate => 0x3000 + 0x100 * x + immediate
  | skipUnequal x immediate => 0x4000 + 0x100 * x + immediate
  | load x immediate => 0x6000 + 0x100 * x + immediate
  | add x immediate => 0x7000 + 0x100 * x + immediate
  | copy x y => 0x8000 + 0x100 * x + 0x10 * y
  | or x y => 0x8001 + 0x100 * x + 0x10 * y
  | and x y => 0x8002 + 0x100 * x + 0x10 * y
  | xor x y => 0x8003 + 0x100 * x + 0x10 * y
  | sum x y => 0x8004 + 0x100 * x + 0x10 * y

def family : Pattern → Nat
  | halt | ret => 0
  | call _ => 2
  | skipEqual _ _ => 3
  | skipUnequal _ _ => 4
  | load _ _ => 6
  | add _ _ => 7
  | copy _ _ | or _ _ | and _ _ | xor _ _ | sum _ _ => 8

def operation : Pattern → Operation
  | halt => .halt
  | ret => .ret
  | call _ => .call
  | skipEqual _ _ => .skipEqual
  | skipUnequal _ _ => .skipUnequal
  | load _ _ => .load
  | add _ _ => .add
  | copy _ _ => .copy
  | or _ _ => .or
  | and _ _ => .and
  | xor _ _ => .xor
  | sum _ _ => .sum

def targets : Pattern → List (Fin 16)
  | load x _ | add x _ | copy x _ | or x _ | and x _ | xor x _ => [x]
  | sum x _ => [x, 0xF]
  | _ => []

/-- The machine after an instruction that goes on at an address. -/
def resumed (before : Machine) (counter : UInt16) : Machine :=
  { before with counter, ticks := before.ticks + 1 }

def rewritten (before : Machine) (value : Fin 16 → UInt8) : Machine :=
  { resumed before (before.counter + 2) with registers := Vector.ofFn value }

def assigned (before : Machine) (x : Fin 16) (value : UInt8) : Machine :=
  rewritten before fun index => if index = x then value else before.get index

def refused (before : Machine) (word : Word) (reason : Reason) : Machine × Signal :=
  ({ before with counter := before.counter + 2 },
    .fault (.executing before.counter word (.plain reason)))

def outcome (pattern : Pattern) (before : Machine) : Machine × Signal :=
  match pattern with
  | halt => (resumed before (before.counter + 2), .halted)
  | ret =>
      match before.stack.frames.getLast? with
      | none => refused before (UInt16.ofNat ret.word) .stackUnderflow
      | some address =>
          ({ resumed before address with
              stack :=
                { before.stack with
                  pointer := before.stack.pointer - 1
                  pointer_le := Nat.le_trans (Nat.sub_le _ _) before.stack.pointer_le } },
            .running)
  | call address =>
      if room : before.stack.pointer < 16 then
        ({ resumed before (UInt16.ofNat address) with
            stack :=
              { slots := Vector.ofFn fun index =>
                  if index.val = before.stack.pointer then before.counter + 2
                  else before.stack.slots[index]
                pointer := before.stack.pointer + 1
                pointer_le := room } },
          .running)
      else refused before (UInt16.ofNat (call address).word) .stackOverflow
  | skipEqual x immediate =>
      (resumed before
        (before.counter + if (before.get x).toNat = immediate then 4 else 2), .running)
  | skipUnequal x immediate =>
      (resumed before
        (before.counter + if (before.get x).toNat = immediate then 2 else 4), .running)
  | load x immediate => (assigned before x (UInt8.ofNat immediate), .running)
  | add x immediate =>
      (assigned before x (UInt8.ofNat (((before.get x).toNat + immediate % 16) % 256)), .running)
  | copy x y => (assigned before x (before.get y), .running)
  | or x y => (assigned before x (before.get x ||| before.get y), .running)
  | and x y => (assigned before x (before.get x &&& before.get y), .running)
  | xor x y => (assigned before x (before.get x ^^^ before.get y), .running)
  | sum x y =>
      (rewritten before fun index =>
        if index = 0xF then
          if 256 ≤ (before.get x).toNat + (before.get y).toNat then 1 else 0
        else if index = x then UInt8.ofNat (((before.get x).toNat + (before.get y).toNat) % 256)
        else before.get index,
        .running)

end Pattern

/-! ### Patterns and operations -/

theorem Pattern.word_div (pattern : Pattern) : pattern.word / 4096 = pattern.family := by
  cases pattern with
  | halt | ret => rfl
  | call address =>
      simp only [word, family]
      omega
  | skipEqual x immediate | skipUnequal x immediate | load x immediate | add x immediate =>
      simp only [word, family]
      omega
  | copy x y | or x y | and x y | xor x y | sum x y =>
      simp only [word, family]
      omega

namespace Word

theorem operation_of_pattern {word : Word} {pattern : Pattern}
    (same : pattern.word = word.toNat) : word.operation = pattern.operation := by
  have family : word.toNat / 4096 = pattern.family := by
    rw [← same, pattern.word_div]
  cases pattern with
  | halt =>
      have zero : word = 0x0000 := UInt16.toNat_inj.mp same.symm
      rw [zero]
      rfl
  | ret =>
      have number : word = 0x00EE := UInt16.toNat_inj.mp same.symm
      rw [number]
      rfl
  | call address => simp only [operation, family, Pattern.family, Pattern.operation]
  | skipEqual x immediate | skipUnequal x immediate | load x immediate | add x immediate =>
      simp only [operation, family, Pattern.family, Pattern.operation]
  | copy x y =>
      have last : word.toNat % 16 = 0 := by rw [← same, Pattern.word]; omega
      simp only [operation, family, Pattern.family, last, Pattern.operation]
  | or x y =>
      have last : word.toNat % 16 = 1 := by rw [← same, Pattern.word]; omega
      simp only [operation, family, Pattern.family, last, Pattern.operation]
  | and x y =>
      have last : word.toNat % 16 = 2 := by rw [← same, Pattern.word]; omega
      simp only [operation, family, Pattern.family, last, Pattern.operation]
  | xor x y =>
      have last : word.toNat % 16 = 3 := by rw [← same, Pattern.word]; omega
      simp only [operation, family, Pattern.family, last, Pattern.operation]
  | sum x y =>
      have last : word.toNat % 16 = 4 := by rw [← same, Pattern.word]; omega
      simp only [operation, family, Pattern.family, last, Pattern.operation]

/-- A word by its digits: the family, and either a register and a byte or two registers and a last
digit. -/
theorem exists_digits (word : Word) :
    ∃ (x : Fin 16) (immediate : Fin 256) (y : Fin 16),
      word.toNat = 4096 * (word.toNat / 4096) + 256 * x + immediate ∧
      word.toNat = 4096 * (word.toNat / 4096) + 256 * x + 16 * y + word.toNat % 16 := by
  refine ⟨⟨word.toNat / 256 % 16, Nat.mod_lt _ (by decide)⟩,
    ⟨word.toNat % 256, Nat.mod_lt _ (by decide)⟩,
    ⟨word.toNat / 16 % 16, Nat.mod_lt _ (by decide)⟩, ?_, ?_⟩
  · dsimp only
    omega
  · dsimp only
    omega

theorem exists_pattern {word : Word} (known : word.operation ≠ .unknown) :
    ∃ pattern : Pattern, pattern.word = word.toNat := by
  have encodes := encodes_operation word
  obtain ⟨x, immediate, y, bytes, digits⟩ := exists_digits word
  generalize word.operation = operation at known encodes
  cases operation with
  | unknown => exact absurd rfl known
  | unlisted number => exact encodes.elim
  | halt => exact ⟨.halt, congrArg UInt16.toNat encodes.symm⟩
  | ret => exact ⟨.ret, congrArg UInt16.toNat encodes.symm⟩
  | call =>
      exact ⟨.call ⟨word.toNat % 4096, Nat.mod_lt _ (by decide)⟩,
        by simp only [Pattern.word, Encodes] at encodes ⊢; omega⟩
  | skipEqual =>
      exact ⟨.skipEqual x immediate, by simp only [Pattern.word, Encodes] at encodes ⊢; omega⟩
  | skipUnequal =>
      exact ⟨.skipUnequal x immediate, by simp only [Pattern.word, Encodes] at encodes ⊢; omega⟩
  | load => exact ⟨.load x immediate, by simp only [Pattern.word, Encodes] at encodes ⊢; omega⟩
  | add => exact ⟨.add x immediate, by simp only [Pattern.word, Encodes] at encodes ⊢; omega⟩
  | copy => exact ⟨.copy x y, by simp only [Pattern.word, Encodes] at encodes ⊢; omega⟩
  | or => exact ⟨.or x y, by simp only [Pattern.word, Encodes] at encodes ⊢; omega⟩
  | and => exact ⟨.and x y, by simp only [Pattern.word, Encodes] at encodes ⊢; omega⟩
  | xor => exact ⟨.xor x y, by simp only [Pattern.word, Encodes] at encodes ⊢; omega⟩
  | sum => exact ⟨.sum x y, by simp only [Pattern.word, Encodes] at encodes ⊢; omega⟩

/-- The words that stand for no instruction are those without a pattern. -/
theorem operation_eq_unknown_iff (word : Word) :
    word.operation = .unknown ↔ ∀ pattern : Pattern, pattern.word ≠ word.toNat := by
  constructor
  · intro unknown pattern same
    rw [operation_of_pattern same] at unknown
    cases pattern <;> cases unknown
  · intro unmatched
    by_cases known : word.operation = .unknown
    · exact known
    · obtain ⟨pattern, same⟩ := exists_pattern known
      exact absurd same (unmatched pattern)

end Word

/-! ### The handlers -/

namespace Machine

theorem register_x {word : Word} {x : Fin 16} (digit : word.toNat / 256 % 16 = x) :
    register word.x = .ok x := by
  have index : word.x.toNat = x := (Word.toNat_x word).trans digit
  simp only [register, index, x.isLt, dite_true]

theorem register_y {word : Word} {y : Fin 16} (digit : word.toNat / 16 % 16 = y) :
    register word.y = .ok y := by
  have index : word.y.toNat = y := (Word.toNat_y word).trans digit
  simp only [register, index, y.isLt, dite_true]

def handle (machine : Machine) : Pattern → Except Failure Machine
  | .halt => .error (.plain .halt)
  | .ret => machine.ret
  | .call address => machine.call (UInt16.ofNat address)
  | .skipEqual x immediate => .ok (machine.skipEqual x (UInt8.ofNat immediate))
  | .skipUnequal x immediate => .ok (machine.skipUnequal x (UInt8.ofNat immediate))
  | .load x immediate => .ok (machine.set x (UInt8.ofNat immediate))
  | .add x immediate => .ok (machine.add x (UInt8.ofNat (immediate % 16)))
  | .copy x y => .ok (machine.combine (fun _ source => source) x y)
  | .or x y => .ok (machine.combine (· ||| ·) x y)
  | .and x y => .ok (machine.combine (· &&& ·) x y)
  | .xor x y => .ok (machine.combine (· ^^^ ·) x y)
  | .sum x y => .ok (machine.sum x y)

/-- Decoding a word and executing it is the handler of its pattern. -/
theorem execute_of_pattern (machine : Machine) {word : Word} {pattern : Pattern}
    (same : pattern.word = word.toNat) : machine.execute word.decode = machine.handle pattern := by
  have operation := Word.operation_of_pattern same
  cases pattern with
  | halt | ret => simp only [execute, Word.decode, operation, Pattern.operation, handle]
  | call address =>
      have target : word.address = UInt16.ofNat address := by
        rw [Word.address, ← same, Pattern.word]
        congr 1
        omega
      simp only [execute, Word.decode, operation, Pattern.operation, target, handle]
  | skipEqual x immediate | skipUnequal x immediate | load x immediate =>
      have known : register word.x = .ok x := register_x (by rw [← same, Pattern.word]; omega)
      have byte : word.immediate = UInt8.ofNat immediate := by
        rw [Word.immediate, ← same, Pattern.word]
        congr 1
        omega
      simp only [execute, Word.decode, operation, Pattern.operation, known, byte, handle]
      rfl
  | add x immediate =>
      have known : register word.x = .ok x := register_x (by rw [← same, Pattern.word]; omega)
      have nibble : word.n = UInt8.ofNat (immediate % 16) := by
        rw [Word.n, ← same, Pattern.word]
        congr 1
        omega
      simp only [execute, Word.decode, operation, Pattern.operation, known, nibble, handle]
      rfl
  | copy x y | or x y | and x y | xor x y | sum x y =>
      have first : register word.x = .ok x := register_x (by rw [← same, Pattern.word]; omega)
      have second : register word.y = .ok y := register_y (by rw [← same, Pattern.word]; omega)
      simp only [execute, Word.decode, operation, Pattern.operation, first, second, handle]
      rfl

theorem execute_of_unknown (machine : Machine) {word : Word} (unknown : word.operation = .unknown) :
    machine.execute word.decode = .error (.plain .unimplemented) := by
  simp only [execute, Word.decode, unknown]

theorem get_eq (machine : Machine) (index : Fin 16) :
    machine.get index = machine.registers[index] := rfl

theorem get_set (machine : Machine) (x index : Fin 16) (value : UInt8) :
    (machine.set x value).get index = if index = x then value else machine.get index := by
  by_cases same : index = x
  · simp [set, get_eq, same]
  · have different : x.val ≠ index.val := fun equal => same (Fin.ext equal.symm)
    simp [set, get_eq, same, different]

theorem get_skip (machine : Machine) (index : Fin 16) :
    machine.skip.get index = machine.get index := rfl

theorem resumed_of_skip (machine : Machine) :
    { machine.skip.skip with ticks := machine.skip.skip.ticks + 1 } =
      Pattern.resumed machine (machine.counter + 4) := by
  have counter : machine.counter + 2 + 2 = machine.counter + 4 := UInt16.add_assoc _ _ _
  exact congrArg (Pattern.resumed machine) counter

theorem eq_ofNat_iff (byte : UInt8) (number : Fin 256) :
    byte = UInt8.ofNat number ↔ byte.toNat = number := by
  rw [← UInt8.toNat_inj, UInt8.toNat_ofNat', Nat.mod_eq_of_lt number.isLt]

theorem rewritten_of_get {machine after : Machine} {value : Fin 16 → UInt8}
    (rest : after = { machine.skip with registers := after.registers })
    (values : ∀ index, after.get index = value index) :
    { after with ticks := after.ticks + 1 } = Pattern.rewritten machine value := by
  have registers : after.registers = Vector.ofFn value := by
    apply Vector.ext
    intro index inside
    rw [Vector.getElem_ofFn]
    exact values ⟨index, inside⟩
  rw [rest, registers]
  rfl

theorem assigned_of_set (machine : Machine) (x : Fin 16) (value : UInt8) :
    { machine.skip.set x value with ticks := machine.ticks + 1 } =
      Pattern.assigned machine x value :=
  rewritten_of_get rfl (get_set machine.skip x · value)

theorem peek?_eq_getLast? (stack : CallStack) : stack.peek? = stack.frames.getLast? := by
  have bound := stack.pointer_le
  unfold CallStack.peek? CallStack.frames
  rw [List.getLast?_take]
  by_cases live : 0 < stack.pointer
  · have inside : stack.pointer - 1 < 16 := by omega
    simp [live, inside, Nat.ne_of_gt live]
  · simp [Nat.eq_zero_of_not_pos live]

theorem slots_push (slots : Vector UInt16 16) (pointer : Nat) (room : pointer < 16)
    (address : UInt16) :
    slots.set pointer address =
      Vector.ofFn fun index => if index.val = pointer then address else slots[index] := by
  apply Vector.ext
  intro index inside
  rw [Vector.getElem_ofFn, Vector.getElem_set]
  by_cases same : pointer = index
  · simp [same]
  · simp [same, Ne.symm same]

/-! ### One tick -/

theorem tick_of_executed {machine after : Machine} {word : Word}
    (fetched : machine.fetch = .ok word) (executed : machine.skip.execute word.decode = .ok after) :
    machine.tick = ({ after with ticks := after.ticks + 1 }, .running) := by
  simp only [tick, fetched, executed]

theorem tick_of_refused {machine : Machine} {word : Word} {reason : Reason}
    (fetched : machine.fetch = .ok word)
    (refused : machine.skip.execute word.decode = .error (.plain reason))
    (faulty : reason ≠ .halt) : machine.tick = Pattern.refused machine word reason := by
  have other : Failure.plain reason ≠ .plain .halt := by
    intro equal
    cases equal
    exact faulty rfl
  simp only [tick, fetched, refused, if_neg other]
  rfl

theorem tick_of_pattern {machine : Machine} {word : Word} (fetched : machine.fetch = .ok word)
    {pattern : Pattern} (same : pattern.word = word.toNat) :
    machine.tick = pattern.outcome machine := by
  have executed := execute_of_pattern machine.skip same
  have number : word = UInt16.ofNat pattern.word := by
    rw [same, UInt16.ofNat_toNat]
  cases pattern with
  | halt =>
      simp only [tick, fetched, executed, handle]
      rfl
  | ret =>
      simp only [handle, ret, CallStack.pop?, peek?_eq_getLast?] at executed
      cases top : machine.stack.frames.getLast? with
      | none =>
          simp only [skip, top, Option.map_none] at executed
          rw [tick_of_refused fetched executed (by decide), number]
          simp only [Pattern.outcome, top]
      | some address =>
          simp only [skip, top, Option.map_some] at executed
          rw [tick_of_executed fetched executed]
          simp only [Pattern.outcome, top]
          rfl
  | call address =>
      by_cases room : machine.stack.pointer < 16
      · have pushed : machine.skip.stack.push? machine.skip.counter = some _ := dif_pos room
        simp only [handle, call, pushed] at executed
        rw [tick_of_executed fetched executed]
        have target :
            UInt16.ofNat ((UInt16.ofNat address).toNat % 4096) = UInt16.ofNat address := by
          rw [UInt16.toNat_ofNat', Nat.mod_mod_of_dvd _ (by decide), Nat.mod_eq_of_lt address.isLt]
        simp only [Pattern.outcome, dif_pos room, target, ← slots_push _ _ room]
        rfl
      · have pushed : machine.skip.stack.push? machine.skip.counter = none := dif_neg room
        simp only [handle, call, pushed] at executed
        rw [tick_of_refused fetched executed (by decide), number]
        simp only [Pattern.outcome, dif_neg room]
  | skipEqual x immediate =>
      rw [tick_of_executed fetched executed]
      simp only [Pattern.outcome, skipEqual, get_skip, eq_ofNat_iff]
      split
      · rw [resumed_of_skip]
      · rfl
  | skipUnequal x immediate =>
      rw [tick_of_executed fetched executed]
      simp only [Pattern.outcome, skipUnequal, get_skip, eq_ofNat_iff]
      split
      · rfl
      · rw [resumed_of_skip]
  | load x immediate =>
      rw [tick_of_executed fetched executed]
      exact congrArg (·, Signal.running) (assigned_of_set machine x _)
  | add x immediate =>
      rw [tick_of_executed fetched executed]
      have wrapped : machine.get x + UInt8.ofNat ((UInt8.ofNat (immediate % 16)).toNat % 16) =
          UInt8.ofNat (((machine.get x).toNat + immediate % 16) % 256) := by
        apply UInt8.toNat_inj.mp
        rw [UInt8.toNat_add, UInt8.toNat_ofNat', UInt8.toNat_ofNat', UInt8.toNat_ofNat']
        omega
      simp only [Pattern.outcome, ← wrapped]
      exact congrArg (·, Signal.running) (assigned_of_set machine x _)
  | copy x y | or x y | and x y | xor x y =>
      rw [tick_of_executed fetched executed]
      exact congrArg (·, Signal.running) (assigned_of_set machine x _)
  | sum x y =>
      rw [tick_of_executed fetched executed]
      refine congrArg (·, Signal.running) (rewritten_of_get rfl ?_)
      intro index
      have wrapped : machine.get x + machine.get y =
          UInt8.ofNat (((machine.get x).toNat + (machine.get y).toNat) % 256) := by
        apply UInt8.toNat_inj.mp
        rw [UInt8.toNat_add, UInt8.toNat_ofNat']
        omega
      simp only [sum, get_set, get_skip, wrapped, Nat.lt_iff_add_one_le]
      rfl

theorem tick_of_unknown {machine : Machine} {word : Word} (fetched : machine.fetch = .ok word)
    (unknown : word.operation = .unknown) :
    machine.tick = Pattern.refused machine word .unimplemented :=
  tick_of_refused fetched (execute_of_unknown machine.skip unknown) (by decide)

end Machine

/-! ### What no instruction touches -/

def Signal.completed : Signal → Nat
  | running | halted => 1
  | fault _ => 0

namespace Machine

/-- What holds of every tick that fetches a word: the memory stays, and so does every stack entry
that is live before and after it, and only a fault leaves the count of instructions as it was. -/
structure Framed (before : Machine) (result : Machine × Signal) : Prop where
  memory : result.1.memory = before.memory
  entries : ∀ index : Fin 16, index.val < before.stack.pointer →
    index.val < result.1.stack.pointer → result.1.stack.slots[index] = before.stack.slots[index]
  ticks : result.1.ticks = before.ticks + Int64.ofNat result.2.completed

theorem Framed.of_stack_eq {before after : Machine} {signal : Signal}
    (memory : after.memory = before.memory) (stack : after.stack = before.stack)
    (ticks : after.ticks = before.ticks + Int64.ofNat signal.completed) :
    Framed before (after, signal) :=
  ⟨memory, fun _ _ _ => by rw [stack], ticks⟩

theorem framed_refused (before : Machine) (word : Word) (reason : Reason) :
    Framed before (Pattern.refused before word reason) :=
  .of_stack_eq rfl rfl (Int64.add_zero before.ticks).symm

theorem framed_rewritten (before : Machine) (value : Fin 16 → UInt8) :
    Framed before (Pattern.rewritten before value, .running) := by
  unfold Pattern.rewritten Pattern.resumed
  constructor
  · dsimp only
  · intro index _ _
    dsimp only
  · dsimp only [Signal.completed]
    rfl

theorem framed_outcome (pattern : Pattern) (before : Machine) :
    Framed before (pattern.outcome before) := by
  unfold Pattern.outcome
  cases pattern with
  | halt => exact .of_stack_eq rfl rfl rfl
  | ret =>
      dsimp only
      split
      · exact framed_refused before _ _
      · exact ⟨rfl, fun _ _ _ => rfl, rfl⟩
  | call address =>
      dsimp only
      split
      · refine ⟨rfl, ?_, rfl⟩
        intro index live _
        simp [Nat.ne_of_lt live]
      · exact framed_refused before _ _
  | skipEqual x immediate | skipUnequal x immediate => exact .of_stack_eq rfl rfl rfl
  | load x immediate | add x immediate | copy x y | or x y | and x y | xor x y | sum x y =>
      exact framed_rewritten before _

theorem framed_tick {machine : Machine} {word : Word} (fetched : machine.fetch = .ok word) :
    Framed machine machine.tick := by
  by_cases unknown : word.operation = .unknown
  · rw [tick_of_unknown fetched unknown]
    exact framed_refused machine _ _
  · obtain ⟨pattern, same⟩ := Word.exists_pattern unknown
    rw [tick_of_pattern fetched same]
    exact framed_outcome pattern machine

theorem get_outcome (pattern : Pattern) (before : Machine) (index : Fin 16)
    (other : index ∉ pattern.targets) :
    (pattern.outcome before).1.get index = before.get index := by
  cases pattern with
  | halt | skipEqual x immediate | skipUnequal x immediate => rfl
  | ret =>
      simp only [Pattern.outcome]
      split <;> rfl
  | call address =>
      simp only [Pattern.outcome]
      split <;> rfl
  | load x immediate | add x immediate | copy x y | or x y | and x y | xor x y =>
      have different : index ≠ x := by simpa [Pattern.targets] using other
      simp [Pattern.outcome, Pattern.assigned, Pattern.rewritten, get_eq, different]
  | sum x y =>
      obtain ⟨different, usual⟩ : index ≠ x ∧ index ≠ 0xF := by simpa [Pattern.targets] using other
      simp [Pattern.outcome, Pattern.rewritten, get_eq, different, usual]

/-! ### The table -/

/-- The two bytes at the program counter as one number, the first of them high. -/
def pending (machine : Machine) : Nat :=
  (machine.memory.byte machine.counter.toNat).toNat * 256 +
    (machine.memory.byte (machine.counter.toNat + 1)).toNat

theorem toNat_pending (machine : Machine) :
    (UInt16.ofNat machine.pending).toNat = machine.pending := by
  have high := (machine.memory.byte machine.counter.toNat).toNat_lt
  have low := (machine.memory.byte (machine.counter.toNat + 1)).toNat_lt
  rw [UInt16.toNat_ofNat', pending]
  omega

theorem fetch_eq_ok {machine : Machine} (inside : machine.counter.toNat ≤ 0xFFE) :
    machine.fetch = .ok (UInt16.ofNat machine.pending) :=
  if_pos (Nat.lt_of_le_of_lt (Nat.succ_le_succ inside) (by decide))

/-- The machine follows the instruction table. A tick does what is prescribed for the pattern of
the word at the program counter and changes no register but the targets of the pattern; a word
without a pattern is refused as unimplemented; and in every case the memory, the stack entries
below the top and, after a fault, the count of instructions stay as they were. -/
theorem tick_follows_table (machine : Machine) (inside : machine.counter.toNat ≤ 0xFFE) :
    (∀ pattern : Pattern, pattern.word = machine.pending →
      machine.tick = pattern.outcome machine ∧
      ∀ index, index ∉ pattern.targets → machine.tick.1.get index = machine.get index) ∧
    ((∀ pattern : Pattern, pattern.word ≠ machine.pending) →
      machine.tick =
        ({ machine with counter := machine.counter + 2 },
          .fault (.executing machine.counter (UInt16.ofNat machine.pending)
            (.plain .unimplemented)))) ∧
    Framed machine machine.tick := by
  have fetched := fetch_eq_ok inside
  refine ⟨?_, ?_, framed_tick fetched⟩
  · intro pattern same
    have ticked := tick_of_pattern fetched (same.trans (toNat_pending machine).symm)
    rw [ticked]
    exact ⟨rfl, get_outcome pattern machine⟩
  · intro unmatched
    refine tick_of_unknown fetched ((Word.operation_eq_unknown_iff _).mpr ?_)
    rw [toNat_pending]
    exact unmatched

/-- At the last address with a word, the flag register added to itself: the carry stays in it. -/
theorem tick_follows_table_flag_twice :
    let machine : Machine :=
      { memory := fun address =>
          if address.val = 0xFFE then 0x8F else if address.val = 0xFFF then 0xF4 else 0
        registers := Vector.replicate 16 200
        counter := 0xFFE }
    machine.counter.toNat ≤ 0xFFE ∧ (Pattern.sum 0xF 0xF).word = machine.pending ∧
      machine.tick = (Pattern.sum 0xF 0xF).outcome machine ∧
      machine.tick.1.get 0xF = 1 ∧ machine.tick.1.counter = 0x1000 := by
  intro machine
  have inside : machine.counter.toNat ≤ 0xFFE := by decide
  have same : (Pattern.sum 0xF 0xF).word = machine.pending := by decide
  have ticked := ((tick_follows_table machine inside).1 _ same).1
  refine ⟨inside, same, ticked, ?_, ?_⟩
  · rw [ticked]
    decide
  · rw [ticked]
    decide

end Machine

end Nibble
