import Nibble.Proofs.Machine.Dispatch

set_option autoImplicit false

/-! Ticks with every index checked. Registers, stack slots and bytes of the memory are looked up and
replaced here by plain numbers, and a number out of range leaves the whole tick without a result. A
tick never comes to that: with the checks it has the result that it has without them. -/

namespace Nibble

namespace Checked

def byte? (memory : Memory) (index : Int) : Option UInt8 :=
  if inside : 0 ≤ index ∧ index < 4096 then some (memory ⟨index.toNat, by omega⟩) else none

section

variable {α : Type}

def cell? (cells : Vector α 16) (index : Int) : Option α :=
  if inside : 0 ≤ index ∧ index < 16 then
    have bound : index.toNat < 16 := by omega
    some cells[index.toNat]
  else none

def replace? (cells : Vector α 16) (index : Int) (value : α) : Option (Vector α 16) :=
  if inside : 0 ≤ index ∧ index < 16 then some (cells.set index.toNat value (by omega)) else none

theorem cell?_natCast (cells : Vector α 16) {index : Nat} (inside : index < 16) :
    cell? cells index = some cells[index] := by
  unfold cell?
  rw [dif_pos (by omega)]
  rfl

theorem replace?_natCast (cells : Vector α 16) {index : Nat} (inside : index < 16) (value : α) :
    replace? cells index value = some (cells.set index value) := by
  unfold replace?
  rw [dif_pos (by omega)]
  rfl

end

theorem byte?_natCast (memory : Memory) {index : Nat} (inside : index < 4096) :
    byte? memory index = some (memory.byte index) := by
  unfold byte? Memory.byte
  rw [dif_pos (by omega), dif_pos inside]
  rfl

end Checked

namespace Machine

open Checked

theorem pointer_pred_le (machine : Machine) : machine.stack.pointer - 1 ≤ 16 :=
  Nat.le_trans (Nat.sub_le _ _) machine.stack.pointer_le

def retChecked (machine : Machine) : Option (Except Failure Machine) :=
  if machine.stack.pointer = 0 then some (.error (.plain .stackUnderflow))
  else do
    let address ← cell? machine.stack.slots (machine.stack.pointer - 1)
    return .ok
      { machine with
        counter := address
        stack :=
          { machine.stack with
            pointer := machine.stack.pointer - 1
            pointer_le := machine.pointer_pred_le } }

def callChecked (machine : Machine) (address : UInt16) : Option (Except Failure Machine) :=
  if room : machine.stack.pointer < 16 then do
    let slots ← replace? machine.stack.slots machine.stack.pointer machine.counter
    return .ok
      { machine with
        counter := UInt16.ofNat (address.toNat % 4096)
        stack := { slots, pointer := machine.stack.pointer + 1, pointer_le := room } }
  else some (.error (.plain .stackOverflow))

def combineChecked (machine : Machine) (operation : UInt8 → UInt8 → UInt8) (x y : UInt8) :
    Option (Except Failure Machine) := do
  let first ← cell? machine.registers x.toNat
  let second ← cell? machine.registers y.toNat
  let registers ← replace? machine.registers x.toNat (operation first second)
  return .ok { machine with registers }

def sumChecked (machine : Machine) (x y : UInt8) : Option (Except Failure Machine) := do
  let first ← cell? machine.registers x.toNat
  let second ← cell? machine.registers y.toNat
  let summed ← replace? machine.registers x.toNat (first + second)
  let registers ← replace? summed 0xF (if first.toNat + second.toNat > 255 then 1 else 0)
  return .ok { machine with registers }

def executeChecked (machine : Machine) (instruction : Instruction) :
    Option (Except Failure Machine) :=
  match instruction.operation with
  | .halt => some (.error (.plain .halt))
  | .ret => machine.retChecked
  | .call => machine.callChecked instruction.address
  | .skipEqual => do
      let value ← cell? machine.registers instruction.x.toNat
      return .ok (if value = instruction.immediate then machine.skip else machine)
  | .skipUnequal => do
      let value ← cell? machine.registers instruction.x.toNat
      return .ok (if value = instruction.immediate then machine else machine.skip)
  | .load => do
      let registers ← replace? machine.registers instruction.x.toNat instruction.immediate
      return .ok { machine with registers }
  | .add => do
      let value ← cell? machine.registers instruction.x.toNat
      let registers ← replace? machine.registers instruction.x.toNat
        (value + UInt8.ofNat (instruction.n.toNat % 16))
      return .ok { machine with registers }
  | .copy => machine.combineChecked (fun _ source => source) instruction.x instruction.y
  | .or => machine.combineChecked (· ||| ·) instruction.x instruction.y
  | .and => machine.combineChecked (· &&& ·) instruction.x instruction.y
  | .xor => machine.combineChecked (· ^^^ ·) instruction.x instruction.y
  | .sum => machine.sumChecked instruction.x instruction.y
  | .unknown | .unlisted _ => some (.error (.plain .unimplemented))

def tickChecked (machine : Machine) : Option (Machine × Signal) :=
  if machine.counter.toNat + 1 < Memory.size then do
    let high ← byte? machine.memory machine.counter.toNat
    let low ← byte? machine.memory (machine.counter.toNat + 1)
    let word := Word.ofBytes high low
    match ← machine.skip.executeChecked word.decode with
    | .ok after => return ({ after with ticks := after.ticks + 1 }, .running)
    | .error failure =>
        if failure = .plain .halt then
          return ({ machine.skip with ticks := machine.skip.ticks + 1 }, .halted)
        else return (machine.skip, .fault (.executing machine.counter word failure))
  else some (machine, .fault (.executing machine.counter 0 (.plain .fetchBounds)))

/-! ### The checks succeed -/

theorem retChecked_eq (machine : Machine) : machine.retChecked = some machine.ret := by
  have bound := machine.stack.pointer_le
  unfold retChecked ret CallStack.pop? CallStack.peek?
  by_cases empty : machine.stack.pointer = 0
  · rw [if_pos empty, dif_neg (by omega)]
    rfl
  · have index : (machine.stack.pointer : Int) - 1 = ((machine.stack.pointer - 1 : Nat) : Int) := by
      omega
    have inside : machine.stack.pointer - 1 < 16 := by omega
    rw [if_neg empty, dif_pos (Nat.pos_of_ne_zero empty), index, cell?_natCast _ inside]
    rfl

theorem callChecked_eq (machine : Machine) (address : UInt16) :
    machine.callChecked address = some (machine.call address) := by
  unfold callChecked call CallStack.push?
  by_cases room : machine.stack.pointer < 16
  · rw [dif_pos room, dif_pos room, replace?_natCast _ room]
    rfl
  · rw [dif_neg room, dif_neg room]

theorem register_eq_ok {index : UInt8} (inside : index.toNat < 16) :
    register index = .ok ⟨index.toNat, inside⟩ :=
  dif_pos inside

theorem combineChecked_eq (machine : Machine) (operation : UInt8 → UInt8 → UInt8) {x y : UInt8}
    (first : x.toNat < 16) (second : y.toNat < 16) :
    machine.combineChecked operation x y =
      some (.ok (machine.combine operation ⟨x.toNat, first⟩ ⟨y.toNat, second⟩)) := by
  unfold combineChecked
  rw [cell?_natCast _ first, cell?_natCast _ second]
  dsimp only [bind, Option.bind]
  rw [replace?_natCast _ first]
  rfl

theorem sumChecked_eq (machine : Machine) {x y : UInt8} (first : x.toNat < 16)
    (second : y.toNat < 16) :
    machine.sumChecked x y = some (.ok (machine.sum ⟨x.toNat, first⟩ ⟨y.toNat, second⟩)) := by
  unfold sumChecked
  rw [cell?_natCast _ first, cell?_natCast _ second]
  dsimp only [bind, Option.bind]
  rw [replace?_natCast _ first]
  dsimp only [bind, Option.bind]
  have last : (15 : Nat) < 16 := by decide
  rw [show (0xF : Int) = ((15 : Nat) : Int) from rfl, replace?_natCast _ last]
  rfl

theorem executeChecked_eq (machine : Machine) {instruction : Instruction}
    (first : instruction.x.toNat < 16) (second : instruction.y.toNat < 16) :
    machine.executeChecked instruction = some (machine.execute instruction) := by
  have x := register_eq_ok first
  have y := register_eq_ok second
  unfold executeChecked execute
  cases instruction.operation with
  | halt | unknown | unlisted number => rfl
  | ret => exact retChecked_eq machine
  | call => exact callChecked_eq machine _
  | skipEqual | skipUnequal =>
      dsimp only
      rw [x, cell?_natCast _ first]
      rfl
  | load =>
      dsimp only
      rw [x, replace?_natCast _ first]
      rfl
  | add =>
      dsimp only
      rw [x, cell?_natCast _ first]
      dsimp only [bind, Option.bind]
      rw [replace?_natCast _ first]
      rfl
  | copy | or | and | xor =>
      dsimp only
      rw [x, y]
      exact combineChecked_eq machine _ first second
  | sum =>
      dsimp only
      rw [x, y]
      exact sumChecked_eq machine first second

theorem tickChecked_eq (machine : Machine) : machine.tickChecked = some machine.tick := by
  unfold tickChecked tick fetch
  by_cases inside : machine.counter.toNat + 1 < Memory.size
  · have counter : machine.counter.toNat + 1 < 4096 := inside
    have next : (machine.counter.toNat : Int) + 1 = ((machine.counter.toNat + 1 : Nat) : Int) := rfl
    rw [if_pos inside, if_pos inside, next, byte?_natCast _ (Nat.lt_of_succ_lt counter),
      byte?_natCast _ counter]
    dsimp only [bind, Option.bind]
    generalize Word.ofBytes _ _ = word
    rw [executeChecked_eq machine.skip word.x_lt word.y_lt]
    cases machine.skip.execute word.decode with
    | ok after => rfl
    | error failure =>
        dsimp only
        split
        · rfl
        · rfl
  · rw [if_neg inside, if_neg inside]

end Machine

end Nibble
