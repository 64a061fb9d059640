import Nibble.CallStack
import Nibble.Instruction
import Nibble.Memory

set_option autoImplicit false

/-! The machine: sixteen registers, the memory, the program counter, the call stack and a count
of completed instructions; and the effect of one instruction on it. -/

namespace Nibble

open Text (ascii)

structure Machine where
  registers : Vector UInt8 16 := Vector.replicate 16 0
  memory : Memory := Memory.zero
  /-- The address of the word that is fetched next. -/
  counter : UInt16 := 0
  stack : CallStack := CallStack.empty
  /-- The number of instructions completed since the last reset, which wraps around. -/
  ticks : Int64 := 0

/-- What one tick reports: it completed, it completed a halt, or it failed. -/
inductive Signal where
  | running
  | halted
  | fault (failure : Failure)
deriving DecidableEq, Repr

namespace Machine

/-- The machine after power-up and after a reset. -/
def initial : Machine := {}

/-- The names that the machine defines for sources, with their values. -/
def definitions : List (Text × Text) :=
  [(ascii "MEMORY_SIZE", ascii "0x1000"),
   (ascii "STACK_LIMIT", ascii "16"),
   (ascii "REGISTER_FLAG", ascii "0xf"),
   (ascii "PROGRAM_START", ascii "0x200")]

/-- The register that an addition of registers overwrites with its carry. -/
def flag : Fin 16 := Fin.last 15

def register (index : UInt8) : Except Failure (Fin 16) :=
  if inside : index.toNat < 16 then .ok ⟨index.toNat, inside⟩
  else .error (.noRegister index.toNat)

def get (machine : Machine) (index : Fin 16) : UInt8 :=
  machine.registers.get index

theorem register_lt (index : Fin 16) : index.val < 16 :=
  index.isLt

def set (machine : Machine) (index : Fin 16) (value : UInt8) : Machine :=
  { machine with registers := machine.registers.set index value (register_lt index) }

def skip (machine : Machine) : Machine :=
  { machine with counter := machine.counter + 2 }

/-- Copies an image to an origin and continues there. Memory outside the image is kept. -/
def load (machine : Machine) (origin : UInt16) (image : List UInt8) : Except Failure Machine :=
  if origin.toNat + image.length > Memory.size then .error (.plain .imageSize)
  else
    .ok
      { machine with
        memory := machine.memory.write origin.toNat image.toArray
        counter := origin }

def fetch (machine : Machine) : Except Failure Word :=
  if machine.counter.toNat + 1 < Memory.size then
    .ok (Word.ofBytes (machine.memory.byte machine.counter.toNat)
      (machine.memory.byte (machine.counter.toNat + 1)))
  else .error (.plain .fetchBounds)

def ret (machine : Machine) : Except Failure Machine :=
  match machine.stack.pop? with
  | some (address, stack) => .ok { machine with counter := address, stack := stack }
  | none => .error (.plain .stackUnderflow)

/-- Saves the program counter and continues at an address, of which twelve bits count. -/
def call (machine : Machine) (address : UInt16) : Except Failure Machine :=
  match machine.stack.push? machine.counter with
  | some stack =>
      .ok { machine with counter := UInt16.ofNat (address.toNat % 4096), stack := stack }
  | none => .error (.plain .stackOverflow)

def skipEqual (machine : Machine) (x : Fin 16) (immediate : UInt8) : Machine :=
  if machine.get x = immediate then machine.skip else machine

def skipUnequal (machine : Machine) (x : Fin 16) (immediate : UInt8) : Machine :=
  if machine.get x = immediate then machine else machine.skip

/-- Adds four bits to a register. The carry is lost, and the flag register is not touched. -/
def add (machine : Machine) (x : Fin 16) (n : UInt8) : Machine :=
  machine.set x (machine.get x + UInt8.ofNat (n.toNat % 16))

/-- Adds one register to another. The flag register receives the carry last, so that the carry
stays when the sum goes to the flag register as well. -/
def sum (machine : Machine) (x y : Fin 16) : Machine :=
  (machine.set x (machine.get x + machine.get y)).set flag
    (if (machine.get x).toNat + (machine.get y).toNat > 255 then 1 else 0)

def combine (machine : Machine) (operation : UInt8 → UInt8 → UInt8) (x y : Fin 16) : Machine :=
  machine.set x (operation (machine.get x) (machine.get y))

/-- The effect of an instruction, the program counter being past it already. A failure has
no effect. -/
def execute (machine : Machine) (instruction : Instruction) : Except Failure Machine :=
  match instruction.operation with
  | .halt => .error (.plain .halt)
  | .ret => machine.ret
  | .call => machine.call instruction.address
  | .skipEqual => do
      let x ← register instruction.x
      return machine.skipEqual x instruction.immediate
  | .skipUnequal => do
      let x ← register instruction.x
      return machine.skipUnequal x instruction.immediate
  | .load => do
      let x ← register instruction.x
      return machine.set x instruction.immediate
  | .add => do
      let x ← register instruction.x
      return machine.add x instruction.n
  | .copy => do
      let x ← register instruction.x
      let y ← register instruction.y
      return machine.combine (fun _ source => source) x y
  | .or => do
      let x ← register instruction.x
      let y ← register instruction.y
      return machine.combine (· ||| ·) x y
  | .and => do
      let x ← register instruction.x
      let y ← register instruction.y
      return machine.combine (· &&& ·) x y
  | .xor => do
      let x ← register instruction.x
      let y ← register instruction.y
      return machine.combine (· ^^^ ·) x y
  | .sum => do
      let x ← register instruction.x
      let y ← register instruction.y
      return machine.sum x y
  | .unknown | .unlisted _ => .error (.plain .unimplemented)

/-- One instruction cycle. A failing instruction leaves the program counter past it and changes
nothing else; a failing fetch changes nothing. -/
def tick (machine : Machine) : Machine × Signal :=
  match machine.fetch with
  | .error failure => (machine, .fault (.executing machine.counter 0 failure))
  | .ok word =>
      match machine.skip.execute word.decode with
      | .ok after => ({ after with ticks := after.ticks + 1 }, .running)
      | .error failure =>
          if failure = .plain .halt then
            ({ machine.skip with ticks := machine.skip.ticks + 1 }, .halted)
          else (machine.skip, .fault (.executing machine.counter word failure))

end Machine

end Nibble
