import Nibble.Text.Basic

set_option autoImplicit false

/-! The memory of the machine: 4096 bytes. -/

namespace Nibble

abbrev Memory := Fin 4096 → UInt8

namespace Memory

def size : Nat := 4096

def zero : Memory := fun _ => 0

/-- The byte at an address, and zero beyond the end. -/
def byte (memory : Memory) (address : Nat) : UInt8 :=
  if inside : address < 4096 then memory ⟨address, inside⟩ else 0

/-- The memory with bytes copied to an address; what does not fit is dropped. -/
def write (memory : Memory) (origin : Nat) (bytes : Array UInt8) : Memory := fun address =>
  if inside : origin ≤ address.val ∧ address.val - origin < bytes.size then
    bytes[address.val - origin]
  else memory address

def read (memory : Memory) (origin count : Nat) : List UInt8 :=
  (List.range count).map fun offset => memory.byte (origin + offset)

end Memory

end Nibble
