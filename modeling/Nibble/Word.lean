import Nibble.Operation

set_option autoImplicit false

/-! Instruction words. A word is sixteen bits, read as four nibbles: the family of the
instruction, a register, and either a second register with a sub-operation, an eight bit
immediate, or twelve address bits together with the first register nibble. -/

namespace Nibble

abbrev Word := UInt16

namespace Word

def family (word : Word) : UInt8 :=
  UInt8.ofNat (word.toNat / 4096)

/-- The register nibble next to the family. -/
def x (word : Word) : UInt8 :=
  UInt8.ofNat (word.toNat / 256 % 16)

def y (word : Word) : UInt8 :=
  UInt8.ofNat (word.toNat / 16 % 16)

/-- The last nibble: a sub-operation or a four bit immediate. -/
def n (word : Word) : UInt8 :=
  UInt8.ofNat (word.toNat % 16)

def address (word : Word) : UInt16 :=
  UInt16.ofNat (word.toNat % 4096)

def immediate (word : Word) : UInt8 :=
  UInt8.ofNat (word.toNat % 256)

/-- Big-endian: the first byte in memory is the high one. -/
def ofBytes (high low : UInt8) : Word :=
  UInt16.ofNat (high.toNat * 256 + low.toNat)

def high (word : Word) : UInt8 :=
  UInt8.ofNat (word.toNat / 256)

def low (word : Word) : UInt8 :=
  UInt8.ofNat (word.toNat % 256)

def operation (word : Word) : Operation :=
  match word.toNat / 4096 with
  | 0 => if word = 0x0000 then .halt else if word = 0x00EE then .ret else .unknown
  | 2 => .call
  | 3 => .skipEqual
  | 4 => .skipUnequal
  | 6 => .load
  | 7 => .add
  | 8 =>
      match word.toNat % 16 with
      | 0 => .copy
      | 1 => .or
      | 2 => .and
      | 3 => .xor
      | 4 => .sum
      | _ => .unknown
  | _ => .unknown

/-- A word from its family, a register of which four bits count, and its low byte. -/
def ofFields (family : Nat) (x low : UInt8) : Word :=
  UInt16.ofNat (family % 16 * 4096 + x.toNat % 16 * 256 + low.toNat)

def halt : Word := 0x0000

def ret : Word := 0x00EE

/-- Twelve bits of the address count. -/
def call (address : UInt16) : Word :=
  UInt16.ofNat (0x2000 + address.toNat % 4096)

def skipEqual (x immediate : UInt8) : Word :=
  ofFields 3 x immediate

def skipUnequal (x immediate : UInt8) : Word :=
  ofFields 4 x immediate

def load (x immediate : UInt8) : Word :=
  ofFields 6 x immediate

/-- Four bits of the immediate count. -/
def add (x immediate : UInt8) : Word :=
  ofFields 7 x (UInt8.ofNat (immediate.toNat % 16))

/-- The last nibble of the words that combine two registers; none for the other operations. -/
def pairNibble? : Operation → Option Nat
  | .copy => some 0
  | .or => some 1
  | .and => some 2
  | .xor => some 3
  | .sum => some 4
  | _ => none

/-- A word that combines two registers, of which four bits count each. -/
def pair? (operation : Operation) (x y : UInt8) : Option Word :=
  (pairNibble? operation).map fun last =>
    ofFields 8 x (UInt8.ofNat (y.toNat % 16 * 16 + last))

end Word

end Nibble
