import Nibble.Failure

set_option autoImplicit false

/-! Decoded instructions, and the assembly text of instructions and words. -/

namespace Nibble

open Text (ascii)
open Numeral (hex hexLiteral)

/-- An operation with every operand field, whether the operation uses it or not. -/
structure Instruction where
  operation : Operation
  x : UInt8 := 0
  y : UInt8 := 0
  n : UInt8 := 0
  address : UInt16 := 0
  immediate : UInt8 := 0
deriving DecidableEq, Repr

namespace Instruction

def registerName (index : UInt8) : Text :=
  ascii "v" ++ hex index.toNat

/-- The words of the assembly line; fields are written as they are. -/
def words (instruction : Instruction) : List Text :=
  match instruction.operation with
  | .call => [instruction.operation.name, hexLiteral 3 instruction.address.toNat]
  | .skipEqual | .skipUnequal | .load =>
      [instruction.operation.name, registerName instruction.x,
        hexLiteral 2 instruction.immediate.toNat]
  | .add =>
      [instruction.operation.name, registerName instruction.x, hexLiteral 0 instruction.n.toNat]
  | .copy | .or | .and | .xor | .sum =>
      [instruction.operation.name, registerName instruction.x, registerName instruction.y]
  | .unknown | .halt | .ret | .unlisted _ => [instruction.operation.name]

def text (instruction : Instruction) : Text :=
  Text.spaced instruction.words

end Instruction

namespace Word

def decode (word : Word) : Instruction where
  operation := word.operation
  x := word.x
  y := word.y
  n := word.n
  address := word.address
  immediate := word.immediate

/-- The words of the assembly line that a word stands for; data where it is no instruction. -/
def words (word : Word) : List Text :=
  if word.operation = .unknown then [ascii ".word", hexLiteral 4 word.toNat]
  else word.decode.words

def text (word : Word) : Text :=
  Text.spaced word.words

def pair (operation : Operation) (x y : UInt8) : Except Failure Word :=
  match pair? operation x y with
  | some word => .ok word
  | none => .error (.notPair operation)

end Word

end Nibble
