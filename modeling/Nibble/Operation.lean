import Nibble.Text.Numeral

set_option autoImplicit false

/-! The operations of the instruction set, their numbers and their names. -/

namespace Nibble

open Text (ascii)

/-- What an instruction does. `unknown` is the classification of a word outside the instruction
set, and `unlisted` a number outside the table of operations. -/
inductive Operation where
  | unknown
  | halt
  | ret
  | call
  | skipEqual
  | skipUnequal
  | load
  | add
  | copy
  | or
  | and
  | xor
  | sum
  | unlisted (number : Int)
deriving DecidableEq, Repr

namespace Operation

def number : Operation → Int
  | unknown => 0
  | halt => 1
  | ret => 2
  | call => 3
  | skipEqual => 4
  | skipUnequal => 5
  | load => 6
  | add => 7
  | copy => 8
  | or => 9
  | and => 10
  | xor => 11
  | sum => 12
  | unlisted number => number

def listed : List Operation :=
  [unknown, halt, ret, call, skipEqual, skipUnequal, load, add, copy, or, and, xor, sum]

def ofNumber (number : Int) : Operation :=
  match listed.find? fun operation => operation.number == number with
  | some operation => operation
  | none => unlisted number

/-- The mnemonic. An immediate load and a register copy share theirs, and so do the additions. -/
def name : Operation → Text
  | unknown => ascii "unknown"
  | halt => ascii "halt"
  | ret => ascii "ret"
  | call => ascii "call"
  | skipEqual => ascii "se"
  | skipUnequal => ascii "sne"
  | load => ascii "ld"
  | add => ascii "add"
  | copy => ascii "ld"
  | or => ascii "or"
  | and => ascii "and"
  | xor => ascii "xor"
  | sum => ascii "add"
  | unlisted number => ascii "CodeOp(" ++ Numeral.signed number ++ ascii ")"

end Operation

end Nibble
