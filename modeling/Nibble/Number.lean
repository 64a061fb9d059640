import Nibble.Text.Numeral

set_option autoImplicit false

/-! Reading numbers. A number is written in decimal, or with a prefix in hexadecimal, octal or
binary; a leading zero alone makes it octal. An underscore may stand between digits and after a
prefix. -/

namespace Nibble.Number

inductive Fault where
  | malformed
  | tooLarge
deriving DecidableEq, Repr

def underscore : UInt8 := 95

def digitValue? (byte : UInt8) : Option Nat :=
  if 48 ≤ byte && byte ≤ 57 then some (byte.toNat - 48)
  else if 97 ≤ byte && byte ≤ 122 then some (byte.toNat - 87)
  else if 65 ≤ byte && byte ≤ 90 then some (byte.toNat - 55)
  else none

/-- Reads digits from the most significant one on, continuing a value. The first byte that is no
digit, and the first digit that takes the value over the limit, decide the fault. -/
def accumulate (base limit : Nat) : Nat → Text → Except Fault Nat
  | value, [] => .ok value
  | value, byte :: rest =>
      if byte = underscore then accumulate base limit value rest
      else
        match digitValue? byte with
        | none => .error .malformed
        | some digit =>
            if digit ≥ base then .error .malformed
            else if value * base + digit > limit then .error .tooLarge
            else accumulate base limit (value * base + digit) rest

def letterBase? (letter : UInt8) : Option Nat :=
  if letter = 98 || letter = 66 then some 2
  else if letter = 111 || letter = 79 then some 8
  else if letter = 120 || letter = 88 then some 16
  else none

/-- The base of a number, and its digits without the mark of the base. -/
def splitRadix (text : Text) : Nat × Text :=
  match text with
  | 48 :: letter :: digit :: rest =>
      match letterBase? letter with
      | some base => (base, digit :: rest)
      | none => (8, letter :: digit :: rest)
  | 48 :: rest => (8, rest)
  | text => (10, text)

/-- Whether every underscore has a digit or the prefix before it and a digit behind it. The flag
tells whether what stands before is such. -/
def separated (afterDigit : Bool) : Text → Bool
  | [] => afterDigit
  | byte :: rest =>
      if byte = underscore then afterDigit && separated false rest else separated true rest

def underscoresPlaced (text : Text) : Bool :=
  match text with
  | 48 :: letter :: rest =>
      if (letterBase? letter).isSome then separated true rest else separated false text
  | text => separated false text

def unsigned (limit : Nat) (text : Text) : Except Fault Nat :=
  if text.isEmpty then .error .malformed
  else
    match accumulate (splitRadix text).1 limit 0 (splitRadix text).2 with
    | .error fault => .error fault
    | .ok value =>
        if text.contains underscore && !underscoresPlaced text then .error .malformed else .ok value

def splitSign : Text → Bool × Text
  | 43 :: digits => (false, digits)
  | 45 :: digits => (true, digits)
  | digits => (false, digits)

/-- A number with or without a sign, of so many bits. Its digits are first read as an unsigned
number, which the sign leaves one bit less. -/
def signed (bits : Nat) (text : Text) : Except Fault Int :=
  match unsigned (1 <<< bits - 1) (splitSign text).2 with
  | .error fault => .error fault
  | .ok value =>
      if (splitSign text).1 then
        if value > 1 <<< (bits - 1) then .error .tooLarge else .ok (-value)
      else if value ≥ 1 <<< (bits - 1) then .error .tooLarge
      else .ok value

/-- An integer between the least signed and the greatest unsigned number of 32 bits. -/
def integer? (text : Text) : Option Int :=
  match signed 33 text with
  | .error _ => none
  | .ok value => if value > 0xFFFFFFFF ∨ value < -0x80000000 then none else some value

/-- The 32 bits of an integer in two's complement. -/
def wrap (value : Int) : UInt32 :=
  if value < 0 then UInt32.ofInt (0xFFFFFFFF + (value + 1)) else UInt32.ofInt value

/-- The bytes of a number word behind a tilde that inverts it, if there is one. -/
def splitTilde : Text → Bool × Text
  | 126 :: rest => (true, rest)
  | text => (false, text)

/-- The 32 bits that a word denotes: those of its integer, inverted behind a tilde. A word that is
no number is given back without the tilde. -/
def ofWord (word : Text) : Except Text Nat :=
  match integer? (splitTilde word).2 with
  | none => .error (splitTilde word).2
  | some value => .ok (if (splitTilde word).1 then ~~~(wrap value) else wrap value).toNat

end Nibble.Number
