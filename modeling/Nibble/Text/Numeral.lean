import Nibble.Text.Basic

set_option autoImplicit false

/-! Writing numbers: decimal and hexadecimal digits, zero padding, and digits in groups of three. -/

namespace Nibble.Numeral

/-- The digits of a number in front of others, most significant first; zero has one digit. -/
def digitsOnto (base number : Nat) (behind : List Nat) : List Nat :=
  if base < 2 ∨ number < base then number :: behind
  else digitsOnto base (number / base) (number % base :: behind)
termination_by number
decreasing_by
  apply Nat.div_lt_self <;> omega

def digits (base number : Nat) : List Nat :=
  digitsOnto base number []

theorem digitsOnto_last {base number : Nat} (behind : List Nat)
    (last : base < 2 ∨ number < base) : digitsOnto base number behind = number :: behind := by
  rw [digitsOnto, if_pos last]

theorem digitsOnto_more {base number : Nat} (behind : List Nat)
    (more : ¬(base < 2 ∨ number < base)) :
    digitsOnto base number behind =
      digitsOnto base (number / base) (number % base :: behind) := by
  rw [digitsOnto, if_neg more]

theorem digitsOnto_eq_append (base number : Nat) (behind : List Nat) :
    digitsOnto base number behind = digits base number ++ behind := by
  induction number using Nat.strongRecOn generalizing behind with
  | ind number smaller =>
      by_cases last : base < 2 ∨ number < base
      · rw [digits, digitsOnto_last _ last, digitsOnto_last _ last, List.singleton_append]
      · have less : number / base < number := Nat.div_lt_self (by omega) (by omega)
        rw [digits, digitsOnto_more _ last, digitsOnto_more _ last, smaller _ less,
          smaller _ less [number % base], List.append_assoc, List.singleton_append]

/-- The sign of a digit: 0 to 9, then lower case letters. -/
def digitByte (digit : Nat) : UInt8 :=
  if digit < 10 then UInt8.ofNat (48 + digit) else UInt8.ofNat (87 + digit)

def decimal (number : Nat) : Text :=
  (digits 10 number).map digitByte

def hex (number : Nat) : Text :=
  (digits 16 number).map digitByte

/-- Zeros in front up to a width; a longer text is left alone. -/
def zeroPadded (width : Nat) (text : Text) : Text :=
  List.replicate (width - text.length) 48 ++ text

def hexPadded (width number : Nat) : Text :=
  zeroPadded width (hex number)

def hexLiteral (width number : Nat) : Text :=
  Text.ascii "0x" ++ hexPadded width number

/-- The decimal digits of a number of any length, which are taken off in blocks. -/
def decimalLong (number : Nat) : Text :=
  match digits (Nat.pow 10 256) number with
  | [] => []
  | first :: rest => decimal first ++ rest.flatMap fun block => zeroPadded 256 (decimal block)

def signed : Int → Text
  | .ofNat number => decimal number
  | .negSucc number => 45 :: decimal (number + 1)

def signedLong : Int → Text
  | .ofNat number => decimalLong number
  | .negSucc number => 45 :: decimalLong (number + 1)

/-- A comma after every third digit, the least significant digit standing first. -/
def commasReversed : Text → Text
  | first :: second :: third :: fourth :: rest =>
      first :: second :: third :: 44 :: commasReversed (fourth :: rest)
  | short => short

def groupedDecimal (number : Nat) : Text :=
  (commasReversed (decimal number).reverse).reverse

def grouped : Int → Text
  | .ofNat number => groupedDecimal number
  | .negSucc number => 45 :: groupedDecimal (number + 1)

end Nibble.Numeral
