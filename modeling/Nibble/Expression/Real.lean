import Nibble.Text.Numeral

set_option autoImplicit false

/-! Floating-point numbers of 64 bits: their exact values, their order, and their decimal text with
the fewest digits that read back. -/

namespace Nibble.Expression.Real

open Text (ascii)

/-! ### Exact values -/

/-- A finite number as an integer times a power of two. -/
def parts? (value : Float) : Option (Int × Int) :=
  if !value.isFinite then none
  else
    let bits := value.toBits.toNat
    let exponent := bits / Nat.pow 2 52 % Nat.pow 2 11
    let fraction := bits % Nat.pow 2 52
    let magnitude : Nat := if exponent = 0 then fraction else fraction + Nat.pow 2 52
    let sign : Int := if bits / Nat.pow 2 63 = 1 then -1 else 1
    some (sign * magnitude, (if exponent = 0 then 1 else exponent : Nat) - 1075)

/-- Whether the sign of a number is set, that of zero included. -/
def isSigned (value : Float) : Bool :=
  value.toBits ≥ 0x8000000000000000

/-- The integer part, cut toward zero. -/
def truncate? (value : Float) : Option Int :=
  (parts? value).map fun (mantissa, exponent) =>
    if 0 ≤ exponent then mantissa * Int.pow 2 exponent.toNat
    else Int.tdiv mantissa (Int.pow 2 (-exponent).toNat)

/-- The nearest number to a natural one, ties going to the even neighbour. The bits that are cut
off from a long one leave a mark in the last bit that is kept. -/
def ofNat (number : Nat) : Float :=
  if number < Nat.pow 2 64 then number.toUInt64.toFloat
  else
    let shift := number.log2 - 63
    let kept := number / Nat.pow 2 shift
    let marked := if number % Nat.pow 2 shift = 0 then kept else kept ||| 1
    marked.toUInt64.toFloat.scaleB shift

def ofInt? (integer : Int) : Option Float :=
  let value := ofNat integer.natAbs
  if !value.isFinite then none
  else some (if integer < 0 then -value else value)

/-! ### Order -/

/-- An integer against a number. What is no number comes behind all numbers. -/
def compareInt (integer : Int) (value : Float) : Ordering :=
  match parts? value with
  | some (mantissa, exponent) =>
      if 0 ≤ exponent then compare integer (mantissa * Int.pow 2 exponent.toNat)
      else compare (integer * Int.pow 2 (-exponent).toNat) mantissa
  | none => if value < 0 then .gt else .lt

/-- The order of numbers. What is no number comes behind all numbers and equals itself. -/
def compareFloat (left right : Float) : Ordering :=
  if left < right then .lt
  else if right < left then .gt
  else if left == right then .eq
  else compare left.isNaN.toNat right.isNaN.toNat

/-! ### Remainders -/

/-- What a division toward zero leaves, with the sign of the dividend. -/
def remainder (left right : Float) : Float :=
  match parts? left, parts? right with
  | some (first, firstExponent), some (second, secondExponent) =>
      let exponent := min firstExponent secondExponent
      let dividend := first.natAbs * Nat.pow 2 (firstExponent - exponent).toNat
      let divisor := second.natAbs * Nat.pow 2 (secondExponent - exponent).toNat
      let rest := (ofNat (dividend % divisor)).scaleB exponent
      if isSigned left then -rest else rest
  | some _, none => if right.isNaN then right else left
  | none, _ => left - left

/-- What a division toward the floor leaves, with the sign of the divisor. -/
def floorRemainder (left right : Float) : Float :=
  let rest := remainder left right
  if rest != 0 && (decide (left < 0) != decide (right < 0)) then rest + right else rest

/-! ### Decimal text -/

def fraction (mantissa : Nat) (exponent : Int) : Nat × Nat :=
  if 0 ≤ exponent then (mantissa * Nat.pow 2 exponent.toNat, 1)
  else (mantissa, Nat.pow 2 (-exponent).toNat)

def inUnits (power : Int) (number : Nat × Nat) : Nat × Nat :=
  if 0 ≤ power then (number.1, number.2 * Nat.pow 10 power.toNat)
  else (number.1 * Nat.pow 10 (-power).toNat, number.2)

/-- The numbers that a floating-point number is nearest to: their bounds and whether the bounds are
among them, next to the number itself. All three are in quarters of its last place. -/
structure Neighbourhood where
  low : Nat
  value : Nat
  high : Nat
  closed : Bool
  exponent : Int

/-- The neighbourhood of a positive number. Below a power of two the numbers lie closer. -/
def neighbourhood (mantissa : Nat) (exponent : Int) : Neighbourhood :=
  let closer := mantissa = Nat.pow 2 52 ∧ -1074 < exponent
  { low := if closer then 4 * mantissa - 1 else 4 * mantissa - 2
    value := 4 * mantissa
    high := 4 * mantissa + 2
    closed := mantissa % 2 = 0
    exponent := exponent - 2 }

def Neighbourhood.has (around : Neighbourhood) (power : Int) (count : Nat) : Bool :=
  let low := inUnits power (fraction around.low around.exponent)
  let high := inUnits power (fraction around.high around.exponent)
  if around.closed then low.1 ≤ count * low.2 && count * high.2 ≤ high.1
  else low.1 < count * low.2 && count * high.2 < high.1

/-- The count of units of a power of ten that is nearest to the number, among those in the
neighbourhood; a tie goes to the even count. -/
def Neighbourhood.nearest? (around : Neighbourhood) (power : Int) : Option Nat :=
  let number := inUnits power (fraction around.value around.exponent)
  let below := number.1 / number.2
  let rest := 2 * (number.1 % number.2)
  let up := number.2 < rest || (rest == number.2 && below % 2 == 1)
  let (first, second) := if up then (below + 1, below) else (below, below + 1)
  if around.has power first then some first
  else if around.has power second then some second
  else none

/-- The fewest digits in a neighbourhood, from a power of ten downward: the greatest power that has
a count, with the count. -/
def Neighbourhood.shortest (around : Neighbourhood) : Nat → Int → Nat × Int
  | 0, power => (0, power)
  | steps + 1, power =>
      match around.nearest? power with
      | some count => (count, power)
      | none => shortest around steps (power - 1)

/-- The digits of a positive finite number and the power of ten of their last one. -/
def digits (mantissa : Nat) (exponent : Int) : Nat × Int :=
  let magnitude := ((mantissa.log2 : Int) + exponent) * 30103 / 100000 + 2
  (neighbourhood mantissa exponent).shortest 24 magnitude

/-- The exponent of a decimal number, with a sign and at least two digits. -/
def exponentText (exponent : Int) : Text :=
  (if exponent < 0 then 45 else 43) :: Numeral.zeroPadded 2 (Numeral.decimal exponent.natAbs)

/-- Digits with a decimal point behind so many of them, of which there may be too few or less than
none; an integer gets a zero behind its point. -/
def positional (text : Text) (point : Int) : Text :=
  if point ≤ 0 then ascii "0." ++ List.replicate (-point).toNat 48 ++ text
  else
    let whole := text.take point.toNat
    let behind := text.drop point.toNat
    whole ++ List.replicate (point.toNat - whole.length) 48 ++ [46]
      ++ (if behind.isEmpty then [48] else behind)

/-- Digits with an exponent; a point stands behind the first of several. -/
def scientific (text : Text) (exponent : Int) : Text :=
  (match text with
    | [] => []
    | [digit] => [digit]
    | digit :: behind => digit :: 46 :: behind) ++ [101] ++ exponentText exponent

/-- A positive finite number, positionally from a ten thousandth on and below a million. -/
def magnitudeText (mantissa : Nat) (exponent : Int) : Text :=
  let (count, power) := digits mantissa exponent
  let text := Numeral.decimal count
  let point := text.length + power
  if -4 < point ∧ point ≤ 6 then positional text point else scientific text (point - 1)

def text (value : Float) : Text :=
  match parts? value with
  | none =>
      if value.isNaN then ascii "nan" else if value < 0 then ascii "-inf" else ascii "+inf"
  | some (mantissa, exponent) =>
      (if isSigned value then [45] else []) ++
        (if mantissa = 0 then ascii "0.0" else magnitudeText mantissa.natAbs exponent)

end Nibble.Expression.Real
