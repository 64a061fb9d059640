import Nibble.Expression.Literal

set_option autoImplicit false

/-! Texts with values filled in. A percent sign and a letter take the next value, or the value under
a name in parentheses between the two; two percent signs stand for one. -/

namespace Nibble.Expression

open Text (ascii)

namespace Format

/-- A quotient rounded to the nearest integer, ties going to the even one. -/
def rounded (number : Nat × Nat) : Nat :=
  let below := number.1 / number.2
  let rest := 2 * (number.1 % number.2)
  if number.2 < rest ∨ (rest = number.2 ∧ below % 2 = 1) then below + 1 else below

def places : Nat := 6

def fixed (mantissa : Nat) (exponent : Int) : Text :=
  let digits := Numeral.zeroPadded (places + 1)
    (Numeral.decimal (rounded (Real.inUnits (-places) (Real.fraction mantissa exponent))))
  digits.take (digits.length - places) ++ [46] ++ digits.drop (digits.length - places)

/-- The digits of a positive magnitude with so many places behind the first, and its power of ten:
the least one at which they have no more than one digit in front. -/
def leading (mantissa : Nat) (exponent : Int) : Nat → Int → Nat × Int
  | 0, power => (0, power)
  | steps + 1, power =>
      let digits := rounded (Real.inUnits (power - places) (Real.fraction mantissa exponent))
      if digits < Nat.pow 10 (places + 1) then (digits, power)
      else leading mantissa exponent steps (power + 1)

def scientific (letter : UInt8) (mantissa : Nat) (exponent : Int) : Text :=
  if mantissa = 0 then
    48 :: 46 :: List.replicate places 48 ++ [letter] ++ Real.exponentText 0
  else
    let least := ((mantissa.log2 : Int) + exponent) * 30103 / 100000 - 2
    let (digits, power) := leading mantissa exponent 8 least
    let text := Numeral.decimal digits
    text.take 1 ++ [46] ++ text.drop 1 ++ [letter] ++ Real.exponentText power

def capital (text : Text) : Text :=
  text.map fun byte => if 97 ≤ byte ∧ byte ≤ 122 then byte - 32 else byte

def real (letter : UInt8) (value : Float) : Text :=
  match Real.parts? value with
  | none => Real.text value
  | some (mantissa, exponent) =>
      let sign := if Real.isSigned value then [45] else []
      if letter = 103 then Real.text value
      else if letter = 71 then capital (Real.text value)
      else if letter = 102 then sign ++ fixed mantissa.natAbs exponent
      else if letter = 101 ∨ letter = 69 then sign ++ scientific letter mantissa.natAbs exponent
      else [37, letter]

def integer (base : Nat) (value : Int) : Text :=
  (if value < 0 then [45] else []) ++ (Numeral.digits base value.natAbs).map Numeral.digitByte

def character? : Value → Option Text
  | .int code => if 0 ≤ code ∧ code ≤ 0x10FFFF then some (Glyph.encode code.toNat) else none
  | .string bytes =>
      match Text.glyphs bytes.toList with
      | [glyph] => some (Glyph.encode glyph.code)
      | _ => none
  | _ => none

/-- The floating-point number nearest to a number, be it infinite. -/
def real? : Value → Option Float
  | .int value => some (if value < 0 then -(Real.ofNat value.natAbs) else Real.ofNat value.natAbs)
  | .float value => some value
  | _ => none

def convert (store : Store) (letter : UInt8) (value : Value) : Option Text :=
  if letter = 115 then some (store.text value)
  else if letter = 114 then some (store.literal value)
  else if letter = 100 ∨ letter = 105 then value.integer?.map Numeral.signedLong
  else if letter = 111 then value.integer?.map (integer 8)
  else if letter = 120 then value.integer?.map (integer 16)
  else if letter = 88 then value.integer?.map fun number => capital (integer 16 number)
  else if [101, 102, 103, 69, 70, 71].contains letter then (real? value).map (real letter)
  else if letter = 99 then character? value
  else if letter = 37 then some [37]
  else none

/-- Fills values into a text. Without names every value has to be used. -/
def fill (store : Store) (named : Option Dict) (text : Text) (pending : List Value) :
    Option Text :=
  match text with
  | [] => if pending.isEmpty || named.isSome then some [] else none
  | 37 :: 37 :: rest => (fill store named rest pending).map (37 :: ·)
  | 37 :: 40 :: rest =>
      let name := rest.takeWhile (· != 41)
      match rest.drop name.length with
      | 41 :: letter :: _ => do
          let value ← ((← named).find? (.ofText name)).join
          let filled ← convert store letter value
          let others ← fill store named (rest.drop (name.length + 2)) (pending.drop 1)
          return filled ++ others
      | _ => none
  | 37 :: letter :: rest =>
      match pending with
      | [] => none
      | value :: more => do
          let filled ← convert store letter value
          let others ← fill store named rest more
          return filled ++ others
  | [37] => none
  | byte :: rest => (fill store named rest pending).map (byte :: ·)
termination_by text.length
decreasing_by all_goals (simp only [List.length_cons, List.length_drop]; omega)

end Format

/-- A text with the elements of a tuple or the entries of a dictionary filled in, or one value. -/
def Store.interpolate (store : Store) (text : Text) (value : Value) : Option Text :=
  match value with
  | .tuple items => Format.fill store none text items
  | .dict cell => Format.fill store (some (store.entries cell)) text [value]
  | value => Format.fill store none text [value]

end Nibble.Expression
