import Nibble.Number

set_option autoImplicit false

/-! Written numbers read back: the digits of a number have its value, and a hexadecimal literal of
a number of 32 bits denotes that number, whatever its width. -/

namespace Nibble

namespace Numeral

theorem digits_of_lt {base number : Nat} (small : number < base) :
    digits base number = [number] :=
  digitsOnto_last [] (.inr small)

theorem digits_of_le {base number : Nat} (radix : 2 ≤ base) (large : base ≤ number) :
    digits base number = digits base (number / base) ++ [number % base] := by
  rw [digits, digitsOnto_more [] (by omega), digitsOnto_eq_append]

theorem digits_ne_nil (base number : Nat) : digits base number ≠ [] := by
  by_cases last : base < 2 ∨ number < base
  · rw [digits, digitsOnto_last [] last]
    exact List.cons_ne_nil _ _
  · rw [digits_of_le (by omega) (by omega)]
    exact List.append_ne_nil_of_right_ne_nil _ (List.cons_ne_nil _ _)

theorem lt_of_mem_digits {base : Nat} (radix : 2 ≤ base) (number : Nat) :
    ∀ digit ∈ digits base number, digit < base := by
  induction number using Nat.strongRecOn with
  | ind number smaller =>
      intro digit member
      by_cases small : number < base
      · rw [digits_of_lt small, List.mem_singleton] at member
        omega
      · rw [digits_of_le radix (by omega), List.mem_append, List.mem_singleton] at member
        rcases member with earlier | last
        · exact smaller (number / base) (Nat.div_lt_self (by omega) (by omega)) digit earlier
        · rw [last]
          exact Nat.mod_lt _ (by omega)

theorem length_digits_le {base : Nat} (radix : 2 ≤ base) (number width : Nat)
    (bounded : number < Nat.pow base (width + 1)) : (digits base number).length ≤ width + 1 := by
  induction width generalizing number with
  | zero =>
      rw [digits_of_lt (by simpa using bounded)]
      exact Nat.le_refl 1
  | succ width ih =>
      by_cases small : number < base
      · rw [digits_of_lt small, List.length_singleton]
        omega
      · have shorter : number / base < Nat.pow base (width + 1) := by
          rw [Nat.div_lt_iff_lt_mul (by omega)]
          exact bounded
        have tail := ih (number / base) shorter
        rw [digits_of_le radix (by omega), List.length_append, List.length_singleton]
        omega

/-- The value of digits, most significant first, behind a value that is there already. -/
def continueValue (base value : Nat) (digits : List Nat) : Nat :=
  digits.foldl (fun value digit => value * base + digit) value

theorem continueValue_digits {base : Nat} (radix : 2 ≤ base) (number : Nat) :
    continueValue base 0 (digits base number) = number := by
  induction number using Nat.strongRecOn with
  | ind number smaller =>
      by_cases small : number < base
      · rw [digits_of_lt small]
        simp [continueValue]
      · have shorter : number / base < number := Nat.div_lt_self (by omega) (by omega)
        have tail := smaller (number / base) shorter
        rw [continueValue] at tail
        rw [digits_of_le radix (by omega), continueValue, List.foldl_append, tail]
        exact Nat.div_add_mod' number base

theorem continueValue_zeros (base count : Nat) (digits : List Nat) :
    continueValue base 0 (List.replicate count 0 ++ digits) = continueValue base 0 digits := by
  induction count with
  | zero => rfl
  | succ count ih =>
      rw [List.replicate_succ, List.cons_append, continueValue, List.foldl_cons, Nat.zero_mul]
      exact ih

theorem le_continueValue {base : Nat} (radix : 1 ≤ base) (value : Nat) (digits : List Nat) :
    value ≤ continueValue base value digits := by
  induction digits generalizing value with
  | nil => exact Nat.le_refl _
  | cons digit rest ih =>
      have grows : value ≤ value * base := Nat.le_mul_of_pos_right value radix
      exact Nat.le_trans (by omega) (ih (value * base + digit))

theorem hexPadded_eq_map (width number : Nat) :
    hexPadded width number =
      (List.replicate (width - (hex number).length) 0 ++ digits 16 number).map digitByte := by
  rw [hexPadded, zeroPadded, List.map_append, List.map_replicate]
  rfl

/-- Padded hexadecimal digits: there is one at least, and their value is the number. -/
theorem exists_padded (width number : Nat) :
    ∃ padded, hexPadded width number = padded.map digitByte ∧ padded ≠ [] ∧
      (∀ digit ∈ padded, digit < 16) ∧ continueValue 16 0 padded = number := by
  refine ⟨_, hexPadded_eq_map width number, ?_, ?_, ?_⟩
  · exact List.append_ne_nil_of_right_ne_nil _ (digits_ne_nil 16 number)
  · intro digit member
    rcases List.mem_append.mp member with zero | proper
    · rw [List.eq_of_mem_replicate zero]
      decide
    · exact lt_of_mem_digits (by decide) number digit proper
  · rw [continueValue_zeros, continueValue_digits (by decide)]

theorem decimal_ne_nil (number : Nat) : decimal number ≠ [] := by
  intro empty
  exact digits_ne_nil 10 number (List.map_eq_nil_iff.mp empty)

theorem range_of_mem_decimal {number : Nat} {byte : UInt8} (member : byte ∈ decimal number) :
    48 ≤ byte.toNat ∧ byte.toNat ≤ 57 := by
  obtain ⟨digit, present, rfl⟩ := List.mem_map.mp member
  have small := lt_of_mem_digits (by omega : 2 ≤ 10) number digit present
  clear member present
  revert digit
  decide

theorem digits_zero {base : Nat} (radix : 2 ≤ base) : digits base 0 = [0] :=
  digits_of_lt (by omega)

/-- No zero stands in front of the digits of a number. -/
theorem head?_digits_ne_zero {base number : Nat} (radix : 2 ≤ base) (positive : 0 < number) :
    (digits base number).head? ≠ some 0 := by
  induction number using Nat.strongRecOn with
  | ind number smaller =>
      by_cases small : number < base
      · rw [digits_of_lt small]
        simp only [List.head?_cons, ne_eq, Option.some.injEq]
        omega
      · have quotient : 0 < number / base := Nat.div_pos (by omega) (by omega)
        have first := smaller _ (Nat.div_lt_self positive (by omega)) quotient
        rw [digits_of_le radix (by omega), List.head?_append]
        cases shape : digits base (number / base) with
        | nil => exact absurd shape (digits_ne_nil _ _)
        | cons digit rest =>
            rw [shape] at first
            exact first

theorem not_mem_decimal (number : Nat) {mark : UInt8}
    (outside : mark.toNat < 48 ∨ 57 < mark.toNat) : mark ∉ decimal number := by
  intro member
  have range := range_of_mem_decimal member
  omega

theorem signed_ne_nil (number : Int) : signed number ≠ [] := by
  cases number with
  | ofNat number => exact decimal_ne_nil number
  | negSucc number => exact List.cons_ne_nil _ _

theorem range_of_mem_signed {number : Int} {byte : UInt8} (member : byte ∈ signed number) :
    byte = 45 ∨ 48 ≤ byte.toNat ∧ byte.toNat ≤ 57 := by
  cases number with
  | ofNat number => exact .inr (range_of_mem_decimal member)
  | negSucc number =>
      rcases List.mem_cons.mp member with sign | digit
      · exact .inl sign
      · exact .inr (range_of_mem_decimal digit)

theorem not_mem_signed (number : Int) {mark : UInt8} (unsigned : mark ≠ 45)
    (outside : mark.toNat < 48 ∨ 57 < mark.toNat) : mark ∉ signed number := by
  intro member
  rcases range_of_mem_signed member with sign | range
  · exact unsigned sign
  · omega

end Numeral

namespace Number

open Numeral (digitByte digits hexPadded hexLiteral continueValue)

theorem digitValue?_digitByte {digit : Nat} (bounded : digit < 36) :
    digitValue? (digitByte digit) = some digit := by
  revert digit
  decide

theorem digitByte_ne_underscore {digit : Nat} (bounded : digit < 36) :
    digitByte digit ≠ underscore := by
  revert digit
  decide

/-- Digits that are all below the base, and whose value does not exceed the limit, are read as that
value. -/
theorem accumulate_digits {base limit : Nat} (radix : 1 ≤ base) (largest : base ≤ 36) (value : Nat)
    {digits : List Nat} (below : ∀ digit ∈ digits, digit < base)
    (fits : continueValue base value digits ≤ limit) :
    accumulate base limit value (digits.map digitByte) = .ok (continueValue base value digits) := by
  induction digits generalizing value with
  | nil => rfl
  | cons digit rest ih =>
      have small := below digit List.mem_cons_self
      -- The value only grows, so that the limit on the whole bounds every step.
      have within : value * base + digit ≤ limit :=
        Nat.le_trans (Numeral.le_continueValue radix _ rest) fits
      rw [List.map_cons, accumulate, if_neg (digitByte_ne_underscore (by omega)),
        digitValue?_digitByte (by omega)]
      simp only [if_neg (Nat.not_le_of_lt small), if_neg (Nat.not_lt_of_le within)]
      exact ih (value * base + digit)
        (fun other member => below other (List.mem_cons_of_mem _ member)) fits

theorem accumulate_decimal {limit number : Nat} (fits : number ≤ limit) :
    accumulate 10 limit 0 (Numeral.decimal number) = .ok number := by
  have value := Numeral.continueValue_digits (by omega : 2 ≤ 10) number
  have below := Numeral.lt_of_mem_digits (by omega : 2 ≤ 10) number
  rw [← value] at fits
  have read := accumulate_digits (by omega) (by omega) 0 below fits
  rw [value] at read
  exact read

/-- Digits whose value exceeds the limit are refused. -/
theorem accumulate_large {base limit : Nat} (largest : base ≤ 36) {value : Nat}
    {digits : List Nat} (below : ∀ digit ∈ digits, digit < base) (started : value ≤ limit)
    (large : limit < continueValue base value digits) :
    accumulate base limit value (digits.map digitByte) = .error .tooLarge := by
  induction digits generalizing value with
  | nil => exact absurd started (Nat.not_le_of_lt large)
  | cons digit rest ih =>
      have small := below digit List.mem_cons_self
      rw [List.map_cons, accumulate, if_neg (digitByte_ne_underscore (by omega)),
        digitValue?_digitByte (by omega)]
      simp only [if_neg (Nat.not_le_of_lt small)]
      split
      · rfl
      · next within =>
        exact ih (fun other member => below other (List.mem_cons_of_mem _ member))
          (Nat.le_of_not_lt within) large

theorem decimal_injective {number other : Nat}
    (same : Numeral.decimal number = Numeral.decimal other) : number = other := by
  have first := accumulate_decimal (Nat.le_max_left number other)
  have second := accumulate_decimal (Nat.le_max_right number other)
  rw [same, second] at first
  exact (Except.ok.inj first).symm

theorem underscore_not_mem_decimal (number : Nat) : underscore ∉ Numeral.decimal number := by
  intro member
  obtain ⟨digit, present, written⟩ := List.mem_map.mp member
  have small := Numeral.lt_of_mem_digits (by omega : 2 ≤ 10) number digit present
  exact digitByte_ne_underscore (by omega) written

theorem splitRadix_of_ne_zero {first : UInt8} {rest : Text} (other : first ≠ 48) :
    splitRadix (first :: rest) = (10, first :: rest) := by
  unfold splitRadix
  split
  · next same => exact absurd (List.cons.inj same).1 other
  · next same => exact absurd (List.cons.inj same).1 other
  · rfl

theorem unsigned_decimal (limit number : Nat) :
    unsigned limit (Numeral.decimal number) =
      if number ≤ limit then .ok number else .error .tooLarge := by
  have unseparated : (Numeral.decimal number).contains underscore = false := by
    rw [← Bool.not_eq_true, List.contains_iff_mem]
    exact underscore_not_mem_decimal number
  have nonempty : (Numeral.decimal number).isEmpty = false := by
    rw [List.isEmpty_eq_false_iff]
    exact Numeral.decimal_ne_nil number
  have read : accumulate (splitRadix (Numeral.decimal number)).1 limit 0
      (splitRadix (Numeral.decimal number)).2 =
        if number ≤ limit then .ok number else .error .tooLarge := by
    rcases Nat.eq_zero_or_pos number with rfl | positive
    · rw [Numeral.decimal, Numeral.digits_zero (by decide), if_pos (Nat.zero_le limit)]
      rfl
    · have decimal : splitRadix (Numeral.decimal number) = (10, Numeral.decimal number) := by
        have leading := Numeral.head?_digits_ne_zero (by decide : 2 ≤ 10) positive
        have below := Numeral.lt_of_mem_digits (by decide : 2 ≤ 10) number
        rw [Numeral.decimal]
        cases shape : digits 10 number with
        | nil => exact absurd shape (Numeral.digits_ne_nil 10 number)
        | cons digit rest =>
            rw [shape] at leading below
            have small := below digit List.mem_cons_self
            apply splitRadix_of_ne_zero
            intro zero
            have value := digitValue?_digitByte (Nat.lt_trans small (by decide))
            rw [zero] at value
            exact leading (congrArg some (Option.some.inj value).symm)
      rw [decimal]
      dsimp only
      split
      · next fits => exact accumulate_decimal fits
      · next large =>
        apply accumulate_large (by decide) (Numeral.lt_of_mem_digits (by decide) number)
          (Nat.zero_le limit)
        rw [Numeral.continueValue_digits (by decide)]
        omega
  rw [unsigned, nonempty, if_neg Bool.false_ne_true, read, unseparated]
  by_cases fits : number ≤ limit
  · rw [if_pos fits]
    rfl
  · rw [if_neg fits]

theorem accumulate_hexPadded {limit number : Nat} (width : Nat) (fits : number ≤ limit) :
    accumulate 16 limit 0 (hexPadded width number) = .ok number := by
  obtain ⟨padded, written, _, below, value⟩ := Numeral.exists_padded width number
  rw [written, accumulate_digits (by decide) (by decide) 0 below (by rw [value]; exact fits), value]

theorem unsigned_hexLiteral {limit number : Nat} (width : Nat) (fits : number ≤ limit) :
    unsigned limit (hexLiteral width number) = .ok number := by
  obtain ⟨padded, written, nonempty, below, _⟩ := Numeral.exists_padded width number
  have split : splitRadix (hexLiteral width number) = (16, hexPadded width number) := by
    rw [hexLiteral, written]
    cases shape : padded with
    | nil => exact absurd shape nonempty
    | cons first rest => rfl
  have unseparated : (hexLiteral width number).contains underscore = false := by
    rw [← Bool.not_eq_true, List.contains_iff_mem]
    intro member
    rw [hexLiteral, written, List.mem_append, List.mem_map] at member
    rcases member with front | ⟨digit, inside, same⟩
    · revert front
      decide
    · exact digitByte_ne_underscore (Nat.lt_trans (below digit inside) (by decide)) same
  rw [unsigned, split, accumulate_hexPadded width fits, unseparated]
  rfl

theorem toNat_wrap (value : Int) : (wrap value).toNat = (value % 0x100000000).toNat := by
  have bits : ∀ other : Int, (UInt32.ofInt other).toNat = (other % 0x100000000).toNat := by
    intro other
    rw [UInt32.ofInt, UInt32.toNat_ofNat']
    apply Nat.mod_eq_of_lt
    omega
  unfold wrap
  split
  · rw [bits]
    omega
  · exact bits value

/-- The bits of a number are those of its integer modulo 32 bits, or what they lack. -/
theorem ofWord_eq (word : Text) :
    ofWord word =
      match integer? (splitTilde word).2 with
      | none => .error (splitTilde word).2
      | some value =>
          let bits := (value % 0x100000000).toNat
          .ok (if (splitTilde word).1 then 0xFFFFFFFF - bits else bits) := by
  rw [ofWord]
  cases integer? (splitTilde word).2 with
  | none => rfl
  | some value =>
      have size : UInt32.size - 1 = 0xFFFFFFFF := rfl
      dsimp only
      rw [apply_ite UInt32.toNat, UInt32.toNat_not, toNat_wrap, size]

/-- The bits that are lost to the sign are left to numbers of 32 bits without one. -/
theorem integer?_eq (text : Text) :
    integer? text =
      match unsigned 0x1FFFFFFFF (splitSign text).2 with
      | .error _ => none
      | .ok number =>
          if (splitSign text).1 then if number ≤ 0x80000000 then some (-number) else none
          else if number ≤ 0xFFFFFFFF then some number else none := by
  have limit : 1 <<< 33 - 1 = 0x1FFFFFFFF := rfl
  have half : 1 <<< (33 - 1) = 0x100000000 := rfl
  rw [integer?, signed, limit, half]
  cases unsigned 0x1FFFFFFFF (splitSign text).2 with
  | error fault => rfl
  | ok number =>
      cases (splitSign text).1 with
      | false =>
          simp only [Bool.false_eq_true, if_false]
          by_cases fits : number ≤ 0xFFFFFFFF
          · rw [if_neg (by omega), if_pos fits]
            exact if_neg (by omega)
          · rw [if_pos (by omega), if_neg fits]
      | true =>
          simp only [if_true]
          by_cases fits : number ≤ 0x80000000
          · rw [if_neg (by omega), if_pos fits]
            exact if_neg (by omega)
          · rw [if_neg fits]
            by_cases large : number > 0x100000000
            · rw [if_pos large]
            · rw [if_neg large]
              exact if_pos (by omega)

theorem ofWord_hexLiteral {number : Nat} (width : Nat) (fits : number ≤ 0xFFFFFFFF) :
    ofWord (hexLiteral width number) = .ok number := by
  have unsigned : splitSign (hexLiteral width number) = (false, hexLiteral width number) := by
    rw [hexLiteral]
    rfl
  have untilded : splitTilde (hexLiteral width number) = (false, hexLiteral width number) := by
    rw [hexLiteral]
    rfl
  have wrapped : ((number : Int) % 0x100000000).toNat = number := by
    omega
  rw [ofWord_eq, untilded, integer?_eq, unsigned, unsigned_hexLiteral width (by omega)]
  simp only [Bool.false_eq_true, if_false, if_pos fits, wrapped]

theorem splitSign_of_ne {text : Text} (plus : text.head? ≠ some 43)
    (minus : text.head? ≠ some 45) : splitSign text = (false, text) := by
  unfold splitSign
  split
  · exact absurd rfl plus
  · exact absurd rfl minus
  · rfl

theorem splitSign_decimal (number : Nat) :
    splitSign (Numeral.decimal number) = (false, Numeral.decimal number) := by
  apply splitSign_of_ne
  · intro first
    exact Numeral.not_mem_decimal number (by decide) (List.mem_of_head? first)
  · intro first
    exact Numeral.not_mem_decimal number (by decide) (List.mem_of_head? first)

theorem integer?_signed (number : Int) :
    integer? (Numeral.signed number) =
      if -0x80000000 ≤ number ∧ number < 0x100000000 then some number else none := by
  cases number with
  | ofNat number =>
      rw [Numeral.signed, integer?_eq, splitSign_decimal, unsigned_decimal, Int.ofNat_eq_natCast]
      by_cases fits : number ≤ 0xFFFFFFFF
      · rw [if_pos (by omega), if_pos (by omega)]
        exact if_pos fits
      · rw [if_neg (by omega : ¬ (-0x80000000 ≤ (number : Int) ∧ (number : Int) < 0x100000000))]
        by_cases read : number ≤ 0x1FFFFFFFF
        · rw [if_pos read]
          exact if_neg fits
        · rw [if_neg read]
  | negSucc number =>
      have minus : splitSign (45 :: Numeral.decimal (number + 1)) =
          (true, Numeral.decimal (number + 1)) := rfl
      rw [Numeral.signed, integer?_eq, minus, unsigned_decimal]
      by_cases small : number + 1 ≤ 0x80000000
      · rw [if_pos (by omega), if_pos (by omega), Int.negSucc_eq]
        exact if_pos small
      · rw [if_neg (by omega : ¬ (-0x80000000 ≤ Int.negSucc number ∧
          Int.negSucc number < 0x100000000))]
        by_cases read : number + 1 ≤ 0x1FFFFFFFF
        · rw [if_pos read]
          exact if_neg small
        · rw [if_neg read]

/-- A decimal numeral with or without a sign denotes the 32 bits of its integer, which has to be in
the range of numbers. -/
theorem ofWord_signed (number : Int) :
    ofWord (Numeral.signed number) =
      if -0x80000000 ≤ number ∧ number < 0x100000000 then .ok (number % 0x100000000).toNat
      else .error (Numeral.signed number) := by
  have untilded : splitTilde (Numeral.signed number) = (false, Numeral.signed number) := by
    unfold splitTilde
    split
    · next same =>
      exact absurd (same ▸ List.mem_cons_self)
        (Numeral.not_mem_signed number (by decide) (by decide))
    · rfl
  rw [ofWord_eq, untilded, integer?_signed]
  by_cases fits : -0x80000000 ≤ number ∧ number < 0x100000000
  · rw [if_pos fits, if_pos fits]
    rfl
  · rw [if_neg fits, if_neg fits]

end Number

end Nibble
