import Nibble.Proofs.Assembly.Grammar

set_option autoImplicit false

/-! The grammar of numbers, and what is read by it. A number is written in decimal, or behind the
mark of another base; single underscores part its digits from each other and from the mark. The
words that are read as numbers are those that the grammar has, with a sign or without, and with a
value of the range of numbers, and they denote the bits of just that value. -/

namespace Nibble.Number

open Text (ascii)
open Numeral (continueValue hexLiteral)

/-! ### Grammar -/

/-- Digits below sixteen are figures and letters in either case. -/
def IsDigit (byte : UInt8) (digit : Nat) : Prop :=
  (ascii "0123456789abcdef")[digit]? = some byte ∨
    (ascii "0123456789ABCDEF")[digit]? = some byte

/-- Digits below a base, with at most one underscore between neighbours. -/
inductive Digits (base : Nat) : Text → List Nat → Prop where
  | single {byte : UInt8} {digit : Nat} (sign : IsDigit byte digit) (small : digit < base) :
      Digits base [byte] [digit]
  | next {byte : UInt8} {digit : Nat} {text : Text} {digits : List Nat}
      (sign : IsDigit byte digit) (small : digit < base) (rest : Digits base text digits) :
      Digits base (byte :: text) (digit :: digits)
  | parted {byte : UInt8} {digit : Nat} {text : Text} {digits : List Nat}
      (sign : IsDigit byte digit) (small : digit < base) (rest : Digits base text digits) :
      Digits base (byte :: underscore :: text) (digit :: digits)

/-- The letters that stand for a base behind a zero. -/
inductive Radix : UInt8 → Nat → Prop where
  | binary {letter : UInt8} (member : letter ∈ ascii "bB") : Radix letter 2
  | octal {letter : UInt8} (member : letter ∈ ascii "oO") : Radix letter 8
  | hexadecimal {letter : UInt8} (member : letter ∈ ascii "xX") : Radix letter 16

/-- An unsigned number and its value. Behind the mark of its base, which is a zero alone for the
base eight, there may be an underscore. -/
inductive Literal : Text → Nat → Prop where
  | zero : Literal (ascii "0") 0
  | decimal {text : Text} {digits : List Nat} (written : Digits 10 text digits)
      (leading : digits.head? ≠ some 0) : Literal text (continueValue 10 0 digits)
  | octal {gap text : Text} {digits : List Nat} (parted : gap = [] ∨ gap = [underscore])
      (written : Digits 8 text digits) :
      Literal (48 :: (gap ++ text)) (continueValue 8 0 digits)
  | marked {letter : UInt8} {base : Nat} {gap text : Text} {digits : List Nat}
      (radix : Radix letter base) (parted : gap = [] ∨ gap = [underscore])
      (written : Digits base text digits) :
      Literal (48 :: letter :: (gap ++ text)) (continueValue base 0 digits)

/-- A number with or without a sign. -/
inductive Integer : Text → Int → Prop where
  | unsigned {text : Text} {value : Nat} (written : Literal text value) : Integer text value
  | plus {text : Text} {value : Nat} (written : Literal text value) : Integer (43 :: text) value
  | minus {text : Text} {value : Nat} (written : Literal text value) :
      Integer (45 :: text) (-(value : Int))

/-- The bits that a word denotes: those of an integer in two's complement, or behind a tilde all
others. -/
inductive Denotes : Text → Nat → Prop where
  | upright {text : Text} {value : Int} (written : Integer text value)
      (lower : -0x80000000 ≤ value) (upper : value ≤ 0xFFFFFFFF) :
      Denotes text (value % 0x100000000).toNat
  | inverted {text : Text} {value : Int} (written : Integer text value)
      (lower : -0x80000000 ≤ value) (upper : value ≤ 0xFFFFFFFF) :
      Denotes (126 :: text) (0xFFFFFFFF - (value % 0x100000000).toNat)

/-! ### Digits -/

theorem isDigit_iff {byte : UInt8} {digit : Nat} :
    IsDigit byte digit ↔ digitValue? byte = some digit ∧ digit < 16 := by
  constructor
  · intro sign
    have small : digit < 16 := by
      rcases sign with lower | upper
      · exact (List.getElem?_eq_some_iff.mp lower).1
      · exact (List.getElem?_eq_some_iff.mp upper).1
    have values := Sentence.value_of_digit ⟨digit, small⟩
    refine ⟨?_, small⟩
    rcases sign with lower | upper
    · exact values.1 byte lower
    · exact values.2 byte upper
  · rintro ⟨value, small⟩
    have sign := Sentence.exists_digit_of_value ⟨byte.toNat, byte.toNat_lt⟩ digit
    rw [UInt8.ofNat_toNat] at sign
    exact sign value small

theorem IsDigit.ne {byte mark : UInt8} {digit : Nat} (sign : IsDigit byte digit)
    (odd : digitValue? mark = none) : byte ≠ mark := by
  intro same
  have value := (isDigit_iff.mp sign).1
  rw [same, odd] at value
  cases value

theorem IsDigit.ne_underscore {byte : UInt8} {digit : Nat} (sign : IsDigit byte digit) :
    byte ≠ underscore :=
  sign.ne (by decide)

theorem isDigit_zero_iff {digit : Nat} : IsDigit 48 digit ↔ digit = 0 := by
  rw [isDigit_iff]
  constructor
  · intro both
    exact (Option.some.inj both.1).symm
  · intro zero
    rw [zero]
    decide

theorem accumulate_digit {base limit start digit : Nat} {byte : UInt8} (sign : IsDigit byte digit)
    (small : digit < base) (fits : start * base + digit ≤ limit) (rest : Text) :
    accumulate base limit start (byte :: rest) =
      accumulate base limit (start * base + digit) rest := by
  rw [accumulate, if_neg sign.ne_underscore, (isDigit_iff.mp sign).1]
  simp only [if_neg (Nat.not_le_of_lt small), if_neg (Nat.not_lt_of_le fits)]

theorem accumulate_underscore (base limit start : Nat) (rest : Text) :
    accumulate base limit start (underscore :: rest) = accumulate base limit start rest := by
  rw [accumulate, if_pos rfl]

theorem exists_isDigit_of_accumulate {base limit start value : Nat} {byte : UInt8} {rest : Text}
    (hexadecimal : base ≤ 16) (other : byte ≠ underscore)
    (read : accumulate base limit start (byte :: rest) = .ok value) :
    ∃ digit, IsDigit byte digit ∧ digit < base ∧ start * base + digit ≤ limit ∧
      accumulate base limit (start * base + digit) rest = .ok value := by
  rw [accumulate, if_neg other] at read
  cases known : digitValue? byte with
  | none =>
      rw [known] at read
      cases read
  | some digit =>
      rw [known] at read
      dsimp only at read
      split at read
      · cases read
      · next small =>
        split at read
        · cases read
        · next fits =>
          have below := Nat.lt_of_not_le small
          exact ⟨digit, isDigit_iff.mpr ⟨known, by omega⟩, below, Nat.le_of_not_lt fits, read⟩

theorem accumulate_le {base limit start value : Nat} {text : Text} (started : start ≤ limit)
    (read : accumulate base limit start text = .ok value) : value ≤ limit := by
  induction text generalizing start with
  | nil =>
      cases read
      exact started
  | cons byte rest ih =>
      rw [accumulate] at read
      split at read
      · exact ih started read
      · split at read
        · cases read
        · split at read
          · cases read
          · split at read
            · cases read
            · next fits => exact ih (Nat.le_of_not_lt fits) read

namespace Digits

variable {base : Nat} {text : Text} {digits : List Nat}

theorem accumulate_eq (written : Digits base text digits) (positive : 1 ≤ base) {limit start : Nat}
    (fits : continueValue base start digits ≤ limit) :
    accumulate base limit start text = .ok (continueValue base start digits) := by
  induction written generalizing start with
  | single sign small =>
      rw [accumulate_digit sign small fits]
      rfl
  | @next byte digit text digits sign small rest ih =>
      -- The value only grows, so that the limit on the whole bounds every step.
      have within : start * base + digit ≤ limit :=
        Nat.le_trans (Numeral.le_continueValue positive _ digits) fits
      rw [accumulate_digit sign small within]
      exact ih fits
  | @parted byte digit text digits sign small rest ih =>
      have within : start * base + digit ≤ limit :=
        Nat.le_trans (Numeral.le_continueValue positive _ digits) fits
      rw [accumulate_digit sign small within, accumulate_underscore]
      exact ih fits

theorem separated_eq (written : Digits base text digits) (afterDigit : Bool) :
    separated afterDigit text = true := by
  induction written generalizing afterDigit with
  | single sign small =>
      rw [separated, if_neg sign.ne_underscore]
      rfl
  | next sign small rest ih =>
      rw [separated, if_neg sign.ne_underscore]
      exact ih true
  | parted sign small rest ih =>
      rw [separated, if_neg sign.ne_underscore, separated, if_pos rfl, Bool.true_and]
      exact ih false

theorem exists_first (written : Digits base text digits) :
    ∃ byte digit rest others, text = byte :: rest ∧ digits = digit :: others ∧
      IsDigit byte digit ∧ digit < base := by
  cases written with
  | single sign small => exact ⟨_, _, _, _, rfl, rfl, sign, small⟩
  | next sign small rest => exact ⟨_, _, _, _, rfl, rfl, sign, small⟩
  | parted sign small rest => exact ⟨_, _, _, _, rfl, rfl, sign, small⟩

end Digits

/-- What can follow a digit or the mark of a base. -/
inductive Follows (base : Nat) : Text → List Nat → Prop where
  | nothing : Follows base [] []
  | digits {gap text : Text} {digits : List Nat} (parted : gap = [] ∨ gap = [underscore])
      (written : Digits base text digits) : Follows base (gap ++ text) digits

theorem Follows.behind {base digit : Nat} {text : Text} {digits : List Nat} {byte : UInt8}
    (follows : Follows base text digits) (sign : IsDigit byte digit) (small : digit < base) :
    Digits base (byte :: text) (digit :: digits) := by
  cases follows with
  | nothing => exact .single sign small
  | digits parted written =>
      rcases parted with rfl | rfl
      · exact .next sign small written
      · exact .parted sign small written

/-- What is read as digits, and has its underscores where they may stand, is written by the
grammar. -/
theorem digits_of_accumulate {base limit start value : Nat} {text : Text} (hexadecimal : base ≤ 16)
    (read : accumulate base limit start text = .ok value) :
    (separated false text = true →
      ∃ digits, Digits base text digits ∧ value = continueValue base start digits) ∧
    (separated true text = true →
      ∃ digits, Follows base text digits ∧ value = continueValue base start digits) := by
  induction text generalizing start with
  | nil =>
      cases read
      constructor
      · intro placed
        cases placed
      · intro _
        exact ⟨[], .nothing, rfl⟩
  | cons byte rest ih =>
      by_cases separator : byte = underscore
      · subst separator
        rw [accumulate_underscore] at read
        constructor
        · intro placed
          cases placed
        · intro placed
          obtain ⟨digits, written, same⟩ := (ih read).1 placed
          exact ⟨digits, .digits (.inr rfl) written, same⟩
      · obtain ⟨digit, sign, small, _, later⟩ :=
          exists_isDigit_of_accumulate hexadecimal separator read
        have behind : ∀ afterDigit, separated afterDigit (byte :: rest) = true →
            ∃ digits, Digits base (byte :: rest) digits ∧
              value = continueValue base start digits := by
          intro afterDigit placed
          rw [separated, if_neg separator] at placed
          obtain ⟨digits, follows, same⟩ := (ih later).2 placed
          exact ⟨digit :: digits, follows.behind sign small, same⟩
        refine ⟨behind false, ?_⟩
        intro placed
        obtain ⟨digits, written, same⟩ := behind true placed
        exact ⟨digits, .digits (.inl rfl) written, same⟩

/-! ### Unsigned numbers -/

theorem radix_iff {letter : UInt8} {base : Nat} :
    Radix letter base ↔ letterBase? letter = some base := by
  have binary : letter ∈ ascii "bB" ↔ letter = 98 ∨ letter = 66 := by
    show letter ∈ [98, 66] ↔ _
    simp
  have octal : letter ∈ ascii "oO" ↔ letter = 111 ∨ letter = 79 := by
    show letter ∈ [111, 79] ↔ _
    simp
  have hexadecimal : letter ∈ ascii "xX" ↔ letter = 120 ∨ letter = 88 := by
    show letter ∈ [120, 88] ↔ _
    simp
  constructor
  · intro radix
    cases radix with
    | binary member => rcases binary.mp member with rfl | rfl <;> rfl
    | octal member => rcases octal.mp member with rfl | rfl <;> rfl
    | hexadecimal member => rcases hexadecimal.mp member with rfl | rfl <;> rfl
  · intro found
    simp only [letterBase?, Bool.or_eq_true, decide_eq_true_eq] at found
    split at found
    · next member =>
      cases found
      exact .binary (binary.mpr member)
    · split at found
      · next member =>
        cases found
        exact .octal (octal.mpr member)
      · split at found
        · next member =>
          cases found
          exact .hexadecimal (hexadecimal.mpr member)
        · cases found

theorem Radix.range {letter : UInt8} {base : Nat} (radix : Radix letter base) :
    1 ≤ base ∧ base ≤ 16 := by
  cases radix with
  | binary | octal | hexadecimal => decide

theorem letterBase?_of_isDigit {byte : UInt8} {digit : Nat} (sign : IsDigit byte digit)
    (small : digit < 8) : letterBase? byte = none := by
  have figures : ∀ index : Fin 8,
      (∀ byte ∈ (ascii "0123456789abcdef")[index.val]?, letterBase? byte = none) ∧
        ∀ byte ∈ (ascii "0123456789ABCDEF")[index.val]?, letterBase? byte = none := by
    decide +kernel
  rcases sign with lower | upper
  · exact (figures ⟨digit, small⟩).1 byte lower
  · exact (figures ⟨digit, small⟩).2 byte upper

theorem Follows.accumulate_eq {base limit : Nat} {text : Text} {digits : List Nat}
    (follows : Follows base text digits) (positive : 1 ≤ base)
    (fits : continueValue base 0 digits ≤ limit) :
    accumulate base limit 0 text = .ok (continueValue base 0 digits) := by
  cases follows with
  | nothing => rfl
  | digits parted written =>
      have read := written.accumulate_eq positive fits
      rcases parted with rfl | rfl
      · exact read
      · rw [List.singleton_append, accumulate_underscore]
        exact read

theorem Follows.separated_eq {base : Nat} {text : Text} {digits : List Nat}
    (follows : Follows base text digits) : separated true text = true := by
  cases follows with
  | nothing => rfl
  | digits parted written =>
      rcases parted with rfl | rfl
      · exact written.separated_eq true
      · exact written.separated_eq false

section

variable {letter : UInt8} {base : Nat} {rest : Text}

theorem splitRadix_marked (radix : Radix letter base) (nonempty : rest ≠ []) :
    splitRadix (48 :: letter :: rest) = (base, rest) := by
  cases rest with
  | nil => exact absurd rfl nonempty
  | cons digit more => simp only [splitRadix, radix_iff.mp radix]

theorem underscoresPlaced_marked (radix : Radix letter base) :
    underscoresPlaced (48 :: letter :: rest) = separated true rest := by
  simp only [underscoresPlaced, radix_iff.mp radix, Option.isSome_some, if_true]

theorem splitRadix_octal (unmarked : ∀ letter ∈ rest.head?, letterBase? letter = none) :
    splitRadix (48 :: rest) = (8, rest) := by
  rcases rest with _ | ⟨letter, _ | ⟨digit, more⟩⟩
  · rfl
  · rfl
  · simp only [splitRadix, unmarked letter rfl]

theorem underscoresPlaced_octal (unmarked : ∀ letter ∈ rest.head?, letterBase? letter = none) :
    underscoresPlaced (48 :: rest) = separated true rest := by
  cases rest with
  | nil => rfl
  | cons letter more =>
      simp only [underscoresPlaced, unmarked letter rfl, Option.isSome_none, Bool.false_eq_true,
        if_false]
      rfl

theorem underscoresPlaced_of_ne_zero {first : UInt8} (other : first ≠ 48) :
    underscoresPlaced (first :: rest) = separated false (first :: rest) := by
  unfold underscoresPlaced
  split
  · next same => exact absurd (List.cons.inj same).1 other
  · rfl

end

theorem separated_of_not_mem {text : Text} (absent : underscore ∉ text) :
    separated true text = true := by
  induction text with
  | nil => rfl
  | cons byte rest ih =>
      rw [List.mem_cons, not_or] at absent
      rw [separated, if_neg (Ne.symm absent.1)]
      exact ih absent.2

theorem underscoresPlaced_of_not_mem {text : Text} (nonempty : text ≠ [])
    (absent : underscore ∉ text) : underscoresPlaced text = true := by
  have all : separated false text = true := by
    cases text with
    | nil => exact absurd rfl nonempty
    | cons byte rest =>
        rw [List.mem_cons, not_or] at absent
        rw [separated, if_neg (Ne.symm absent.1)]
        exact separated_of_not_mem absent.2
  unfold underscoresPlaced
  split
  · split
    · simp only [List.mem_cons, not_or] at absent
      exact separated_of_not_mem absent.2.2
    · exact all
  · exact all

/-- Underscores are looked at only where there are any, but without any they stand where they
may. -/
theorem unsigned_eq_ok_iff_read {limit value : Nat} {text : Text} :
    unsigned limit text = .ok value ↔
      text ≠ [] ∧ accumulate (splitRadix text).1 limit 0 (splitRadix text).2 = .ok value ∧
        underscoresPlaced text = true := by
  rw [unsigned]
  by_cases empty : text = []
  · subst empty
    constructor
    · rintro ⟨⟩
    · intro all
      exact absurd rfl all.1
  · rw [List.isEmpty_eq_false_iff.mpr empty, if_neg Bool.false_ne_true]
    cases read : accumulate (splitRadix text).1 limit 0 (splitRadix text).2 with
    | error fault =>
        constructor
        · rintro ⟨⟩
        · rintro ⟨_, ⟨⟩, _⟩
    | ok found =>
        dsimp only
        cases placed : underscoresPlaced text with
        | true =>
            rw [Bool.not_true, Bool.and_false, if_neg Bool.false_ne_true]
            exact ⟨fun same => ⟨empty, same, rfl⟩, fun all => all.2.1⟩
        | false =>
            have present : text.contains underscore = true := by
              rw [List.contains_iff_mem]
              apply Decidable.byContradiction
              intro absent
              rw [underscoresPlaced_of_not_mem empty absent] at placed
              cases placed
            rw [present, Bool.not_false, Bool.and_true, if_pos rfl]
            constructor
            · rintro ⟨⟩
            · rintro ⟨_, _, ⟨⟩⟩

theorem literal_of_octal {limit value : Nat} {rest : Text}
    (unmarked : ∀ letter ∈ rest.head?, letterBase? letter = none)
    (read : unsigned limit (48 :: rest) = .ok value) : Literal (48 :: rest) value := by
  obtain ⟨_, accumulated, placed⟩ := unsigned_eq_ok_iff_read.mp read
  rw [splitRadix_octal unmarked] at accumulated
  rw [underscoresPlaced_octal unmarked] at placed
  have eight : 8 ≤ 16 := by
    decide
  obtain ⟨digits, follows, same⟩ := (digits_of_accumulate eight accumulated).2 placed
  rw [same]
  cases follows with
  | nothing => exact .zero
  | digits parted written => exact .octal parted written

theorem literal_of_marked {limit value base : Nat} {letter : UInt8} {rest : Text}
    (radix : Radix letter base) (read : unsigned limit (48 :: letter :: rest) = .ok value) :
    Literal (48 :: letter :: rest) value := by
  obtain ⟨_, accumulated, placed⟩ := unsigned_eq_ok_iff_read.mp read
  cases rest with
  | nil =>
      -- The letter is read as an octal digit then, and it is none.
      have unparted : letter ≠ underscore := by
        intro same
        have known := radix_iff.mp radix
        rw [same] at known
        cases known
      have eight : 8 ≤ 16 := by
        decide
      obtain ⟨digit, sign, small, _⟩ :=
        exists_isDigit_of_accumulate eight unparted accumulated
      have unknown := letterBase?_of_isDigit sign small
      rw [radix_iff.mp radix] at unknown
      cases unknown
  | cons next more =>
      rw [splitRadix_marked radix (List.cons_ne_nil _ _)] at accumulated
      rw [underscoresPlaced_marked radix] at placed
      obtain ⟨digits, follows, same⟩ :=
        (digits_of_accumulate radix.range.2 accumulated).2 placed
      rw [same]
      generalize shape : next :: more = rest at follows
      cases follows with
      | nothing => cases shape
      | digits parted written => exact .marked radix parted written

theorem literal_of_unsigned {limit value : Nat} {text : Text}
    (read : unsigned limit text = .ok value) : Literal text value := by
  rcases text with _ | ⟨first, rest⟩
  · cases read
  · by_cases zero : first = 48
    · subst zero
      rcases rest with _ | ⟨letter, more⟩
      · refine literal_of_octal ?_ read
        rintro _ ⟨⟩
      · cases known : letterBase? letter with
        | some base => exact literal_of_marked (radix_iff.mpr known) read
        | none =>
            refine literal_of_octal ?_ read
            rintro _ ⟨⟩
            exact known
    · obtain ⟨_, accumulated, placed⟩ := unsigned_eq_ok_iff_read.mp read
      rw [splitRadix_of_ne_zero zero] at accumulated
      rw [underscoresPlaced_of_ne_zero zero] at placed
      have ten : 10 ≤ 16 := by
        decide
      obtain ⟨digits, written, same⟩ := (digits_of_accumulate ten accumulated).1 placed
      rw [same]
      refine .decimal written ?_
      obtain ⟨byte, digit, _, _, shape, first, sign, _⟩ := written.exists_first
      cases shape
      intro leading
      rw [first] at leading
      cases leading
      rcases sign with lower | upper
      · exact zero (Option.some.inj lower).symm
      · exact zero (Option.some.inj upper).symm

theorem unsigned_of_literal {limit value : Nat} {text : Text} (literal : Literal text value)
    (fits : value ≤ limit) : unsigned limit text = .ok value := by
  rw [unsigned_eq_ok_iff_read]
  cases literal with
  | zero => exact ⟨by decide, rfl, by decide⟩
  | decimal written leading =>
      obtain ⟨byte, digit, rest, others, rfl, rfl, sign, _⟩ := written.exists_first
      have other : byte ≠ 48 := by
        rintro rfl
        rw [isDigit_zero_iff.mp sign] at leading
        exact leading rfl
      rw [splitRadix_of_ne_zero other, underscoresPlaced_of_ne_zero other]
      exact ⟨List.cons_ne_nil _ _, written.accumulate_eq (by decide) fits,
        written.separated_eq false⟩
  | @octal gap _ _ parted written =>
      have follows := Follows.digits parted written
      obtain ⟨byte, digit, rest, others, rfl, rfl, sign, small⟩ := written.exists_first
      have unmarked : ∀ letter ∈ (gap ++ byte :: rest).head?, letterBase? letter = none := by
        intro letter found
        rcases parted with rfl | rfl
        · cases found
          exact letterBase?_of_isDigit sign small
        · cases found
          rfl
      rw [splitRadix_octal unmarked, underscoresPlaced_octal unmarked]
      exact ⟨List.cons_ne_nil _ _, follows.accumulate_eq (by decide) fits, follows.separated_eq⟩
  | @marked letter base gap _ _ radix parted written =>
      have follows := Follows.digits parted written
      obtain ⟨byte, digit, rest, others, rfl, rfl, sign, small⟩ := written.exists_first
      have nonempty : gap ++ byte :: rest ≠ [] :=
        List.append_ne_nil_of_right_ne_nil _ (List.cons_ne_nil _ _)
      rw [splitRadix_marked radix nonempty, underscoresPlaced_marked radix]
      exact ⟨List.cons_ne_nil _ _, follows.accumulate_eq radix.range.1 fits, follows.separated_eq⟩

theorem unsigned_eq_ok_iff {limit value : Nat} {text : Text} :
    unsigned limit text = .ok value ↔ Literal text value ∧ value ≤ limit := by
  constructor
  · intro read
    exact ⟨literal_of_unsigned read,
      accumulate_le (Nat.zero_le _) (unsigned_eq_ok_iff_read.mp read).2.1⟩
  · intro both
    exact unsigned_of_literal both.1 both.2

/-! ### Signs and tildes -/

theorem Literal.head?_ne {text : Text} {value : Nat} (literal : Literal text value) {mark : UInt8}
    (odd : digitValue? mark = none) : text.head? ≠ some mark := by
  have zero : (48 : UInt8) ≠ mark := by
    rintro rfl
    cases odd
  cases literal with
  | zero | octal | marked =>
      intro first
      exact zero (Option.some.inj first)
  | decimal written =>
      obtain ⟨byte, digit, rest, _, rfl, _, sign, _⟩ := written.exists_first
      intro first
      exact sign.ne odd (Option.some.inj first)

theorem Integer.head?_ne_tilde {text : Text} {value : Int} (integer : Integer text value) :
    text.head? ≠ some 126 := by
  cases integer with
  | unsigned written => exact written.head?_ne (by decide)
  | plus | minus =>
      intro first
      exact absurd (Option.some.inj first) (by decide)

theorem Literal.integer {text : Text} {number : Nat}
    (literal : Literal (splitSign text).2 number) :
    Integer text (if (splitSign text).1 then -number else number) := by
  revert literal
  unfold splitSign
  split
  · exact .plus
  · exact .minus
  · exact .unsigned

theorem exists_literal_of_integer {text : Text} {value : Int} (integer : Integer text value) :
    ∃ number, Literal (splitSign text).2 number ∧
      value = if (splitSign text).1 then -(number : Int) else number := by
  cases integer with
  | unsigned literal =>
      rw [splitSign_of_ne (literal.head?_ne (by decide)) (literal.head?_ne (by decide))]
      exact ⟨_, literal, rfl⟩
  | plus literal | minus literal => exact ⟨_, literal, rfl⟩

theorem integer?_eq_some_iff {text : Text} {value : Int} :
    integer? text = some value ↔
      Integer text value ∧ -0x80000000 ≤ value ∧ value ≤ 0xFFFFFFFF := by
  rw [integer?_eq]
  constructor
  · intro read
    cases accepted : unsigned 0x1FFFFFFFF (splitSign text).2 with
    | error fault =>
        rw [accepted] at read
        cases read
    | ok number =>
        rw [accepted] at read
        have integer := (unsigned_eq_ok_iff.mp accepted).1.integer
        dsimp only at read
        split at read
        · next negative =>
          rw [if_pos negative] at integer
          split at read
          · cases read
            exact ⟨integer, by omega, by omega⟩
          · cases read
        · next positive =>
          rw [if_neg positive] at integer
          split at read
          · cases read
            exact ⟨integer, by omega, by omega⟩
          · cases read
  · rintro ⟨integer, lower, upper⟩
    obtain ⟨number, literal, rfl⟩ := exists_literal_of_integer integer
    split at lower
    · next negative =>
      have small : number ≤ 0x80000000 := by omega
      rw [unsigned_of_literal literal (by omega)]
      simp only [negative, if_true, if_pos small]
    · next positive =>
      rw [if_neg positive] at upper
      have small : number ≤ 0xFFFFFFFF := by omega
      rw [unsigned_of_literal literal (by omega)]
      simp only [if_neg positive, if_pos small]

def untilded (word : Text) : Text :=
  if word.head? = some 126 then word.tail else word

theorem splitTilde_of_ne {word : Text} (upright : word.head? ≠ some 126) :
    splitTilde word = (false, word) := by
  unfold splitTilde
  split
  · exact absurd rfl upright
  · rfl

theorem splitTilde_snd (word : Text) : (splitTilde word).2 = untilded word := by
  unfold untilded
  split
  · next tilde =>
    obtain ⟨rest, rfl⟩ := List.head?_eq_some_iff.mp tilde
    rfl
  · next upright => rw [splitTilde_of_ne upright]

theorem ofWord_of_denotes {word : Text} {bits : Nat} (denotes : Denotes word bits) :
    ofWord word = .ok bits := by
  cases denotes with
  | upright written lower upper =>
      rw [ofWord_eq, splitTilde_of_ne written.head?_ne_tilde,
        integer?_eq_some_iff.mpr ⟨written, lower, upper⟩]
      rfl
  | inverted written lower upper =>
      rw [ofWord_eq, splitTilde, integer?_eq_some_iff.mpr ⟨written, lower, upper⟩]
      rfl

theorem denotes_of_ofWord {word : Text} {bits : Nat} (read : ofWord word = .ok bits) :
    Denotes word bits := by
  rw [ofWord_eq] at read
  cases integer : integer? (splitTilde word).2 with
  | none =>
      rw [integer] at read
      cases read
  | some value =>
      obtain ⟨written, lower, upper⟩ := integer?_eq_some_iff.mp integer
      rw [integer] at read
      by_cases tilde : word.head? = some 126
      · obtain ⟨rest, rfl⟩ := List.head?_eq_some_iff.mp tilde
        cases read
        exact .inverted written lower upper
      · rw [splitTilde_of_ne tilde] at read written
        cases read
        exact .upright written lower upper

theorem ofWord_error {word text : Text} (refused : ofWord word = .error text) :
    text = untilded word := by
  rw [ofWord_eq] at refused
  split at refused
  · cases refused
    exact splitTilde_snd word
  · cases refused

theorem ofWord_eq_error_iff {word text : Text} :
    ofWord word = .error text ↔ text = untilded word ∧ ¬ ∃ bits, Denotes word bits := by
  constructor
  · intro refused
    refine ⟨ofWord_error refused, ?_⟩
    rintro ⟨bits, denotes⟩
    rw [ofWord_of_denotes denotes] at refused
    cases refused
  · rintro ⟨rfl, odd⟩
    cases read : ofWord word with
    | ok bits => exact absurd ⟨bits, denotes_of_ofWord read⟩ odd
    | error text => rw [ofWord_error read]

/-- An operand that is no number is reported as such, whatever its limit. -/
theorem immediate_eq_notNumber_iff {limit : Nat} {word text : Text} :
    Directive.immediate limit word = .error (.notNumber text) ↔ ofWord word = .error text := by
  unfold Directive.immediate
  cases ofWord word with
  | error found => simp only [Except.error.injEq, Failure.notNumber.injEq]
  | ok bits =>
      dsimp only
      constructor
      · intro refused
        split at refused
        · cases refused
        · cases refused
      · intro refused
        cases refused

/-- Number words have their mathematical value. A word is accepted exactly if it is an integer of
the grammar in the range of numbers, with a tilde in front or without, and it then gives the bits of
that integer, inverted behind a tilde. Any other word is reported as no number, without the tilde. A
word that can be a label is no number, and a number of 32 bits is read from its hexadecimal text. -/
theorem ofWord_follows_grammar (word : Text) :
    (∀ bits, ofWord word = .ok bits ↔ Denotes word bits) ∧
      (∀ text, ofWord word = .error text ↔
        text = untilded word ∧ ¬ ∃ bits, Denotes word bits) ∧
      (∀ limit text, Directive.immediate limit word = .error (.notNumber text) ↔
        text = untilded word ∧ ¬ ∃ bits, Denotes word bits) ∧
      (Directive.isLabel word = true → ofWord word = .error word) ∧
      ∀ number : UInt32, ofWord (hexLiteral 0 number.toNat) = .ok number.toNat := by
  refine ⟨fun bits => ⟨denotes_of_ofWord, ofWord_of_denotes⟩, fun text => ofWord_eq_error_iff, ?_,
    ?_, ?_⟩
  · intro limit text
    rw [immediate_eq_notNumber_iff, ofWord_eq_error_iff]
  · intro label
    cases word with
    | nil => cases label
    | cons first rest =>
        rw [Directive.isLabel, Bool.and_eq_true] at label
        exact ofWord_of_isLabelStart rest label.1
  · intro number
    exact ofWord_hexLiteral 0 (Nat.le_of_lt_succ number.toNat_lt)

/-- The least integer behind a tilde, and a label that begins like a number with an underscore. -/
theorem ofWord_follows_grammar_corners :
    Denotes (ascii "~-0X8000_0000") 0x7FFFFFFF ∧ Directive.isLabel (ascii "_1") = true ∧
      ofWord (ascii "_1") = .error (ascii "_1") := by
  have read : ofWord (ascii "~-0X8000_0000") = .ok 0x7FFFFFFF := by
    rfl
  have label : Directive.isLabel (ascii "_1") = true := by
    decide
  exact ⟨((ofWord_follows_grammar _).1 _).mp read, label,
    (ofWord_follows_grammar _).2.2.2.1 label⟩

example :
    ofWord (ascii "+0b1_0") = .ok 2 ∧ ofWord (ascii "0_17") = .ok 15 ∧
      ofWord (ascii "08") = .error (ascii "08") ∧ ofWord (ascii "0x_") = .error (ascii "0x_") :=
  ⟨rfl, rfl, rfl, rfl⟩

end Nibble.Number
