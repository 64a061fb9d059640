import Nibble.Assembly.Directive
import Nibble.Proofs.Number
import Nibble.Proofs.Text.Plain

set_option autoImplicit false

/-! The assembly text of a word reads back: it is a line of plain words, and the directive of the
line has that one word again, save for a nibble that the text of an addition does not show. -/

namespace Nibble

open Text (ascii)
open Numeral (hex hexPadded hexLiteral digitByte)

namespace Word

/-- The third nibble of an addition of an immediate plays no part, and is cleared. -/
def canonical (word : Word) : Word :=
  if word.toNat / 4096 = 7 then UInt16.ofNat (word.toNat / 256 * 256 + word.toNat % 16) else word

/-- What the operation of a word says about its nibbles. -/
def Encodes (word : Word) : Operation → Prop
  | .unknown => word.toNat / 4096 ≠ 7
  | .halt => word = halt
  | .ret => word = ret
  | .call => word.toNat / 4096 = 2
  | .skipEqual => word.toNat / 4096 = 3
  | .skipUnequal => word.toNat / 4096 = 4
  | .load => word.toNat / 4096 = 6
  | .add => word.toNat / 4096 = 7
  | .copy => word.toNat / 4096 = 8 ∧ word.toNat % 16 = 0
  | .or => word.toNat / 4096 = 8 ∧ word.toNat % 16 = 1
  | .and => word.toNat / 4096 = 8 ∧ word.toNat % 16 = 2
  | .xor => word.toNat / 4096 = 8 ∧ word.toNat % 16 = 3
  | .sum => word.toNat / 4096 = 8 ∧ word.toNat % 16 = 4
  | .unlisted _ => False

theorem encodes_operation (word : Word) : word.Encodes word.operation := by
  unfold operation
  split
  · next family =>
    split
    · next same => exact same
    · split
      · next same => exact same
      · show word.toNat / 4096 ≠ 7
        omega
  · next family => exact family
  · next family => exact family
  · next family => exact family
  · next family => exact family
  · next family => exact family
  · next family =>
    split
    · next last => exact ⟨family, last⟩
    · next last => exact ⟨family, last⟩
    · next last => exact ⟨family, last⟩
    · next last => exact ⟨family, last⟩
    · next last => exact ⟨family, last⟩
    · show word.toNat / 4096 ≠ 7
      omega
  · next seven _ => exact seven

theorem canonical_of_ne {word : Word} (other : word.toNat / 4096 ≠ 7) : word.canonical = word :=
  if_neg other

theorem canonical_of_family {word : Word} {family : Nat} (first : word.toNat / 4096 = family)
    (other : family ≠ 7) : word.canonical = word :=
  canonical_of_ne (by rw [first]; exact other)

/-! ### Fields and the words made of them -/

theorem toNat_x (word : Word) : word.x.toNat = word.toNat / 256 % 16 := by
  rw [x, UInt8.toNat_ofNat']
  omega

theorem toNat_y (word : Word) : word.y.toNat = word.toNat / 16 % 16 := by
  rw [y, UInt8.toNat_ofNat']
  omega

theorem toNat_n (word : Word) : word.n.toNat = word.toNat % 16 := by
  rw [n, UInt8.toNat_ofNat']
  omega

theorem toNat_immediate (word : Word) : word.immediate.toNat = word.toNat % 256 := by
  rw [immediate, UInt8.toNat_ofNat']
  omega

theorem toNat_address (word : Word) : word.address.toNat = word.toNat % 4096 := by
  rw [address, UInt16.toNat_ofNat']
  omega

theorem ofFields_eq {word : Word} {family : Nat} (first : word.toNat / 4096 = family) :
    ofFields family word.x word.immediate = word := by
  have bound := word.toNat_lt
  apply UInt16.toNat_inj.mp
  rw [ofFields, UInt16.toNat_ofNat', toNat_x, toNat_immediate]
  omega

theorem call_address {word : Word} (first : word.toNat / 4096 = 2) : call word.address = word := by
  have bound := word.toNat_lt
  apply UInt16.toNat_inj.mp
  rw [call, UInt16.toNat_ofNat', toNat_address]
  omega

theorem add_fields {word : Word} (first : word.toNat / 4096 = 7) :
    add word.x word.n = word.canonical := by
  have bound := word.toNat_lt
  have low : (UInt8.ofNat (word.n.toNat % 16)).toNat = word.toNat % 16 := by
    rw [UInt8.toNat_ofNat', toNat_n]
    omega
  apply UInt16.toNat_inj.mp
  rw [add, ofFields, canonical, if_pos first, UInt16.toNat_ofNat', UInt16.toNat_ofNat', toNat_x,
    low]
  omega

theorem pair_fields (operation : Operation) {word : Word} (first : word.toNat / 4096 = 8)
    (last : pairNibble? operation = some (word.toNat % 16)) :
    pair operation word.x word.y = .ok word := by
  have low : UInt8.ofNat (word.y.toNat % 16 * 16 + word.toNat % 16) = word.immediate := by
    apply UInt8.toNat_inj.mp
    rw [UInt8.toNat_ofNat', toNat_y, toNat_immediate]
    omega
  rw [pair, pair?, last, Option.map_some]
  simp only [low, ofFields_eq first]

end Word

/-! ### Operands -/

theorem isPlainByte_digitByte {digit : Nat} (bounded : digit < 36) :
    Text.isPlainByte (digitByte digit) = true := by
  revert digit
  decide

theorem isPlain_hexPadded (width number : Nat) : (hexPadded width number).IsPlain := by
  obtain ⟨padded, written, nonempty, below, _⟩ := Numeral.exists_padded width number
  rw [written]
  refine ⟨fun empty => nonempty (List.map_eq_nil_iff.mp empty), ?_⟩
  intro byte member
  obtain ⟨digit, inside, rfl⟩ := List.mem_map.mp member
  exact isPlainByte_digitByte (Nat.lt_trans (below digit inside) (by decide))

theorem isPlain_hexLiteral (width number : Nat) : (hexLiteral width number).IsPlain where
  nonempty := List.append_ne_nil_of_left_ne_nil (by decide) _
  bytes := by
    intro byte member
    rcases List.mem_append.mp member with front | digit
    · exact (show (ascii "0x").IsPlain by decide).bytes byte front
    · exact (isPlain_hexPadded width number).bytes byte digit

theorem length_hexPadded_le {width number extent : Nat} (bounded : number < Nat.pow 16 (extent + 1))
    (narrow : width ≤ extent + 1) : (hexPadded width number).length ≤ extent + 1 := by
  have digits := Numeral.length_digits_le (by decide) number extent bounded
  rw [Numeral.hexPadded_eq_map, List.length_map, List.length_append, List.length_replicate, hex,
    List.length_map]
  omega

theorem length_hexLiteral_le {width number extent : Nat}
    (bounded : number < Nat.pow 16 (extent + 1)) (narrow : width ≤ extent + 1) :
    (hexLiteral width number).length ≤ extent + 3 := by
  have digits := length_hexPadded_le bounded narrow
  have front : (ascii "0x").length = 2 := by
    decide
  rw [hexLiteral, List.length_append, front]
  omega

namespace Instruction

theorem registerName_eq {index : UInt8} (small : index.toNat < 16) :
    registerName index = [118, digitByte index.toNat] := by
  rw [registerName, hex, Numeral.digits_of_lt small]
  rfl

theorem isPlain_registerName {index : UInt8} (small : index.toNat < 16) :
    (registerName index).IsPlain ∧ (registerName index).length ≤ 7 := by
  rw [registerName_eq small]
  refine ⟨⟨List.cons_ne_nil _ _, ?_⟩, Nat.le_add_right 2 5⟩
  intro byte member
  rcases List.mem_cons.mp member with rfl | last
  · rfl
  · rw [List.mem_singleton.mp last]
    exact isPlainByte_digitByte (Nat.lt_trans small (by decide))

theorem isPlain_name {operation : Operation} (listed : ∀ number, operation ≠ .unlisted number) :
    operation.name.IsPlain ∧ operation.name.length ≤ 7 := by
  cases operation with
  | unlisted number => exact absurd rfl (listed number)
  | _ => decide

theorem mem_words {instruction : Instruction} {text : Text} (member : text ∈ instruction.words) :
    text = instruction.operation.name ∨ text = registerName instruction.x ∨
      text = registerName instruction.y ∨ text = hexLiteral 3 instruction.address.toNat ∨
      text = hexLiteral 2 instruction.immediate.toNat ∨
      text = hexLiteral 0 instruction.n.toNat := by
  unfold words at member
  split at member
  all_goals
    simp only [List.mem_cons, List.not_mem_nil, or_false] at member
    grind

theorem length_words_le (instruction : Instruction) : instruction.words.length ≤ 3 := by
  unfold words
  split
  all_goals simp only [List.length_cons, List.length_nil]
  all_goals omega

end Instruction

namespace Directive

open Instruction (registerName registerName_eq)

theorem immediate_hexLiteral {limit number : Nat} (width : Nat) (fits : number ≤ limit)
    (limited : limit ≤ 0xFFFFFFFF) : immediate limit (hexLiteral width number) = .ok number := by
  rw [immediate, Number.ofWord_hexLiteral width (Nat.le_trans fits limited)]
  exact if_neg (Nat.not_lt_of_le fits)

theorem register?_registerName {index : UInt8} (small : index.toNat < 16) :
    register? (registerName index) = some index := by
  rw [registerName_eq small, register?, if_pos (by decide),
    Number.digitValue?_digitByte (Nat.lt_trans small (by decide))]
  simp only [if_pos small, UInt8.ofNat_toNat]

theorem register_registerName {index : UInt8} (small : index.toNat < 16) :
    register (registerName index) = .ok index := by
  rw [register, register?_registerName small]

theorem register?_hexLiteral (width number : Nat) : register? (hexLiteral width number) = none := by
  rw [hexLiteral]
  cases hexPadded width number with
  | nil => rfl
  | cons digit rest => rfl

theorem skip_of_operands (encode : UInt8 → UInt8 → Word) {first second : Text} {x : UInt8}
    {value : Nat} (read : register first = .ok x) (number : immediate 0xFF second = .ok value) :
    skip encode [first, second] = .ok (.codes [encode x (UInt8.ofNat value)] none) := by
  simp only [skip, twoOperands, read, number, bind, Except.bind, pure, Except.pure]

theorem either_of_immediate (operation : Operation) {limit : Nat} (encode : UInt8 → UInt8 → Word)
    {first second : Text} {x : UInt8} {value : Nat} (read : register first = .ok x)
    (other : register? second = none) (number : immediate limit second = .ok value) :
    either operation limit encode [first, second] =
      .ok (.codes [encode x (UInt8.ofNat value)] none) := by
  simp only [either, twoOperands, read, other, number, bind, Except.bind, pure, Except.pure]

theorem either_of_registers {operation : Operation} (limit : Nat)
    (encode : UInt8 → UInt8 → Word) {first second : Text} {x y : UInt8} {word : Word}
    (read : register first = .ok x) (other : register? second = some y)
    (encoded : Word.pair operation x y = .ok word) :
    either operation limit encode [first, second] = .ok (.codes [word] none) := by
  simp only [either, twoOperands, read, other, encoded, bind, Except.bind, pure, Except.pure]

theorem pair_of_registers {operation : Operation} {first second : Text} {x y : UInt8} {word : Word}
    (read : register first = .ok x) (other : register second = .ok y)
    (encoded : Word.pair operation x y = .ok word) :
    pair operation [first, second] = .ok (.codes [word] none) := by
  simp only [pair, twoOperands, read, other, encoded, bind, Except.bind, pure, Except.pure]

theorem skip_written (encode : UInt8 → UInt8 → Word) {x : UInt8} (small : x.toNat < 16)
    (value : UInt8) :
    skip encode [registerName x, hexLiteral 2 value.toNat] =
      .ok (.codes [encode x value] none) := by
  have bound : value.toNat ≤ 0xFF := Nat.le_of_lt_succ value.toNat_lt
  rw [skip_of_operands encode (register_registerName small)
    (immediate_hexLiteral 2 bound (by decide)), UInt8.ofNat_toNat]

theorem either_written_immediate (operation : Operation) {limit : Nat} (width : Nat)
    (encode : UInt8 → UInt8 → Word) {x value : UInt8} (small : x.toNat < 16)
    (fits : value.toNat ≤ limit) (limited : limit ≤ 0xFFFFFFFF) :
    either operation limit encode [registerName x, hexLiteral width value.toNat] =
      .ok (.codes [encode x value] none) := by
  rw [either_of_immediate operation encode (register_registerName small)
    (register?_hexLiteral width value.toNat) (immediate_hexLiteral width fits limited),
    UInt8.ofNat_toNat]

theorem either_written_register {operation : Operation} (limit : Nat)
    (encode : UInt8 → UInt8 → Word) {x y : UInt8} {word : Word} (smallX : x.toNat < 16)
    (smallY : y.toNat < 16) (encoded : Word.pair operation x y = .ok word) :
    either operation limit encode [registerName x, registerName y] =
      .ok (.codes [word] none) :=
  either_of_registers limit encode (register_registerName smallX) (register?_registerName smallY)
    encoded

theorem pair_written {operation : Operation} {x y : UInt8} {word : Word} (smallX : x.toNat < 16)
    (smallY : y.toNat < 16) (encoded : Word.pair operation x y = .ok word) :
    pair operation [registerName x, registerName y] = .ok (.codes [word] none) :=
  pair_of_registers (register_registerName smallX) (register_registerName smallY) encoded

theorem call_written {address : UInt16} (small : address.toNat < 4096) :
    call [hexLiteral 3 address.toNat] = .ok (.codes [Word.call address] none) := by
  rw [call, immediate_hexLiteral 3 (Nat.le_of_lt_succ small) (by decide)]
  simp only [UInt16.ofNat_toNat]

theorem data_written (word : Word) :
    data [hexLiteral 4 word.toNat] = .ok (.codes [word] none) := by
  have bound : word.toNat ≤ 0xFFFF := Nat.le_of_lt_succ word.toNat_lt
  simp only [data, dataWords, immediate_hexLiteral 4 bound (by decide), bind, Except.bind, pure,
    Except.pure, UInt16.ofNat_toNat, List.isEmpty_cons, Bool.false_eq_true, if_false]

end Directive

/-! ### Whole lines -/

namespace Word

open Instruction (registerName registerName_eq)

theorem words_of_unknown {word : Word} (known : word.operation = .unknown) :
    word.words = [ascii ".word", hexLiteral 4 word.toNat] :=
  if_pos known

theorem words_of_known {word : Word} {operation : Operation} (known : word.operation = operation)
    (listed : operation ≠ .unknown) :
    word.words = Instruction.words { word.decode with operation } := by
  subst known
  exact if_neg listed

theorem x_lt (word : Word) : word.x.toNat < 16 := by
  rw [toNat_x]
  omega

theorem y_lt (word : Word) : word.y.toNat < 16 := by
  rw [toNat_y]
  omega

theorem address_lt (word : Word) : word.address.toNat < 4096 := by
  rw [toNat_address]
  omega

theorem n_le (word : Word) : word.n.toNat ≤ 0xF := by
  rw [toNat_n]
  omega

theorem immediate_le (word : Word) : word.immediate.toNat ≤ 0xFF :=
  Nat.le_of_lt_succ word.immediate.toNat_lt

theorem ofWords_of_known {word code : Word} {operation : Operation} {first : Text}
    {operands : List Text} (known : word.operation = operation) (listed : operation ≠ .unknown)
    (shape : Instruction.words { word.decode with operation } = first :: operands)
    (same : word.canonical = code)
    (read : Directive.ofWords first operands = .ok (.codes [code] none)) :
    ∃ first operands, word.words = first :: operands ∧
      Directive.ofWords first operands = .ok (.codes [word.canonical] none) := by
  refine ⟨first, operands, ?_, ?_⟩
  · rw [words_of_known known listed, shape]
  · rw [same, read]

theorem ofWords_words (word : Word) :
    ∃ first operands, word.words = first :: operands ∧
      Directive.ofWords first operands = .ok (.codes [word.canonical] none) := by
  obtain ⟨operation, known⟩ : ∃ operation, word.operation = operation := ⟨_, rfl⟩
  have encoded := encodes_operation word
  rw [known] at encoded
  cases operation with
  | unknown =>
      refine ⟨_, _, words_of_unknown known, ?_⟩
      rw [canonical_of_ne encoded]
      exact Directive.data_written word
  | halt =>
      have same : word.canonical = halt := by
        rw [show word = halt from encoded]
        rfl
      exact ofWords_of_known known (by decide) rfl same rfl
  | ret =>
      have same : word.canonical = ret := by
        rw [show word = ret from encoded]
        rfl
      exact ofWords_of_known known (by decide) rfl same rfl
  | call =>
      have read := Directive.call_written word.address_lt
      rw [call_address encoded] at read
      exact ofWords_of_known known (by decide) rfl (canonical_of_family encoded (by decide)) read
  | skipEqual =>
      have read := Directive.skip_written skipEqual word.x_lt word.immediate
      rw [skipEqual, ofFields_eq encoded] at read
      exact ofWords_of_known known (by decide) rfl (canonical_of_family encoded (by decide)) read
  | skipUnequal =>
      have read := Directive.skip_written skipUnequal word.x_lt word.immediate
      rw [skipUnequal, ofFields_eq encoded] at read
      exact ofWords_of_known known (by decide) rfl (canonical_of_family encoded (by decide)) read
  | load =>
      have read := Directive.either_written_immediate .copy 2 load word.x_lt word.immediate_le
        (by decide)
      rw [load, ofFields_eq encoded] at read
      exact ofWords_of_known known (by decide) rfl (canonical_of_family encoded (by decide)) read
  | add =>
      have read := Directive.either_written_immediate .sum 0 add word.x_lt word.n_le (by decide)
      exact ofWords_of_known known (by decide) rfl (add_fields encoded).symm read
  | copy =>
      have pair := pair_fields .copy encoded.1 (congrArg some encoded.2.symm)
      exact ofWords_of_known known (by decide) rfl (canonical_of_family encoded.1 (by decide))
        (Directive.either_written_register 0xFF load word.x_lt word.y_lt pair)
  | or =>
      have pair := pair_fields .or encoded.1 (congrArg some encoded.2.symm)
      exact ofWords_of_known known (by decide) rfl (canonical_of_family encoded.1 (by decide))
        (Directive.pair_written word.x_lt word.y_lt pair)
  | and =>
      have pair := pair_fields .and encoded.1 (congrArg some encoded.2.symm)
      exact ofWords_of_known known (by decide) rfl (canonical_of_family encoded.1 (by decide))
        (Directive.pair_written word.x_lt word.y_lt pair)
  | xor =>
      have pair := pair_fields .xor encoded.1 (congrArg some encoded.2.symm)
      exact ofWords_of_known known (by decide) rfl (canonical_of_family encoded.1 (by decide))
        (Directive.pair_written word.x_lt word.y_lt pair)
  | sum =>
      have pair := pair_fields .sum encoded.1 (congrArg some encoded.2.symm)
      exact ofWords_of_known known (by decide) rfl (canonical_of_family encoded.1 (by decide))
        (Directive.either_written_register 0xF add word.x_lt word.y_lt pair)
  | unlisted number => exact encoded.elim

/-- The line of a word has plain words only, and they are short. -/
theorem isPlain_words (word : Word) : ∀ text ∈ word.words, text.IsPlain ∧ text.length ≤ 7 := by
  have literal : ∀ width number, number < Nat.pow 16 4 → width ≤ 4 →
      (hexLiteral width number).IsPlain ∧ (hexLiteral width number).length ≤ 7 := by
    intro width number bounded narrow
    have short := length_hexLiteral_le bounded narrow
    exact ⟨isPlain_hexLiteral width number, by omega⟩
  intro text member
  by_cases known : word.operation = .unknown
  · rw [words_of_unknown known, List.mem_cons, List.mem_singleton] at member
    rcases member with rfl | rfl
    · decide
    · exact literal 4 word.toNat word.toNat_lt (by decide)
  · rw [words_of_known rfl known] at member
    rcases Instruction.mem_words member with rfl | rfl | rfl | rfl | rfl | rfl
    · apply Instruction.isPlain_name
      intro number unlisted
      have encoded := encodes_operation word
      rw [show word.operation = .unlisted number from unlisted] at encoded
      exact encoded
    · exact Instruction.isPlain_registerName word.x_lt
    · exact Instruction.isPlain_registerName word.y_lt
    · exact literal 3 _ (Nat.lt_trans word.address_lt (by decide)) (by decide)
    · exact literal 2 _ (Nat.lt_of_le_of_lt word.immediate_le (by decide)) (by decide)
    · exact literal 0 _ (Nat.lt_of_le_of_lt word.n_le (by decide)) (by decide)

theorem length_spaced_words_le (word : Word) : (Text.spaced word.words).length ≤ 24 := by
  have line := Text.length_spaced_le fun text member => (word.isPlain_words text member).2
  have few : word.words.length ≤ 3 := by
    by_cases known : word.operation = .unknown
    · rw [words_of_unknown known]
      exact Nat.le_add_right 2 1
    · rw [words_of_known rfl known]
      exact Instruction.length_words_le _
  omega

/-- The nibble that is cleared shows nowhere in the text of a word. -/
theorem words_canonical (word : Word) : word.canonical.words = word.words := by
  by_cases first : word.toNat / 4096 = 7
  · have bound := word.toNat_lt
    have value : word.canonical.toNat = word.toNat / 256 * 256 + word.toNat % 16 := by
      rw [canonical, if_pos first, UInt16.toNat_ofNat']
      omega
    have added : ∀ other : Word, other.toNat / 4096 = 7 → other.operation = .add := by
      intro other family
      simp only [operation, family]
    have x : word.canonical.x = word.x := by
      apply UInt8.toNat_inj.mp
      rw [toNat_x, toNat_x, value]
      omega
    have n : word.canonical.n = word.n := by
      apply UInt8.toNat_inj.mp
      rw [toNat_n, toNat_n, value]
      omega
    rw [words_of_known (added word.canonical (by omega)) (by decide),
      words_of_known (added word first) (by decide)]
    simp only [Instruction.words, decode, x, n]
  · rw [canonical_of_ne first]

end Word

end Nibble
