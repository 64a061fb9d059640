import Nibble.Assembly.Basic
import Nibble.Proofs.Assembly.Directive
import Nibble.Proofs.Instruction
import Mathlib.Data.List.Forall2

set_option autoImplicit false

/-! The grammar of lines. A sentence is what a line can say once its labels are taken off: one of
the instructions with the registers and the number that are written, numbers as data, or a new
location. The words that are carried out are those that spell a sentence for which there is room,
and a statement holds the word that decodes to what was written. -/

namespace Nibble

open Text (ascii)

inductive Sentence where
  | halt
  | ret
  | call (address : Nat)
  | callLabel (label : Text)
  | immediate (operation : Operation) (x : UInt8) (value : Nat)
  | registers (operation : Operation) (x y : UInt8)
  | data (values : List Nat)
  | origin (address : Nat)

namespace Sentence

/-! ### Spelling -/

/-- A word that is a number up to a limit. -/
def Denotes (limit : Nat) (word : Text) (value : Nat) : Prop :=
  Number.ofWord word = .ok value ∧ value ≤ limit

/-- A register is written as `v` and its index in one hexadecimal digit, each in either case. -/
def NamesRegister (word : Text) (index : UInt8) : Prop :=
  ∃ letter ∈ ascii "vV", ∃ digit, word = [letter, digit] ∧
    ((ascii "0123456789abcdef")[index.toNat]? = some digit ∨
      (ascii "0123456789ABCDEF")[index.toNat]? = some digit)

/-- The mnemonics that take a register and a number, with the greatest number. -/
inductive TakesImmediate : Text → Operation → Nat → Prop where
  | skipEqual : TakesImmediate (ascii "se") .skipEqual 0xFF
  | skipUnequal : TakesImmediate (ascii "sne") .skipUnequal 0xFF
  | load : TakesImmediate (ascii "ld") .load 0xFF
  | add : TakesImmediate (ascii "add") .add 0xF

inductive TakesRegisters : Text → Operation → Prop where
  | copy : TakesRegisters (ascii "ld") .copy
  | sum : TakesRegisters (ascii "add") .sum
  | or : TakesRegisters (ascii "or") .or
  | and : TakesRegisters (ascii "and") .and
  | xor : TakesRegisters (ascii "xor") .xor

inductive Spells : List Text → Sentence → Prop where
  | halt (word : Text) (spelling : word = ascii "halt" ∨ word = ascii "exit") : Spells [word] .halt
  | ret (word : Text) (spelling : word = ascii "ret" ∨ word = ascii "return") : Spells [word] .ret
  | call (target : Text) (address : Nat) (number : Denotes 0xFFF target address) :
      Spells [ascii "call", target] (.call address)
  | callLabel (target : Text) (label : Directive.isLabel target = true) :
      Spells [ascii "call", target] (.callLabel target)
  | immediate (mnemonic first second : Text) (operation : Operation) (limit : Nat) (x : UInt8)
      (value : Nat) (takes : TakesImmediate mnemonic operation limit)
      (register : NamesRegister first x) (number : Denotes limit second value) :
      Spells [mnemonic, first, second] (.immediate operation x value)
  | registers (mnemonic first second : Text) (operation : Operation) (x y : UInt8)
      (takes : TakesRegisters mnemonic operation) (one : NamesRegister first x)
      (other : NamesRegister second y) :
      Spells [mnemonic, first, second] (.registers operation x y)
  | data (first : Text) (rest : List Text) (values : List Nat)
      (numbers : List.Forall₂ (Denotes 0xFFFF) (first :: rest) values) :
      Spells (ascii ".word" :: first :: rest) (.data values)
  | origin (word : Text) (address : Nat) (number : Denotes 0xFFF word address) :
      Spells [ascii ".org", word] (.origin address)

/-! ### Meaning -/

def count : Sentence → Nat
  | data values => values.length
  | origin _ => 0
  | _ => 1

def Fits (location : Nat) : Sentence → Prop
  | origin address => location ≤ address
  | sentence => location + 2 * sentence.count ≤ Memory.size

/-- Whether a word decodes to what a sentence of one instruction says. -/
def Decodes (word : Word) : Sentence → Prop
  | halt => word.decode.operation = .halt
  | ret => word.decode.operation = .ret
  | call address => word.decode.operation = .call ∧ word.decode.address.toNat = address
  | callLabel _ => word = 0x2000
  | immediate operation x value =>
      word.decode.operation = operation ∧ word.decode.x = x ∧
        word.decode.immediate.toNat = value ∧ (operation = .add → word.decode.n.toNat = value)
  | registers operation x y =>
      word.decode.operation = operation ∧ word.decode.x = x ∧ word.decode.y = y
  | data _ | origin _ => False

def link : Sentence → Option Text
  | callLabel label => some label
  | _ => none

def Encodes (codes : List Word) : Sentence → Prop
  | data values => codes.map UInt16.toNat = values
  | sentence => ∃ word, codes = [word] ∧ sentence.Decodes word

def Asks (directive : Directive) : Sentence → Prop
  | origin address => directive = .origin address
  | sentence => ∃ codes, directive = .codes codes sentence.link ∧ sentence.Encodes codes

end Sentence

/-! ### Words and the fields they are made of -/

namespace Word

theorem toNat_ofFields {family : Nat} (first : family < 16) (x low : UInt8) :
    (ofFields family x low).toNat = family * 4096 + x.toNat % 16 * 256 + low.toNat := by
  have bound := low.toNat_lt
  rw [ofFields, UInt16.toNat_ofNat']
  omega

theorem family_ofFields {family : Nat} (first : family < 16) (x low : UInt8) :
    (ofFields family x low).toNat / 4096 = family := by
  have bound := low.toNat_lt
  rw [toNat_ofFields first]
  omega

theorem x_ofFields {family : Nat} (first : family < 16) {x : UInt8} (small : x.toNat < 16)
    (low : UInt8) : (ofFields family x low).x = x := by
  have bound := low.toNat_lt
  apply UInt8.toNat_inj.mp
  rw [toNat_x, toNat_ofFields first]
  omega

theorem immediate_ofFields {family : Nat} (first : family < 16) (x low : UInt8) :
    (ofFields family x low).immediate = low := by
  have bound := low.toNat_lt
  apply UInt8.toNat_inj.mp
  rw [toNat_immediate, toNat_ofFields first]
  omega

theorem decode_call {target : Nat} (fits : target ≤ 0xFFF) :
    (call (UInt16.ofNat target)).decode.operation = .call ∧
      (call (UInt16.ofNat target)).decode.address.toNat = target := by
  have value : (call (UInt16.ofNat target)).toNat = 0x2000 + target := by
    rw [call, UInt16.toNat_ofNat', UInt16.toNat_ofNat']
    omega
  have family : (call (UInt16.ofNat target)).toNat / 4096 = 2 := by
    omega
  constructor
  · simp only [decode, operation, family]
  · rw [decode, toNat_address]
    omega

theorem fields_pair {operation : Operation} {x y : UInt8} {nibble : Nat}
    (last : pairNibble? operation = some nibble) (smallX : x.toNat < 16) (smallY : y.toNat < 16) :
    ∃ word, pair operation x y = .ok word ∧ word.operation = operation ∧ word.x = x ∧
      word.y = y := by
  have few : nibble < 16 := by
    cases operation with
    | copy | or | and | xor | sum =>
        cases last
        decide
    | _ => cases last
  obtain ⟨low, same⟩ : ∃ low, UInt8.ofNat (y.toNat % 16 * 16 + nibble) = low := ⟨_, rfl⟩
  have value : low.toNat = y.toNat * 16 + nibble := by
    rw [← same, UInt8.toNat_ofNat']
    omega
  have whole := toNat_ofFields (by decide : 8 < 16) x low
  have nibbles : (ofFields 8 x low).toNat % 16 = nibble := by
    omega
  refine ⟨ofFields 8 x low, ?_, ?_, x_ofFields (by decide) smallX low, ?_⟩
  · rw [pair, pair?, last, Option.map_some, same]
  · unfold Word.operation
    rw [family_ofFields (by decide), nibbles]
    cases operation with
    | copy | or | and | xor | sum =>
        cases last
        rfl
    | _ => cases last
  · apply UInt8.toNat_inj.mp
    rw [toNat_y, whole]
    omega

end Word

/-! ### Operands -/

namespace Number

theorem ne_of_isLabelStart {byte : UInt8} (start : Directive.isLabelStart byte = true) :
    byte ≠ 126 ∧ byte ≠ 43 ∧ byte ≠ 45 ∧ byte ≠ 48 := by
  refine ⟨?_, ?_, ?_, ?_⟩
  all_goals
    rintro rfl
    revert start
    decide

theorem digitValue?_of_isLabelStart {byte : UInt8} (start : Directive.isLabelStart byte = true) :
    ∀ digit, digitValue? byte = some digit → 10 ≤ digit := by
  simp only [Directive.isLabelStart, Bool.or_eq_true, Bool.and_eq_true, decide_eq_true_eq,
    beq_iff_eq, UInt8.le_iff_toNat_le, ← UInt8.toNat_inj] at start
  intro digit found
  simp only [digitValue?, Bool.and_eq_true, decide_eq_true_eq, UInt8.le_iff_toNat_le] at found
  simp only [UInt8.reduceToNat] at start found
  split at found
  · omega
  · split at found
    · cases found
      omega
    · split at found
      · cases found
        omega
      · cases found

theorem ofWord_of_isLabelStart {first : UInt8} (rest : Text)
    (start : Directive.isLabelStart first = true) :
    ofWord (first :: rest) = .error (first :: rest) := by
  obtain ⟨tilde, plus, minus, zero⟩ := ne_of_isLabelStart start
  have split : splitTilde (first :: rest) = (false, first :: rest) := by
    unfold splitTilde
    split
    · next same => exact absurd (List.cons.inj same).1 tilde
    · rfl
  have radix : splitRadix (first :: rest) = (10, first :: rest) := splitRadix_of_ne_zero zero
  have refused : ∃ fault, unsigned 0x1FFFFFFFF (first :: rest) = .error fault := by
    rw [unsigned, radix]
    by_cases separator : first = underscore
    · -- The digits behind the underscore may be read, but nothing stands before it.
      have misplaced : underscoresPlaced (first :: rest) = false := by
        unfold underscoresPlaced
        split
        · next same => exact absurd (List.cons.inj same).1 zero
        · rw [separated, if_pos separator]
          rfl
      have present : (first :: rest).contains underscore = true := by
        rw [separator]
        exact List.contains_iff_mem.mpr List.mem_cons_self
      simp only [misplaced, present]
      cases accumulate 10 0x1FFFFFFFF 0 (first :: rest) with
      | error fault => exact ⟨fault, rfl⟩
      | ok value => exact ⟨.malformed, rfl⟩
    · have malformed : accumulate 10 0x1FFFFFFFF 0 (first :: rest) = .error .malformed := by
        rw [accumulate, if_neg separator]
        cases digit : digitValue? first with
        | none => rfl
        | some value => simp only [if_pos (digitValue?_of_isLabelStart start value digit)]
      rw [malformed]
      exact ⟨.malformed, rfl⟩
  have integer : integer? (first :: rest) = none := by
    obtain ⟨fault, error⟩ := refused
    have unsigned : splitSign (first :: rest) = (false, first :: rest) :=
      splitSign_of_ne (fun same => plus (Option.some.inj same))
        (fun same => minus (Option.some.inj same))
    rw [integer?_eq, unsigned, error]
  rw [ofWord_eq, split, integer]

end Number

namespace Sentence

theorem exists_digit_of_value : ∀ byte : Fin 256, ∀ value ∈ Number.digitValue? (UInt8.ofNat byte),
    value < 16 →
      (ascii "0123456789abcdef")[value]? = some (UInt8.ofNat byte) ∨
        (ascii "0123456789ABCDEF")[value]? = some (UInt8.ofNat byte) := by
  decide +kernel

theorem value_of_digit : ∀ index : Fin 16,
    (∀ digit ∈ (ascii "0123456789abcdef")[index.val]?, Number.digitValue? digit = some index.val) ∧
      ∀ digit ∈ (ascii "0123456789ABCDEF")[index.val]?,
        Number.digitValue? digit = some index.val := by
  decide +kernel

theorem isLabelStart_of_mem {letter : UInt8} (member : letter ∈ ascii "vV") :
    Directive.isLabelStart letter = true := by
  have all : (ascii "vV").all Directive.isLabelStart = true := by
    decide
  exact List.all_eq_true.mp all letter member

theorem NamesRegister.isLabelStart {word : Text} {index : UInt8}
    (named : NamesRegister word index) :
    ∃ first rest, word = first :: rest ∧ Directive.isLabelStart first = true := by
  obtain ⟨letter, member, digit, rfl, _⟩ := named
  exact ⟨letter, [digit], rfl, isLabelStart_of_mem member⟩

theorem NamesRegister.lt {word : Text} {index : UInt8} (named : NamesRegister word index) :
    index.toNat < 16 := by
  obtain ⟨_, _, digit, _, small | capital⟩ := named
  · exact (List.getElem?_eq_some_iff.mp small).1
  · exact (List.getElem?_eq_some_iff.mp capital).1

end Sentence

namespace Directive

open Sentence (NamesRegister Denotes)

theorem register?_eq_some_iff {word : Text} {index : UInt8} :
    register? word = some index ↔ NamesRegister word index := by
  have letters : ∀ letter : UInt8, letter ∈ ascii "vV" ↔ (letter = 118 || letter = 86) = true := by
    intro letter
    show letter ∈ [118, 86] ↔ _
    simp
  constructor
  · intro read
    unfold register? at read
    split at read
    · next letter digit =>
      split at read
      · next named =>
        split at read
        · next value known =>
          split at read
          · next small =>
            cases read
            have digits := Sentence.exists_digit_of_value ⟨digit.toNat, digit.toNat_lt⟩ value
            rw [UInt8.ofNat_toNat] at digits
            have same : (UInt8.ofNat value).toNat = value := by
              rw [UInt8.toNat_ofNat']
              omega
            exact ⟨letter, (letters letter).mpr named, digit, rfl, same.symm ▸ digits known small⟩
          · cases read
        · cases read
      · cases read
    · cases read
  · intro named
    have small := named.lt
    obtain ⟨letter, member, digit, rfl, written⟩ := named
    have value : Number.digitValue? digit = some index.toNat := by
      have digits := Sentence.value_of_digit ⟨index.toNat, small⟩
      rcases written with low | capital
      · exact digits.1 digit low
      · exact digits.2 digit capital
    rw [register?, if_pos ((letters letter).mp member), value]
    simp only [if_pos small, UInt8.ofNat_toNat]

theorem register_eq_ok_iff {word : Text} {index : UInt8} :
    register word = .ok index ↔ NamesRegister word index := by
  rw [← register?_eq_some_iff, register]
  cases register? word with
  | none => simp
  | some found => simp

theorem register?_eq_none {word : Text} {value : Nat} (number : Number.ofWord word = .ok value) :
    register? word = none := by
  cases found : register? word with
  | none => rfl
  | some index =>
      obtain ⟨first, rest, rfl, start⟩ := (register?_eq_some_iff.mp found).isLabelStart
      rw [Number.ofWord_of_isLabelStart rest start] at number
      cases number

theorem immediate_eq_ok_iff {limit value : Nat} {word : Text} :
    immediate limit word = .ok value ↔ Denotes limit word value := by
  unfold immediate Denotes
  cases Number.ofWord word with
  | error text => simp
  | ok found =>
      dsimp only
      split
      · next large =>
        simp only [reduceCtorEq, false_iff, Except.ok.injEq]
        rintro ⟨rfl, small⟩
        omega
      · next small =>
        simp only [Except.ok.injEq]
        constructor
        · rintro rfl
          exact ⟨rfl, Nat.le_of_not_lt small⟩
        · exact fun both => both.1

theorem denotes_dataWords {words : List Text} {codes : List Word}
    (read : dataWords words = .ok codes) :
    List.Forall₂ (Denotes 0xFFFF) words (codes.map UInt16.toNat) := by
  induction words generalizing codes with
  | nil =>
      cases read
      exact .nil
  | cons word rest ih =>
      obtain ⟨value, number, read⟩ := steps_of_bind read
      obtain ⟨others, tail, read⟩ := steps_of_bind read
      cases read
      have denoted := immediate_eq_ok_iff.mp number
      have same : (UInt16.ofNat value).toNat = value := by
        rw [UInt16.toNat_ofNat']
        have small := denoted.2
        omega
      rw [List.map_cons, same]
      exact .cons denoted (ih tail)

theorem dataWords_of_denotes {words : List Text} {values : List Nat}
    (numbers : List.Forall₂ (Denotes 0xFFFF) words values) :
    ∃ codes, dataWords words = .ok codes ∧ codes.map UInt16.toNat = values := by
  induction numbers with
  | nil => exact ⟨[], rfl, rfl⟩
  | @cons word value rest values number _ ih =>
      obtain ⟨codes, read, same⟩ := ih
      refine ⟨UInt16.ofNat value :: codes, ?_, ?_⟩
      · rw [dataWords, immediate_eq_ok_iff.mpr number, read]
        rfl
      · have small := number.2
        rw [List.map_cons, same, UInt16.toNat_ofNat', Nat.mod_eq_of_lt (by omega)]

/-! ### Directives -/

theorem operands_of_twoOperands {operands : List Text} {first second : Text}
    (two : twoOperands operands = .ok (first, second)) : operands = [first, second] := by
  unfold twoOperands at two
  split at two
  · cases two
    rfl
  · cases two
  · cases two

theorem spelling_of_skip {encode : UInt8 → UInt8 → Word} {operands : List Text}
    {directive : Directive} (read : skip encode operands = .ok directive) :
    ∃ first second x value, operands = [first, second] ∧ NamesRegister first x ∧
      Denotes 0xFF second value := by
  obtain ⟨⟨first, second⟩, two, read⟩ := steps_of_bind read
  obtain ⟨x, register, read⟩ := steps_of_bind read
  obtain ⟨value, number, _⟩ := steps_of_bind read
  exact ⟨first, second, x, value, operands_of_twoOperands two, register_eq_ok_iff.mp register,
    immediate_eq_ok_iff.mp number⟩

theorem spelling_of_pair {operation : Operation} {operands : List Text} {directive : Directive}
    (read : pair operation operands = .ok directive) :
    ∃ first second x y, operands = [first, second] ∧ NamesRegister first x ∧
      NamesRegister second y := by
  obtain ⟨⟨first, second⟩, two, read⟩ := steps_of_bind read
  obtain ⟨x, one, read⟩ := steps_of_bind read
  obtain ⟨y, other, _⟩ := steps_of_bind read
  exact ⟨first, second, x, y, operands_of_twoOperands two, register_eq_ok_iff.mp one,
    register_eq_ok_iff.mp other⟩

theorem spelling_of_either {operation : Operation} {limit : Nat}
    {encode : UInt8 → UInt8 → Word} {operands : List Text} {directive : Directive}
    (read : either operation limit encode operands = .ok directive) :
    ∃ first second x, operands = [first, second] ∧ NamesRegister first x ∧
      ((∃ y, NamesRegister second y) ∨ ∃ value, Denotes limit second value) := by
  obtain ⟨⟨first, second⟩, two, read⟩ := steps_of_bind read
  obtain ⟨x, register, read⟩ := steps_of_bind read
  refine ⟨first, second, x, operands_of_twoOperands two, register_eq_ok_iff.mp register, ?_⟩
  split at read
  · next y other => exact .inl ⟨y, register?_eq_some_iff.mp other⟩
  · obtain ⟨value, number, _⟩ := steps_of_bind read
    exact .inr ⟨value, immediate_eq_ok_iff.mp number⟩

theorem spelling_of_call {operands : List Text} {directive : Directive}
    (read : call operands = .ok directive) :
    ∃ target, operands = [target] ∧
      ((∃ address, Denotes 0xFFF target address) ∨ isLabel target = true) := by
  unfold call at read
  split at read
  · cases read
  · next target =>
    refine ⟨target, rfl, ?_⟩
    split at read
    · next address number => exact .inl ⟨address, immediate_eq_ok_iff.mp number⟩
    · split at read
      · next label => exact .inr label
      · cases read
    · cases read
  · cases read

theorem call_of_isLabel {target : Text} (label : isLabel target = true) :
    call [target] = .ok (.codes [Word.call 0] (some target)) := by
  have unread : immediate 0xFFF target = .error (.notNumber target) := by
    cases target with
    | nil => cases label
    | cons first rest =>
        rw [isLabel, Bool.and_eq_true] at label
        rw [immediate, Number.ofWord_of_isLabelStart rest label.1]
  rw [call, unread]
  exact if_pos label

end Directive

namespace Mnemonic

/-- The word that stands for a mnemonic, whatever follows. -/
def name : Mnemonic → Text
  | .origin => ascii ".org"
  | .data => ascii ".word"
  | .halt => ascii "halt"
  | .ret => ascii "ret"
  | .call => ascii "call"
  | .skipEqual => ascii "se"
  | .skipUnequal => ascii "sne"
  | .load => ascii "ld"
  | .add => ascii "add"
  | .or => ascii "or"
  | .and => ascii "and"
  | .xor => ascii "xor"

theorem fst_of_mem_table : ∀ entry ∈ table, entry.1 = entry.2.name := by
  decide

theorem spelling_of_ofLine? {first : Text} {operands : List Text} {mnemonic : Mnemonic}
    (read : ofLine? first operands = some mnemonic) :
    first = mnemonic.name ∨
      operands = [] ∧ (first = ascii "return" ∧ mnemonic = .ret ∨
        first = ascii "exit" ∧ mnemonic = .halt) := by
  unfold ofLine? at read
  split at read
  · next alone =>
    cases read
    exact .inr ⟨List.isEmpty_iff.mp alone.1, .inl ⟨alone.2, rfl⟩⟩
  · split at read
    · next alone =>
      cases read
      exact .inr ⟨List.isEmpty_iff.mp alone.1, .inr ⟨alone.2, rfl⟩⟩
    · obtain ⟨before, after, shape, _⟩ := List.lookup_eq_some_iff.mp read
      refine .inl (fst_of_mem_table (first, mnemonic) ?_)
      rw [shape]
      exact List.mem_append_right _ List.mem_cons_self

theorem name_of_ofLine? {first : Text} {operands : List Text} {mnemonic : Mnemonic}
    (read : ofLine? first operands = some mnemonic) (other : mnemonic ≠ .ret ∧ mnemonic ≠ .halt) :
    first = mnemonic.name := by
  rcases spelling_of_ofLine? read with named | ⟨_, ⟨_, same⟩ | ⟨_, same⟩⟩
  · exact named
  · exact absurd same other.1
  · exact absurd same other.2

end Mnemonic

namespace Sentence

open Directive (register_eq_ok_iff register?_eq_some_iff immediate_eq_ok_iff ofWords)

/-- Words that ask for something spell a sentence. -/
theorem exists_spells {first : Text} {operands : List Text} {directive : Directive}
    (read : ofWords first operands = .ok directive) :
    ∃ sentence, Spells (first :: operands) sentence := by
  unfold ofWords at read
  cases mnemonic : Mnemonic.ofLine? first operands with
  | none =>
      rw [mnemonic] at read
      cases read
  | some found =>
      rw [mnemonic] at read
      have spelling := Mnemonic.spelling_of_ofLine? mnemonic
      cases found with
      | halt =>
          cases operands with
          | nil => exact ⟨_, .halt first (by simpa [Mnemonic.name] using spelling)⟩
          | cons operand rest => cases read
      | ret =>
          cases operands with
          | nil => exact ⟨_, .ret first (by simpa [Mnemonic.name] using spelling)⟩
          | cons operand rest => cases read
      | origin =>
          cases Mnemonic.name_of_ofLine? mnemonic (by decide)
          change Directive.origin? operands = .ok directive at read
          unfold Directive.origin? at read
          split at read
          · next word =>
            obtain ⟨address, number, _⟩ := Directive.steps_of_bind read
            exact ⟨_, .origin word address (immediate_eq_ok_iff.mp number)⟩
          · cases read
      | data =>
          cases Mnemonic.name_of_ofLine? mnemonic (by decide)
          change Directive.data operands = .ok directive at read
          cases operands with
          | nil => cases read
          | cons word rest =>
              obtain ⟨codes, numbers, _⟩ := Directive.steps_of_bind read
              exact ⟨_, .data word rest _ (Directive.denotes_dataWords numbers)⟩
      | call =>
          cases Mnemonic.name_of_ofLine? mnemonic (by decide)
          obtain ⟨target, rfl, ⟨address, number⟩ | label⟩ := Directive.spelling_of_call read
          · exact ⟨_, .call target address number⟩
          · exact ⟨_, .callLabel target label⟩
      | skipEqual =>
          cases Mnemonic.name_of_ofLine? mnemonic (by decide)
          obtain ⟨word, other, x, value, rfl, register, number⟩ := Directive.spelling_of_skip read
          exact ⟨_, .immediate _ word other _ _ x value .skipEqual register number⟩
      | skipUnequal =>
          cases Mnemonic.name_of_ofLine? mnemonic (by decide)
          obtain ⟨word, other, x, value, rfl, register, number⟩ := Directive.spelling_of_skip read
          exact ⟨_, .immediate _ word other _ _ x value .skipUnequal register number⟩
      | load =>
          cases Mnemonic.name_of_ofLine? mnemonic (by decide)
          obtain ⟨word, other, x, rfl, register, ⟨y, second⟩ | ⟨value, number⟩⟩ :=
            Directive.spelling_of_either read
          · exact ⟨_, .registers _ word other _ x y .copy register second⟩
          · exact ⟨_, .immediate _ word other _ _ x value .load register number⟩
      | add =>
          cases Mnemonic.name_of_ofLine? mnemonic (by decide)
          obtain ⟨word, other, x, rfl, register, ⟨y, second⟩ | ⟨value, number⟩⟩ :=
            Directive.spelling_of_either read
          · exact ⟨_, .registers _ word other _ x y .sum register second⟩
          · exact ⟨_, .immediate _ word other _ _ x value .add register number⟩
      | or =>
          cases Mnemonic.name_of_ofLine? mnemonic (by decide)
          obtain ⟨word, other, x, y, rfl, one, second⟩ := Directive.spelling_of_pair read
          exact ⟨_, .registers _ word other _ x y .or one second⟩
      | and =>
          cases Mnemonic.name_of_ofLine? mnemonic (by decide)
          obtain ⟨word, other, x, y, rfl, one, second⟩ := Directive.spelling_of_pair read
          exact ⟨_, .registers _ word other _ x y .and one second⟩
      | xor =>
          cases Mnemonic.name_of_ofLine? mnemonic (by decide)
          obtain ⟨word, other, x, y, rfl, one, second⟩ := Directive.spelling_of_pair read
          exact ⟨_, .registers _ word other _ x y .xor one second⟩

theorem decodes_ofFields {operation : Operation} {family : Nat} {x : UInt8} {value : Nat}
    (first : family < 16) (small : x.toNat < 16) (fits : value ≤ 0xFF)
    (named : ∀ word : Word, word.toNat / 4096 = family → word.operation = operation)
    (nibble : operation = .add → value ≤ 0xF) :
    (immediate operation x value).Decodes (Word.ofFields family x (UInt8.ofNat value)) := by
  have low : (UInt8.ofNat value).toNat = value := by
    rw [UInt8.toNat_ofNat']
    omega
  refine ⟨named _ (Word.family_ofFields first x _), Word.x_ofFields first small _, ?_, ?_⟩
  · show (Word.immediate _).toNat = value
    rw [Word.immediate_ofFields first, low]
  · intro added
    have few := nibble added
    show (Word.n _).toNat = value
    rw [Word.toNat_n, Word.toNat_ofFields first, low]
    omega

theorem asks_immediate {mnemonic first second : Text} {operation : Operation} {limit : Nat}
    {x : UInt8} {value : Nat} (takes : TakesImmediate mnemonic operation limit)
    (register : NamesRegister first x) (number : Denotes limit second value) :
    ∃ directive, ofWords mnemonic [first, second] = .ok directive ∧
      (immediate operation x value).Asks directive := by
  have small := register.lt
  have read := register_eq_ok_iff.mpr register
  have value? := immediate_eq_ok_iff.mpr number
  have fits := number.2
  cases takes with
  | skipEqual =>
      refine ⟨_, Directive.skip_of_operands Word.skipEqual read value?, _, rfl, _, rfl, ?_⟩
      exact decodes_ofFields (by decide) small fits
        (fun word family => by simp only [Word.operation, family]) (by rintro ⟨⟩)
  | skipUnequal =>
      refine ⟨_, Directive.skip_of_operands Word.skipUnequal read value?, _, rfl, _, rfl, ?_⟩
      exact decodes_ofFields (by decide) small fits
        (fun word family => by simp only [Word.operation, family]) (by rintro ⟨⟩)
  | load =>
      refine ⟨_, Directive.either_of_immediate .copy Word.load read
        (Directive.register?_eq_none number.1) value?, _, rfl, _, rfl, ?_⟩
      exact decodes_ofFields (by decide) small fits
        (fun word family => by simp only [Word.operation, family]) (by rintro ⟨⟩)
  | add =>
      refine ⟨_, Directive.either_of_immediate .sum Word.add read
        (Directive.register?_eq_none number.1) value?, _, rfl, _, rfl, ?_⟩
      have same : UInt8.ofNat ((UInt8.ofNat value).toNat % 16) = UInt8.ofNat value := by
        rw [UInt8.toNat_ofNat']
        congr 1
        omega
      rw [Word.add, same]
      exact decodes_ofFields (by decide) small (Nat.le_trans fits (by decide))
        (fun word family => by simp only [Word.operation, family]) fun _ => fits

theorem asks_registers {mnemonic first second : Text} {operation : Operation} {x y : UInt8}
    (takes : TakesRegisters mnemonic operation) (one : NamesRegister first x)
    (other : NamesRegister second y) :
    ∃ directive, ofWords mnemonic [first, second] = .ok directive ∧
      (registers operation x y).Asks directive := by
  have read := register_eq_ok_iff.mpr one
  obtain ⟨nibble, last⟩ : ∃ nibble, Word.pairNibble? operation = some nibble := by
    cases takes with
    | copy | sum | or | and | xor => exact ⟨_, rfl⟩
  obtain ⟨word, encoded, decoded⟩ := Word.fields_pair last one.lt other.lt
  cases takes with
  | copy | sum =>
      exact ⟨_, Directive.either_of_registers _ _ read (register?_eq_some_iff.mpr other) encoded,
        _, rfl, word, rfl, decoded⟩
  | or | and | xor =>
      exact ⟨_, Directive.pair_of_registers read (register_eq_ok_iff.mpr other) encoded, _, rfl,
        word, rfl, decoded⟩

/-- Words that spell a sentence ask for what it says. -/
theorem exists_directive {first : Text} {operands : List Text} {sentence : Sentence}
    (spelled : Spells (first :: operands) sentence) :
    ∃ directive, ofWords first operands = .ok directive ∧ sentence.Asks directive := by
  cases spelled with
  | halt word spelling =>
      rcases spelling with rfl | rfl
      · exact ⟨_, rfl, _, rfl, Word.halt, rfl, rfl⟩
      · exact ⟨_, rfl, _, rfl, Word.halt, rfl, rfl⟩
  | ret word spelling =>
      rcases spelling with rfl | rfl
      · exact ⟨_, rfl, _, rfl, Word.ret, rfl, rfl⟩
      · exact ⟨_, rfl, _, rfl, Word.ret, rfl, rfl⟩
  | call target address number =>
      refine ⟨.codes [Word.call (UInt16.ofNat address)] none, ?_, _, rfl, _, rfl,
        Word.decode_call number.2⟩
      show Directive.call [target] = _
      rw [Directive.call, immediate_eq_ok_iff.mpr number]
  | callLabel target label =>
      exact ⟨_, Directive.call_of_isLabel label, _, rfl, _, rfl, rfl⟩
  | immediate mnemonic first second operation limit x value takes register number =>
      exact asks_immediate takes register number
  | registers mnemonic first second operation x y takes one other =>
      exact asks_registers takes one other
  | data first rest values numbers =>
      obtain ⟨codes, read, same⟩ := Directive.dataWords_of_denotes numbers
      refine ⟨.codes codes none, ?_, codes, rfl, same⟩
      show Directive.data (first :: rest) = _
      rw [Directive.data, if_neg (by simp), read]
      rfl
  | origin word address number =>
      refine ⟨.origin address, ?_, rfl⟩
      show Directive.origin? [word] = _
      rw [Directive.origin?, immediate_eq_ok_iff.mpr number]
      rfl

theorem length_of_encodes {codes : List Word} {sentence : Sentence}
    (encoded : sentence.Encodes codes) : codes.length = sentence.count := by
  cases sentence with
  | data values =>
      rw [← show codes.map UInt16.toNat = values from encoded]
      exact (List.length_map _).symm
  | origin address =>
      obtain ⟨_, _, impossible⟩ := encoded
      exact impossible.elim
  | halt | ret | call | callLabel | immediate | registers =>
      obtain ⟨word, rfl, _⟩ := encoded
      rfl

end Sentence

namespace Assembly

open Sentence (Spells)

/-- What a sentence does to an assembly: a new location is all that changes, or one statement is
added at the old location, which moves behind it. -/
def Extends (number : Nat) (words : List Text) (before after : Assembly) : Sentence → Prop
  | .origin address => after = { before with location := address }
  | sentence =>
      ∃ statement : Statement,
        after =
          { before with
            statements := before.statements ++ [statement]
            location := before.location + 2 * sentence.count } ∧
        statement.line = number ∧ statement.address = before.location ∧
        statement.words = words ∧ sentence.Encodes statement.codes ∧
        statement.link = sentence.link

theorem emit_of_codes (assembly : Assembly) (number : Nat) {first : Text} {operands : List Text}
    {codes : List Word} {link : Option Text}
    (read : Directive.ofWords first operands = .ok (.codes codes link)) :
    ((assembly.emit number (first :: operands)).failure = none ↔
      assembly.location + 2 * codes.length ≤ Memory.size) ∧
    (assembly.emit number (first :: operands)).assembly =
      { assembly with
        statements := assembly.statements ++
          [{ line := number, address := assembly.location, words := first :: operands, codes,
             link }]
        location := assembly.location + 2 * codes.length } := by
  simp only [emit, read]
  split
  · next beyond =>
    refine ⟨⟨by rintro ⟨⟩, fun inside => ?_⟩, rfl⟩
    exact absurd beyond (Nat.not_lt_of_le inside)
  · next inside => exact ⟨⟨fun _ => Nat.le_of_not_lt inside, fun _ => rfl⟩, rfl⟩

/-- A sentence is carried out exactly if there is room for it. -/
theorem emit_of_spells (assembly : Assembly) (number : Nat) {first : Text} {operands : List Text}
    {sentence : Sentence} (spelled : Spells (first :: operands) sentence) :
    ((assembly.emit number (first :: operands)).failure = none ↔
      sentence.Fits assembly.location) ∧
    (sentence.Fits assembly.location →
      Extends number (first :: operands) assembly
        (assembly.emit number (first :: operands)).assembly sentence) := by
  obtain ⟨directive, read, asked⟩ := Sentence.exists_directive spelled
  cases sentence with
  | origin address =>
      cases asked
      simp only [emit, read]
      split
      · next backwards =>
        refine ⟨⟨by rintro ⟨⟩, fun ahead => ?_⟩, fun ahead => ?_⟩
        · exact absurd backwards (Nat.not_lt_of_le ahead)
        · exact absurd backwards (Nat.not_lt_of_le ahead)
      · next ahead => exact ⟨⟨fun _ => Nat.le_of_not_lt ahead, fun _ => rfl⟩, fun _ => rfl⟩
  | halt | ret | call | callLabel | immediate | registers | data =>
      obtain ⟨codes, rfl, encoded⟩ := asked
      have result := emit_of_codes assembly number read
      rw [Sentence.length_of_encodes encoded] at result
      exact ⟨result.1, fun _ => ⟨_, result.2, rfl, rfl, rfl, encoded, rfl⟩⟩

/-- The words of a line are carried out exactly if they spell a sentence for which there is room,
and then the assembly gets what the sentence says: no operand is cut down on its way into a word. -/
theorem emit_accepts_iff (assembly : Assembly) (number : Nat) (first : Text)
    (operands : List Text) :
    let outcome := assembly.emit number (first :: operands)
    (outcome.failure = none ↔
      ∃ sentence, Spells (first :: operands) sentence ∧ sentence.Fits assembly.location) ∧
    ∀ sentence, Spells (first :: operands) sentence → sentence.Fits assembly.location →
      Extends number (first :: operands) assembly outcome.assembly sentence := by
  intro outcome
  refine ⟨⟨fun accepted => ?_, ?_⟩, fun sentence spelled => (emit_of_spells _ _ spelled).2⟩
  · cases read : Directive.ofWords first operands with
    | error failure =>
        have refused : outcome = assembly.fail failure := by
          simp only [outcome, emit, read]
        rw [refused] at accepted
        cases accepted
    | ok directive =>
        obtain ⟨sentence, spelled⟩ := Sentence.exists_spells read
        exact ⟨sentence, spelled, (emit_of_spells _ _ spelled).1.mp accepted⟩
  · rintro ⟨sentence, spelled, fits⟩
    exact (emit_of_spells _ _ spelled).1.mpr fits

/-- The greatest addend, written with a sign and an underscore, in the last word of memory. -/
theorem emit_accepts_iff_last_word :
    let words := [ascii "add", ascii "Vf", ascii "+0b11_11"]
    let before : Assembly := { location := 0xFFE }
    let sentence := Sentence.immediate .add 15 15
    Spells words sentence ∧ sentence.Fits before.location ∧
      (before.emit 7 words).failure = none ∧
      Extends 7 words before (before.emit 7 words).assembly sentence := by
  intro words before sentence
  have spelled : Spells words sentence := by
    exact .immediate _ _ _ _ _ _ _ .add ⟨86, by decide, 102, rfl, .inl rfl⟩ ⟨rfl, by decide⟩
  have fits : sentence.Fits before.location := Nat.le_refl _
  have result := emit_accepts_iff before 7 (ascii "add") [ascii "Vf", ascii "+0b11_11"]
  exact ⟨spelled, fits, result.1.mpr ⟨sentence, spelled, fits⟩, result.2 sentence spelled fits⟩

end Assembly

end Nibble
