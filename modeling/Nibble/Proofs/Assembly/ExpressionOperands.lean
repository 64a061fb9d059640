import Nibble.Assembler
import Nibble.Proofs.Assembly.Grammar
import Nibble.Proofs.Assembly.PlainLines
import Nibble.Standard

set_option autoImplicit false

/-! Operands that are written as expressions. A directive reads an operand as a number, so two words
for one number give the same statement; and an expression gives way to a word for the 32 low bits of
its value. So an expression is as good as its numeral in the range of numbers, and only there. -/

namespace Nibble

open Text (ascii wordsOf)

/-- The evaluator leaves an integer as the value of an expression. -/
def Substitution.Evaluates [Evaluator] (equates : Table Text) (text : Text) (value : Int) : Prop :=
  ∃ globals, Evaluator.run (script text) (numbers equates) = .ok globals ∧
    globals.find? resultName = some (.integer value)

namespace Directive

/-- Two operands that mean the same: one word, or two words for one number. -/
def Same (one other : Text) : Prop :=
  one = other ∨ ∃ value, Number.ofWord one = .ok value ∧ Number.ofWord other = .ok value

section Same

variable {one other : Text} {ones others : List Text}

theorem immediate_of_same (limit : Nat) (same : Same one other) :
    immediate limit one = immediate limit other := by
  rcases same with rfl | ⟨value, first, second⟩
  · rfl
  · rw [immediate, immediate, first, second]

theorem register?_of_same (same : Same one other) : register? one = register? other := by
  rcases same with rfl | ⟨value, first, second⟩
  · rfl
  · rw [register?_eq_none first, register?_eq_none second]

theorem register_of_same (same : Same one other) : register one = register other := by
  rw [register, register, register?_of_same same]

theorem origin?_of_same (same : List.Forall₂ Same ones others) : origin? ones = origin? others := by
  rcases same with _ | ⟨first, _ | ⟨second, rest⟩⟩
  · rfl
  · rw [origin?, origin?, immediate_of_same 0xFFF first]
  · rfl

theorem dataWords_of_same (same : List.Forall₂ Same ones others) :
    dataWords ones = dataWords others := by
  induction same with
  | nil => rfl
  | cons first _ ih => rw [dataWords, dataWords, immediate_of_same 0xFFFF first, ih]

theorem isEmpty_of_same (same : List.Forall₂ Same ones others) : ones.isEmpty = others.isEmpty := by
  cases same with
  | nil => rfl
  | cons _ _ => rfl

theorem data_of_same (same : List.Forall₂ Same ones others) : data ones = data others := by
  rw [data, data, isEmpty_of_same same, dataWords_of_same same]

theorem bare_of_same (word : Word) (same : List.Forall₂ Same ones others) :
    bare word ones = bare word others := by
  cases same with
  | nil => rfl
  | cons _ _ => rfl

theorem call_of_same (same : List.Forall₂ Same ones others) : call ones = call others := by
  rcases same with _ | ⟨first, _ | ⟨second, rest⟩⟩
  · rfl
  · rcases first with rfl | ⟨value, number, alike⟩
    · rfl
    · -- A number that is too large is refused, and not taken for a label.
      rw [call, call, immediate, immediate, number, alike]
      dsimp only
      by_cases large : value > 0xFFF
      · rw [if_pos large]
      · rw [if_neg large]
  · rfl

theorem skip_of_same (encode : UInt8 → UInt8 → Word) (same : List.Forall₂ Same ones others) :
    skip encode ones = skip encode others := by
  rcases same with _ | ⟨first, _ | ⟨second, _ | ⟨third, rest⟩⟩⟩
  · rfl
  · rfl
  · simp only [skip, twoOperands, bind, Except.bind, register_of_same first,
      immediate_of_same 0xFF second]
  · rfl

theorem either_of_same (operation : Operation) (limit : Nat) (encode : UInt8 → UInt8 → Word)
    (same : List.Forall₂ Same ones others) :
    either operation limit encode ones = either operation limit encode others := by
  rcases same with _ | ⟨first, _ | ⟨second, _ | ⟨third, rest⟩⟩⟩
  · rfl
  · rfl
  · simp only [either, twoOperands, bind, Except.bind, register_of_same first,
      register?_of_same second, immediate_of_same limit second]
  · rfl

theorem pair_of_same (operation : Operation) (same : List.Forall₂ Same ones others) :
    pair operation ones = pair operation others := by
  rcases same with _ | ⟨first, _ | ⟨second, _ | ⟨third, rest⟩⟩⟩
  · rfl
  · rfl
  · simp only [pair, twoOperands, bind, Except.bind, register_of_same first,
      register_of_same second]
  · rfl

/-- What a line asks for does not depend on how its numbers are written. -/
theorem ofWords_of_same (first : Text) (same : List.Forall₂ Same ones others) :
    ofWords first ones = ofWords first others := by
  have mnemonic : Mnemonic.ofLine? first ones = Mnemonic.ofLine? first others := by
    rw [Mnemonic.ofLine?, Mnemonic.ofLine?, isEmpty_of_same same]
  rw [ofWords, ofWords, mnemonic]
  cases Mnemonic.ofLine? first others with
  | none => rfl
  | some found =>
      cases found with
      | origin => exact origin?_of_same same
      | data => exact data_of_same same
      | halt => exact bare_of_same _ same
      | ret => exact bare_of_same _ same
      | call => exact call_of_same same
      | skipEqual => exact skip_of_same _ same
      | skipUnequal => exact skip_of_same _ same
      | load => exact either_of_same _ _ _ same
      | add => exact either_of_same _ _ _ same
      | or => exact pair_of_same _ same
      | and => exact pair_of_same _ same
      | xor => exact pair_of_same _ same

end Same

theorem number_of_mem {limit : Nat} {words : List Text} {values : List Nat}
    (numbers : List.Forall₂ (Sentence.Denotes limit) words values) {word : Text}
    (member : word ∈ words) : ∃ value, Number.ofWord word = .ok value := by
  induction numbers with
  | nil => cases member
  | @cons first value rest _ number _ ih =>
      rcases List.mem_cons.mp member with rfl | later
      · exact ⟨value, number.1⟩
      · exact ih later

/-- An operand of a line that is carried out is a number or begins like a name. -/
theorem operand_of_spells {first : Text} {operands : List Text} {sentence : Sentence}
    (spelled : Sentence.Spells (first :: operands) sentence) {word : Text}
    (member : word ∈ operands) :
    (∃ value, Number.ofWord word = .ok value) ∨
      ∃ byte rest, word = byte :: rest ∧ isLabelStart byte = true := by
  cases spelled with
  | halt | ret => cases member
  | call target address number =>
      rw [List.mem_singleton.mp member]
      exact .inl ⟨address, number.1⟩
  | callLabel target label =>
      rw [List.mem_singleton.mp member]
      cases target with
      | nil => cases label
      | cons byte rest =>
          rw [isLabel, Bool.and_eq_true] at label
          exact .inr ⟨byte, rest, rfl, label.1⟩
  | immediate mnemonic one two operation limit x value takes register number =>
      rcases List.mem_cons.mp member with rfl | later
      · exact .inr register.isLabelStart
      · rw [List.mem_singleton.mp later]
        exact .inl ⟨value, number.1⟩
  | registers mnemonic one two operation x y takes left right =>
      rcases List.mem_cons.mp member with rfl | later
      · exact .inr left.isLabelStart
      · rw [List.mem_singleton.mp later]
        exact .inr right.isLabelStart
  | data one rest values numbers =>
      exact .inl (number_of_mem numbers member)
  | origin one address number =>
      rw [List.mem_singleton.mp member]
      exact .inl ⟨address, number.1⟩

/-- A numeral out of the range of numbers is no operand. -/
theorem ofWords_signed_refused (first : Text) {operands : List Text} {number : Int}
    (outside : ¬ (-0x80000000 ≤ number ∧ number < 0x100000000))
    (member : Numeral.signed number ∈ operands) :
    ∃ failure, ofWords first operands = .error failure := by
  cases read : ofWords first operands with
  | error failure => exact ⟨failure, rfl⟩
  | ok directive =>
      obtain ⟨sentence, spelled⟩ := Sentence.exists_spells read
      rcases operand_of_spells spelled member with ⟨value, denotes⟩ | ⟨byte, rest, shape, start⟩
      · rw [Number.ofWord_signed, if_neg outside] at denotes
        cases denotes
      · have range : byte = 45 ∨ 48 ≤ byte.toNat ∧ byte.toNat ≤ 57 := by
          have inside : byte ∈ Numeral.signed number := by
            rw [shape]
            exact List.mem_cons_self
          exact Numeral.range_of_mem_signed inside
        simp only [isLabelStart, Bool.or_eq_true, Bool.and_eq_true, decide_eq_true_eq, beq_iff_eq,
          UInt8.le_iff_toNat_le, ← UInt8.toNat_inj, UInt8.reduceToNat] at start range
        omega

end Directive

/-- Two outcomes that differ at most in the words with which their statements were written. -/
structure Outcome.Matches (one other : Outcome) : Prop where
  failure : one.failure = other.failure
  labels : one.assembly.labels = other.assembly.labels
  equates : one.assembly.equates = other.assembly.equates
  location : one.assembly.location = other.assembly.location
  statements :
    one.assembly.statements.map (fun statement => { statement with words := [] }) =
      other.assembly.statements.map fun statement => { statement with words := [] }

namespace Assembly

theorem emit_of_same (assembly : Assembly) (number : Nat) (first : Text) {ones others : List Text}
    (same : List.Forall₂ Directive.Same ones others) :
    (assembly.emit number (first :: ones)).Matches (assembly.emit number (first :: others)) := by
  rw [emit, emit, Directive.ofWords_of_same first same]
  rcases Directive.ofWords first others with failure | address | ⟨codes, link⟩
  · exact ⟨rfl, rfl, rfl, rfl, rfl⟩
  · exact ⟨rfl, rfl, rfl, rfl, rfl⟩
  · have appended : ∀ words : List Text,
        (assembly.statements ++
          [{ line := number, address := assembly.location, words, codes, link : Statement }]).map
            (fun statement : Statement => { statement with words := [] }) =
        assembly.statements.map (fun statement : Statement => { statement with words := [] }) ++
          [{ line := number, address := assembly.location, words := [], codes, link }] := by
      intro words
      rw [List.map_append]
      rfl
    dsimp only
    split
    · exact ⟨rfl, rfl, rfl, rfl, (appended _).trans (appended _).symm⟩
    · exact ⟨rfl, rfl, rfl, rfl, (appended _).trans (appended _).symm⟩

/-! ### The place of an operand -/

/-- The text of a line before and behind an operand: the operand is a word of its own, and in front
of it stands the name of an instruction, which may have labels before it. -/
structure Surrounds (macros : Table Macro) (equates : Table Text) (front back : Text) : Prop where
  unquoted : 39 ∉ front ∧ 39 ∉ back
  undollared : 36 ∉ front ∧ 36 ∉ back
  ended : front.glyphs.getLast?.any Glyph.separates = true
  begun : back.glyphs.head?.all Glyph.separates = true
  first : (wordsOf front).head? ≠ some equateWord
  named : ∃ name, (behindLabels (substitute equates (wordsOf front))).head? = some name ∧
    name ≠ equateWord ∧ macros.find? name = none

/-- A word that is an operand wherever it stands: no equate is replaced for it. -/
structure IsOperand (equates : Table Text) (word : Text) : Prop where
  nonempty : word ≠ []
  joined : Text.IsJoined word
  unnamed : equates.find? word = none

def placeOperand (assembly : Assembly) (number : Nat) (before behind : List Text) (word : Text) :
    Outcome :=
  match assembly.takeLabels before with
  | (labelled, .error failure) => labelled.fail failure
  | (labelled, .ok _) => labelled.emit number (behindLabels before ++ word :: behind)

section Place

variable {macros : Table Macro} {number : Nat} {assembly : Assembly} {front back word line : Text}

theorem process_of_surrounds [Evaluator] (expanding : List Text)
    (place : Surrounds macros (assembly.atLine number).equates front back)
    (operand : IsOperand (assembly.atLine number).equates word)
    (read : Substitution.words (assembly.atLine number).equates line =
      .ok (wordsOf (front ++ (word ++ back)))) :
    process macros expanding number line assembly =
      (assembly.atLine number).placeOperand number
        (substitute (assembly.atLine number).equates (wordsOf front))
        (substitute (assembly.atLine number).equates (wordsOf back)) word := by
  obtain ⟨name, begins, other, unknown⟩ := place.named
  have named : behindLabels (substitute (assembly.atLine number).equates (wordsOf front)) ≠ [] := by
    intro empty
    rw [empty] at begins
    cases begins
  have split : wordsOf (front ++ (word ++ back)) = wordsOf front ++ word :: wordsOf back := by
    rw [Text.wordsOf_append_closed _ place.ended, Text.wordsOf_append_open _ place.begun,
      Text.wordsOf_word operand.nonempty operand.joined, List.singleton_append]
  have replaced : substitute (assembly.atLine number).equates
      (wordsOf front ++ word :: wordsOf back) =
        substitute (assembly.atLine number).equates (wordsOf front) ++
          word :: substitute (assembly.atLine number).equates (wordsOf back) := by
    rw [substitute, List.map_append, List.map_cons, operand.unnamed]
    rfl
  have plain : IsPlain macros (assembly.atLine number).equates
      (wordsOf front ++ word :: wordsOf back) := by
    constructor
    · have nonempty : wordsOf front ≠ [] := by
        intro empty
        rw [empty] at named
        exact named rfl
      rw [List.head?_append_of_ne_nil _ nonempty]
      exact place.first
    · intro found
      rw [replaced, behindLabels_append named, List.head?_append_of_ne_nil _ named, begins]
      rintro ⟨⟩
      exact unknown
  have proper : (behindLabels (substitute (assembly.atLine number).equates (wordsOf front))).head? ≠
      some equateWord := by
    rw [begins]
    exact fun same => other (Option.some.inj same)
  rw [split] at read
  rw [process_of_isPlain expanding read plain, replaced, carryWords_append number named proper]
  rfl

theorem cons_of_surrounds {equates : Table Text} (place : Surrounds macros equates front back) :
    ∃ name others, behindLabels (substitute equates (wordsOf front)) = name :: others := by
  obtain ⟨name, begins, _⟩ := place.named
  exact ⟨name, _, List.eq_cons_of_mem_head? begins⟩

theorem placeOperand_of_same {before behind : List Text} {one other name : Text}
    {others : List Text} (named : behindLabels before = name :: others)
    (same : Directive.Same one other) :
    (assembly.placeOperand number before behind one).Matches
      (assembly.placeOperand number before behind other) := by
  unfold placeOperand
  rcases assembly.takeLabels before with ⟨labelled, failure | rest⟩
  · exact ⟨rfl, rfl, rfl, rfl, rfl⟩
  · have operands : List.Forall₂ Directive.Same (others ++ one :: behind)
        (others ++ other :: behind) := by
      apply List.rel_append
      · exact List.forall₂_same.mpr fun _ _ => .inl rfl
      · exact .cons same (List.forall₂_same.mpr fun _ _ => .inl rfl)
    dsimp only
    rw [named]
    exact labelled.emit_of_same number name operands

theorem placeOperand_refused {before behind : List Text} {name : Text} {others : List Text}
    {value : Int} (named : behindLabels before = name :: others)
    (outside : ¬ (-0x80000000 ≤ value ∧ value < 0x100000000)) :
    (assembly.placeOperand number before behind (Numeral.signed value)).failure ≠ none := by
  unfold placeOperand
  rcases assembly.takeLabels before with ⟨labelled, failure | rest⟩
  · exact Option.some_ne_none failure
  · have member : Numeral.signed value ∈ others ++ Numeral.signed value :: behind :=
      List.mem_append_right _ List.mem_cons_self
    obtain ⟨failure, refused⟩ :=
      Directive.ofWords_signed_refused name outside member
    dsimp only
    rw [named, List.cons_append, emit, refused]
    exact Option.some_ne_none failure

end Place

/-! ### Numerals -/

theorem isJoined_of_printed {word : Text}
    (printed : ∀ byte ∈ word, Text.isInk byte = true ∧ byte ≠ 44) : Text.IsJoined word := by
  intro glyph member
  rw [Text.glyphs_of_ascii fun byte inside => Text.lt_of_isInk (printed byte inside).1] at member
  obtain ⟨byte, inside, rfl⟩ := List.mem_map.mp member
  obtain ⟨ink, noComma⟩ := printed byte inside
  rw [Glyph.separates, Text.not_isBlank_of_isInk ink, Bool.false_or, beq_eq_false_iff_ne]
  intro comma
  exact noComma (UInt8.toNat_inj.mp comma)

theorem isOperand_signed {equates : Table Text} {value : Int}
    (unnamed : equates.find? (Numeral.signed value) = none) :
    IsOperand equates (Numeral.signed value) where
  nonempty := Numeral.signed_ne_nil value
  joined := by
    apply isJoined_of_printed
    intro byte member
    have range := Numeral.range_of_mem_signed member
    simp only [Text.isInk, Bool.and_eq_true, decide_eq_true_eq, UInt8.le_iff_toNat_le,
      UInt8.reduceToNat, ne_eq, ← UInt8.toNat_inj] at range ⊢
    omega
  unnamed := unnamed

theorem isOperand_hexLiteral {equates : Table Text} {value : Nat}
    (unnamed : equates.find? (Numeral.hexLiteral 0 value) = none) :
    IsOperand equates (Numeral.hexLiteral 0 value) where
  nonempty := (isPlain_hexLiteral 0 value).nonempty
  joined := by
    apply isJoined_of_printed
    intro byte member
    have range := (Text.isPlainByte_iff byte).mp ((isPlain_hexLiteral 0 value).bytes byte member)
    simp only [Text.isInk, Bool.and_eq_true, decide_eq_true_eq, UInt8.le_iff_toNat_le,
      UInt8.reduceToNat, ne_eq, ← UInt8.toNat_inj] at range ⊢
    omega
  unnamed := unnamed

theorem words_signed [Evaluator] {macros : Table Macro} {equates : Table Text} {front back : Text}
    (place : Surrounds macros equates front back) (value : Int) :
    Substitution.words equates (front ++ (Numeral.signed value ++ back)) =
      .ok (wordsOf (front ++ (Numeral.signed value ++ back))) := by
  have absent : ∀ mark : UInt8, mark ≠ 45 → mark.toNat < 48 → mark ∉ front ∧ mark ∉ back →
      mark ∉ front ++ (Numeral.signed value ++ back) := by
    intro mark unsigned small outside
    have inside := Numeral.not_mem_signed value unsigned (.inl small)
    simp [outside, inside]
  apply Substitution.words_unopened
  · exact absent 39 (by decide) (by decide) place.unquoted
  · apply Substitution.opensExpression_of_not_mem
    exact absent 36 (by decide) (by decide) place.undollared

theorem words_expression [Evaluator] {macros : Table Macro} {equates : Table Text}
    {front inner back : Text} {bits : Nat} (place : Surrounds macros equates front back)
    (only : 36 ∉ inner ∧ 39 ∉ inner) (last : 41 ∉ back)
    (evaluates : Substitution.expressionValue equates inner = .ok bits) :
    Substitution.words equates (front ++ ((ascii "$(" ++ inner ++ ascii ")") ++ back)) =
      .ok (wordsOf (front ++ (Numeral.hexLiteral 0 bits ++ back))) := by
  have shape : ascii "$(" ++ inner ++ ascii ")" ++ back = 36 :: 40 :: (inner ++ 41 :: back) := by
    show 36 :: 40 :: (inner ++ [41] ++ back) = _
    rw [List.append_assoc, List.singleton_append]
  rw [shape]
  apply Substitution.words_of_expressions
  · simp [place.unquoted, only]
  · exact Substitution.expressions_single place.undollared.1 ⟨only.1, place.undollared.2⟩ last
      evaluates

/-- An operand `$(expression)` means the 32 low bits of the value. In the range of numbers it may be
written as the numeral of the value; the numeral of any other value is refused, but the expression
is not. -/
theorem process_expression [Evaluator] (macros : Table Macro) (expanding : List Text) (number : Nat)
    (assembly : Assembly) {front inner back : Text} {value : Int}
    (place : Surrounds macros (assembly.atLine number).equates front back)
    (only : 36 ∉ inner ∧ 39 ∉ inner) (last : 41 ∉ back)
    (evaluates : Substitution.Evaluates (assembly.atLine number).equates inner value)
    (fits : -0x8000000000000000 ≤ value ∧ value < 0x8000000000000000)
    (unnamed : ∀ numeral ∈ [Numeral.hexLiteral 0 (value % 0x100000000).toNat,
      Numeral.signed (value % 0x100000000), Numeral.signed value],
        (assembly.atLine number).equates.find? numeral = none) :
    let outcome := fun operand : Text =>
      process macros expanding number (front ++ (operand ++ back)) assembly
    let written := outcome (ascii "$(" ++ inner ++ ascii ")")
    written.Matches (outcome (Numeral.signed (value % 0x100000000))) ∧
      (-0x80000000 ≤ value ∧ value < 0x100000000 →
        written.Matches (outcome (Numeral.signed value))) ∧
      (¬ (-0x80000000 ≤ value ∧ value < 0x100000000) →
        (outcome (Numeral.signed value)).failure ≠ none) := by
  intro outcome written
  obtain ⟨name, others, named⟩ := cons_of_surrounds place
  have hexUnnamed := unnamed _ List.mem_cons_self
  have bits : Substitution.expressionValue (assembly.atLine number).equates inner =
      .ok (value % 0x100000000).toNat := by
    obtain ⟨globals, runs, found⟩ := evaluates
    simp only [Substitution.expressionValue, runs, found]
    exact if_pos fits
  have writtenEq := process_of_surrounds expanding place (isOperand_hexLiteral hexUnnamed)
    (words_expression place only last bits)
  have numeralEq : ∀ other : Int,
      (assembly.atLine number).equates.find? (Numeral.signed other) = none →
        outcome (Numeral.signed other) = (assembly.atLine number).placeOperand number
          (substitute (assembly.atLine number).equates (wordsOf front))
          (substitute (assembly.atLine number).equates (wordsOf back)) (Numeral.signed other) :=
    fun other free =>
      process_of_surrounds expanding place (isOperand_signed free) (words_signed place other)
  -- A numeral in the range of numbers with the same low bits as the value is the same operand.
  have agrees : ∀ other : Int,
      (assembly.atLine number).equates.find? (Numeral.signed other) = none →
      -0x80000000 ≤ other ∧ other < 0x100000000 →
      other % 0x100000000 = value % 0x100000000 →
        written.Matches (outcome (Numeral.signed other)) := by
    intro other free inside congruent
    have same : Directive.Same (Numeral.hexLiteral 0 (value % 0x100000000).toNat)
        (Numeral.signed other) := by
      refine .inr ⟨(value % 0x100000000).toNat, ?_, ?_⟩
      · apply Number.ofWord_hexLiteral
        omega
      · rw [Number.ofWord_signed, if_pos inside, congruent]
    rw [numeralEq other free]
    show (process macros expanding number _ assembly).Matches _
    rw [writtenEq]
    exact placeOperand_of_same named same
  refine ⟨?_, ?_, ?_⟩
  · exact agrees _ (unnamed _ (by simp)) (by omega) (by omega)
  · intro inside
    exact agrees value (unnamed _ (by simp)) inside rfl
  · intro outside
    rw [numeralEq value (unnamed _ (by simp))]
    exact placeOperand_refused named outside

open Standard

/-- One more than 32 bits behind a label and a comma. -/
theorem process_expression_wraps :
    let macros : Table Macro := [(ascii "nop", { line := 1 })]
    let assembly : Assembly := { equates := [(ascii "BASE", ascii "0x10")] }
    (process macros [] 3 (ascii "here: ld v1,$(BASE + 0x100000000)") assembly).Matches
        (process macros [] 3 (ascii "here: ld v1,16") assembly) ∧
      (process macros [] 3 (ascii "here: ld v1,4294967312") assembly).failure ≠ none := by
  intro macros assembly
  have place : Surrounds macros (assembly.atLine 3).equates (ascii "here: ld v1,") [] :=
    { unquoted := by decide
      undollared := by decide
      ended := by decide +kernel
      begun := by decide +kernel
      first := by decide +kernel
      named := ⟨ascii "ld", by decide +kernel, by decide, by decide⟩ }
  have written : ascii "here: ld v1,$(BASE + 0x100000000)" =
      ascii "here: ld v1," ++ (ascii "$(" ++ ascii "BASE + 0x100000000" ++ ascii ")" ++ []) := by
    decide +kernel
  have bits : ascii "here: ld v1,16" =
      ascii "here: ld v1," ++ (Numeral.signed (4294967312 % 0x100000000) ++ []) := by
    decide +kernel
  have numeral : ascii "here: ld v1,4294967312" =
      ascii "here: ld v1," ++ (Numeral.signed 4294967312 ++ []) := by
    decide +kernel
  have evaluates : Substitution.Evaluates (assembly.atLine 3).equates (ascii "BASE + 0x100000000")
      4294967312 :=
    ⟨[(Substitution.resultName, .integer 4294967312)], by decide +kernel, by decide⟩
  have result := process_expression macros [] 3 assembly place (by decide) (by decide) evaluates
    (by decide) (by decide +kernel)
  rw [written, bits, numeral]
  exact ⟨result.1, result.2.2 (by decide)⟩

end Assembly

open Standard

/-- An expression out of the range of numbers is accepted as another number. -/
theorem Assembler.expression_reduced_silently :
    (Assembler.parse {} (ascii "ld v0 $(4294967301)")).2 =
        .ok ⟨[⟨1, 0, [ascii "ld", ascii "v0", ascii "0x5"], [0x6005], none⟩]⟩ ∧
      (Assembler.parse {} (ascii "ld v0 4294967301")).2 =
        .error (.atLine 1 (ascii "ld v0 4294967301") (.notNumber (ascii "4294967301"))) := by
  decide +kernel

end Nibble
