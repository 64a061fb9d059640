import Nibble.Proofs.Assembly.Pass
import Nibble.Proofs.Instruction
import Nibble.Proofs.Source.Lines
import Nibble.Proofs.Table

set_option autoImplicit false

/-! Listings: sources whose lines are the texts of words. A pass without macros and without equates
of plain names adds one statement for every line of a listing. -/

namespace Nibble

open Text (ascii)

theorem Directive.ofWords_of_unlisted {first : Text} (operands : List Text)
    (unlisted : Mnemonic.table.lookup first = none)
    (other : first ≠ ascii "return" ∧ first ≠ ascii "exit") :
    ofWords first operands = .error (.plain .instructionInvalid) := by
  have absent : Mnemonic.ofLine? first operands = none := by
    rw [Mnemonic.ofLine?, if_neg fun both => other.1 both.2, if_neg fun both => other.2 both.2,
      unlisted]
  rw [ofWords, absent]

namespace Assembly

/-- Plain words stand for themselves when no equate has a plain name. -/
def KeepsPlain (equates : Table Text) : Prop :=
  ∀ entry ∈ equates, ¬ entry.1.IsPlain

instance (equates : Table Text) : Decidable (KeepsPlain equates) :=
  inferInstanceAs (Decidable (∀ entry ∈ equates, ¬ entry.1.IsPlain))

theorem KeepsPlain.set {equates : Table Text} (keeps : KeepsPlain equates) {name : Text}
    (odd : ¬ name.IsPlain) (value : Text) : KeepsPlain (equates.set name value) := by
  intro entry member
  rcases Table.mem_set member with same | old
  · rw [same]
    exact odd
  · exact keeps entry old

theorem KeepsPlain.atLine {assembly : Assembly} (keeps : KeepsPlain assembly.equates)
    (number : Nat) : KeepsPlain (assembly.atLine number).equates :=
  keeps.set (by decide) _

theorem KeepsPlain.find? {equates : Table Text} (keeps : KeepsPlain equates) {word : Text}
    (plain : word.IsPlain) : equates.find? word = none := by
  induction equates with
  | nil => rfl
  | cons entry rest ih =>
      obtain ⟨key, value⟩ := entry
      have different : key ≠ word := by
        intro same
        exact keeps (key, value) List.mem_cons_self (same ▸ plain)
      rw [Table.find?, if_neg different]
      exact ih fun other member => keeps other (List.mem_cons_of_mem _ member)

theorem KeepsPlain.substitute {equates : Table Text} (keeps : KeepsPlain equates)
    {words : List Text} (plain : ∀ word ∈ words, word.IsPlain) :
    Assembly.substitute equates words = words := by
  calc words.map (fun word => (equates.find? word).getD word)
      _ = words.map id := by
          apply List.map_congr_left
          intro word member
          rw [keeps.find? (plain word member)]
          rfl
      _ = words := List.map_id words

theorem takeLabels_plain (assembly : Assembly) {first : Text} (operands : List Text)
    (plain : first.IsPlain) :
    assembly.takeLabels (first :: operands) = (assembly, .ok (first :: operands)) := by
  have unlabelled : labelOf? first = none := by
    apply if_neg
    intro last
    have odd := plain.bytes 58 (List.mem_of_getLast? last)
    cases odd
  rw [takeLabels, unlabelled]

/-- A line of plain words that asks for a directive is carried out as it stands. -/
theorem process_plain [Evaluator] {assembly : Assembly} (keeps : KeepsPlain assembly.equates)
    (number : Nat) {first : Text} {operands : List Text}
    (plain : ∀ word ∈ first :: operands, word.IsPlain) {directive : Directive}
    (read : Directive.ofWords first operands = .ok directive) :
    process [] [] number (Text.spaced (first :: operands)) assembly =
      (assembly.atLine number).emit number (first :: operands) := by
  have directed : first ≠ equateWord := by
    intro same
    rw [same, Directive.ofWords_of_unlisted operands (by decide) (by decide)] at read
    cases read
  have here := keeps.atLine number
  have unlabelled := (assembly.atLine number).takeLabels_plain operands
    (plain first List.mem_cons_self)
  rw [process, Substitution.words_spaced _ plain]
  simp only [if_neg directed, here.substitute plain, unlabelled]
  rfl

end Assembly

/-- Statements of one word each, one behind the other from an address on, none of which waits for a
label. They hold the words that the texts of given words stand for. -/
inductive Listed : Nat → List Word → List Statement → Prop where
  | nil (address : Nat) : Listed address [] []
  | cons {address : Nat} {word : Word} {words : List Word} {statement : Statement}
      {statements : List Statement} (placed : statement.address = address)
      (single : statement.codes = [word.canonical]) (settled : statement.link = none)
      (rest : Listed (address + 2) words statements) :
      Listed address (word :: words) (statement :: statements)

theorem isPlain_origin (width address : Nat) :
    ∀ word ∈ [ascii ".org", Numeral.hexLiteral width address], word.IsPlain := by
  intro word member
  rcases List.mem_cons.mp member with rfl | last
  · decide
  · rw [List.mem_singleton.mp last]
    exact isPlain_hexLiteral width address

namespace Pass

/-- Outside of macros, with no macro defined, and with plain words standing for themselves. -/
structure Bare (pass : Pass) : Prop where
  outside : pass.defining = none
  undefined : pass.macros = []
  keeps : Assembly.KeepsPlain pass.assembly.equates

theorem bare_start : (start []).Bare :=
  ⟨rfl, rfl, by decide⟩

theorem read_plain [Evaluator] {pass : Pass} (bare : pass.Bare) {first : Text}
    {operands : List Text} (plain : ∀ word ∈ first :: operands, word.IsPlain)
    {directive : Directive} (read : Directive.ofWords first operands = .ok directive) :
    let outcome :=
      (pass.assembly.atLine (pass.number + 1)).emit (pass.number + 1) (first :: operands)
    ∃ after, pass.read (Text.spaced (first :: operands)) = (after, outcome.failure) ∧
      after.Bare ∧ after.assembly = outcome.assembly := by
  intro outcome
  -- A first word that has a directive opens or closes no macro.
  have distinct : ∀ name, Mnemonic.table.lookup name = none →
      name ≠ ascii "return" ∧ name ≠ ascii "exit" → first ≠ name := by
    intro name unlisted other same
    rw [same, Directive.ofWords_of_unlisted operands unlisted other] at read
    cases read
  have begins := distinct (ascii ".macro") (by decide) (by decide)
  have ends := distinct (ascii ".endm") (by decide) (by decide)
  have processed := Assembly.process_plain bare.keeps (pass.number + 1) plain read
  let after : Pass :=
    { pass with
      number := pass.number + 1
      line := Text.spaced (first :: operands)
      assembly := outcome.assembly }
  refine ⟨after, ?_, ⟨bare.outside, bare.undefined, ?_⟩, rfl⟩
  · simp only [Pass.read, Source.content_spaced plain, Text.fields_spaced plain, if_neg begins,
      if_neg ends, readPlain, bare.outside, bare.undefined, processed]
    simp only [after, bare.outside, bare.undefined]
    rfl
  · show Assembly.KeepsPlain outcome.assembly.equates
    rw [Assembly.equates_emit]
    exact bare.keeps.atLine (pass.number + 1)

theorem read_origin [Evaluator] {pass : Pass} (bare : pass.Bare) {address : Nat}
    (ahead : pass.assembly.location ≤ address) (inside : address ≤ 0xFFF) (width : Nat) :
    ∃ after, pass.read (Text.spaced [ascii ".org", Numeral.hexLiteral width address]) =
        (after, none) ∧ after.Bare ∧ after.assembly.location = address ∧
      after.assembly.statements = pass.assembly.statements := by
  have directive : Directive.ofWords (ascii ".org") [Numeral.hexLiteral width address] =
      .ok (.origin address) := by
    show Directive.origin? [Numeral.hexLiteral width address] = .ok (.origin address)
    rw [Directive.origin?, Directive.immediate_hexLiteral width inside (by decide)]
    rfl
  have forward : ¬ address < (pass.assembly.atLine (pass.number + 1)).location :=
    Nat.not_lt_of_le ahead
  obtain ⟨after, read, afterBare, left⟩ := read_plain bare (isPlain_origin width address) directive
  simp only [Assembly.emit, directive, if_neg forward] at read left
  refine ⟨after, read, afterBare, ?_, ?_⟩
  · rw [left]
    rfl
  · rw [left]
    rfl

theorem read_word [Evaluator] {pass : Pass} (bare : pass.Bare) (word : Word)
    (inside : pass.assembly.location + 2 ≤ Memory.size) :
    ∃ (after : Pass) (statement : Statement),
      pass.read (Text.spaced word.words) = (after, none) ∧ after.Bare ∧
      after.assembly.location = pass.assembly.location + 2 ∧
      after.assembly.statements = pass.assembly.statements ++ [statement] ∧
      statement.address = pass.assembly.location ∧ statement.codes = [word.canonical] ∧
      statement.link = none := by
  obtain ⟨first, operands, shape, directive⟩ := word.ofWords_words
  have plain : ∀ text ∈ first :: operands, text.IsPlain := by
    intro text member
    exact (word.isPlain_words text (by rw [shape]; exact member)).1
  have fits : ¬ (pass.assembly.atLine (pass.number + 1)).location + 2 * [word.canonical].length >
      Memory.size :=
    Nat.not_lt_of_le inside
  obtain ⟨after, read, afterBare, left⟩ := read_plain bare plain directive
  simp only [Assembly.emit, directive, if_neg fits] at read left
  let statement : Statement :=
    { line := ((pass.number + 1 : Nat) : Int), address := pass.assembly.location,
      words := first :: operands, codes := [word.canonical] }
  refine ⟨after, statement, ?_, afterBare, ?_, ?_, rfl, rfl, rfl⟩
  · rw [shape]
    exact read
  · rw [left]
    rfl
  · rw [left]
    rfl

theorem readAll_listing [Evaluator] {pass : Pass} (bare : pass.Bare) (words : List Word)
    (inside : pass.assembly.location + 2 * words.length ≤ Memory.size) :
    ∃ after added, pass.readAll (words.map fun word => Text.spaced word.words) = (after, none) ∧
      after.Bare ∧ after.assembly.statements = pass.assembly.statements ++ added ∧
      Listed pass.assembly.location words added := by
  induction words generalizing pass with
  | nil => exact ⟨pass, [], rfl, bare, (List.append_nil _).symm, .nil _⟩
  | cons word rest ih =>
      rw [List.length_cons] at inside
      obtain ⟨next, statement, read, nextBare, moved, extended, placed, single, settled⟩ :=
        read_word bare word (by omega)
      obtain ⟨after, added, others, afterBare, statements, listed⟩ := ih nextBare (by omega)
      rw [moved] at listed
      refine ⟨after, statement :: added, ?_, afterBare, ?_, .cons placed single settled listed⟩
      · rw [List.map_cons, readAll, read]
        exact others
      · rw [statements, extended, List.append_assoc, List.singleton_append]

end Pass

end Nibble
