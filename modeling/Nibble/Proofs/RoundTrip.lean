import Nibble.Proofs.Assembly.Layout
import Nibble.Proofs.Assembly.Listing
import Nibble.Standard

set_option autoImplicit false

/-! Disassembling an image and assembling the result gives the image again, up to the nibble that
additions of an immediate do not use. -/

namespace Nibble

open Text (ascii)

/-! ### Images as words -/

namespace Word

def bytes (word : Word) : List UInt8 :=
  [word.high, word.low]

theorem ofBytes_high_low (word : Word) : ofBytes word.high word.low = word := by
  have bound := word.toNat_lt
  apply UInt16.toNat_inj.mp
  rw [ofBytes, high, low, UInt16.toNat_ofNat', UInt8.toNat_ofNat', UInt8.toNat_ofNat']
  omega

theorem bytes_ofBytes (high low : UInt8) : (ofBytes high low).bytes = [high, low] := by
  have upper := high.toNat_lt
  have lower := low.toNat_lt
  have value : (ofBytes high low).toNat = high.toNat * 256 + low.toNat := by
    rw [ofBytes, UInt16.toNat_ofNat']
    omega
  have first : (ofBytes high low).high = high := by
    apply UInt8.toNat_inj.mp
    rw [Word.high, UInt8.toNat_ofNat', value]
    omega
  have second : (ofBytes high low).low = low := by
    apply UInt8.toNat_inj.mp
    rw [Word.low, UInt8.toNat_ofNat', value]
    omega
  rw [bytes, first, second]

theorem high_ofBytes (high low : UInt8) : (ofBytes high low).high = high :=
  (List.cons.inj (bytes_ofBytes high low)).1

theorem low_ofBytes (high low : UInt8) : (ofBytes high low).low = low :=
  (List.cons.inj (List.cons.inj (bytes_ofBytes high low)).2).1

end Word

namespace Image

def wordAt? (image : Image) (index : Nat) : Option Word :=
  match image.bytes[2 * index]?, image.bytes[2 * index + 1]? with
  | some high, some low => some (Word.ofBytes high low)
  | _, _ => none

theorem exists_words : ∀ bytes : List UInt8, bytes.length % 2 = 0 →
    ∃ words : List Word, bytes = words.flatMap Word.bytes
  | [], _ => ⟨[], rfl⟩
  | [_], odd => absurd odd (by simp)
  | high :: low :: rest, even => by
      rw [List.length_cons, List.length_cons] at even
      obtain ⟨words, same⟩ := exists_words rest (by omega)
      refine ⟨Word.ofBytes high low :: words, ?_⟩
      rw [List.flatMap_cons, Word.bytes_ofBytes, same]
      rfl

theorem length_flatMap_bytes (words : List Word) :
    (words.flatMap Word.bytes).length = 2 * words.length := by
  induction words with
  | nil => rfl
  | cons word rest ih =>
      rw [List.flatMap_cons, List.length_append, ih, List.length_cons, Word.bytes]
      simp only [List.length_cons, List.length_nil]
      omega

theorem wordAt?_flatMap (origin : UInt16) (words : List Word) (index : Nat) :
    wordAt? ⟨origin, words.flatMap Word.bytes⟩ index = words[index]? := by
  induction words generalizing index with
  | nil => rfl
  | cons word rest ih =>
      cases index with
      | zero =>
          show some (Word.ofBytes word.high word.low) = some word
          rw [Word.ofBytes_high_low]
      | succ index => exact ih index

end Image

theorem Program.words_disassembleFrom (origin : UInt16) (offset : Nat) (words : List Word) :
    (disassembleFrom origin offset (words.flatMap Word.bytes)).map Statement.words =
      words.map Word.words := by
  induction words generalizing offset with
  | nil => rfl
  | cons word rest ih =>
      have shape : (word :: rest).flatMap Word.bytes =
          word.high :: word.low :: rest.flatMap Word.bytes := rfl
      rw [shape, disassembleFrom, Word.ofBytes_high_low, List.map_cons, ih]
      rfl

/-! ### Programs of listings -/

namespace Listed

variable {address : Nat} {words : List Word} {statements : List Statement}

theorem length_eq (listed : Listed address words statements) :
    statements.length = words.length := by
  induction listed with
  | nil => rfl
  | cons _ _ _ _ ih => rw [List.length_cons, List.length_cons, ih]

theorem link_eq (listed : Listed address words statements) (labels : Table Nat) :
    Pass.link labels statements = (statements, none) := by
  induction listed with
  | nil => rfl
  | cons _ _ settled _ ih => simp only [Pass.link, Pass.linkStatement, settled, ih]

theorem exists_getElem? (listed : Listed address words statements) {index : Nat} {word : Word}
    (found : words[index]? = some word) :
    ∃ statement : Statement, statements[index]? = some statement ∧
      statement.address = address + 2 * index ∧ statement.codes = [word.canonical] := by
  induction listed generalizing index with
  | nil => cases found
  | @cons address _ _ statement _ placed single _ _ ih =>
      cases index with
      | zero =>
          cases found
          exact ⟨statement, rfl, by rw [placed]; omega, single⟩
      | succ index =>
          obtain ⟨later, inside, position, codes⟩ := ih found
          exact ⟨later, inside, by rw [position]; omega, codes⟩

theorem origin_eq {program : Program} {image : Image}
    (listed : Listed address words program.statements) (nonempty : words ≠ [])
    (depicted : program.Depicts image) :
    image.origin.toNat = address ∧ image.bytes.length = 2 * words.length := by
  have positive := List.length_pos_iff.mpr nonempty
  obtain ⟨first, begins, placed, _⟩ :=
    listed.exists_getElem? (List.getElem?_eq_getElem positive)
  obtain ⟨last, ends, position, single⟩ :=
    listed.exists_getElem? (List.getElem?_eq_getElem (Nat.sub_lt positive Nat.one_pos))
  rw [← List.head?_eq_getElem?] at begins
  rw [← listed.length_eq, ← List.getLast?_eq_getElem?] at ends
  have origin := depicted.origin_eq_first first begins
  have length := depicted.length_eq last ends
  rw [Statement.limit, single, List.length_singleton] at length
  omega

theorem bytes_eq {program : Program} {image : Image}
    (listed : Listed address words program.statements) (nonempty : words ≠ [])
    (depicted : program.Depicts image) :
    image.bytes = (words.map Word.canonical).flatMap Word.bytes := by
  obtain ⟨origin, length⟩ := listed.origin_eq nonempty depicted
  obtain ⟨held, same⟩ := Image.exists_words image.bytes (by omega)
  have size : held.length = words.length := by
    rw [same, Image.length_flatMap_bytes] at length
    omega
  have read : ∀ index, image.wordAt? index = held[index]? := by
    intro index
    rw [← Image.wordAt?_flatMap image.origin, ← same]
  -- The image is cut into words as well, and these are compared one by one.
  have equal : held = words.map Word.canonical := by
    apply List.ext_getElem?
    intro index
    rw [List.getElem?_map]
    cases found : words[index]? with
    | none =>
        rw [List.getElem?_eq_none_iff] at found
        exact List.getElem?_eq_none (by omega)
    | some word =>
        obtain ⟨statement, inside, placed, single⟩ := listed.exists_getElem? found
        obtain ⟨offset, position, high, low⟩ := depicted.word_at statement
          (List.mem_of_getElem? inside) 0 word.canonical (by rw [single]; rfl)
        have here : offset = 2 * index := by
          omega
        rw [here] at high low
        rw [← read, Image.wordAt?, high, low]
        simp only [Word.ofBytes_high_low, Option.map_some]
  rw [same, equal]

end Listed

namespace Image

/-- The source of an image: its origin on the first line, and then a line for every statement of
its program. -/
def sourceLines (image : Image) : List Text :=
  Text.spaced [ascii ".org", Numeral.hexLiteral 0 image.origin.toNat] ::
    (Program.disassemble image).statements.map fun statement => Text.spaced statement.words

theorem sourceLines_flatMap (origin : UInt16) (words : List Word) :
    sourceLines ⟨origin, words.flatMap Word.bytes⟩ =
      Text.spaced [ascii ".org", Numeral.hexLiteral 0 origin.toNat] ::
        words.map fun word => Text.spaced word.words := by
  have texts := congrArg (List.map Text.spaced) (Program.words_disassembleFrom origin 0 words)
  rw [List.map_map, List.map_map] at texts
  rw [sourceLines]
  exact congrArg _ texts

theorem isWhole_sourceLines (origin : UInt16) (words : List Word) :
    ∀ line ∈ sourceLines ⟨origin, words.flatMap Word.bytes⟩, Source.IsWhole line := by
  intro line member
  rw [sourceLines_flatMap] at member
  rcases List.mem_cons.mp member with rfl | later
  · have literal : (Numeral.hexLiteral 0 origin.toNat).length ≤ 6 :=
      length_hexLiteral_le origin.toNat_lt (by decide)
    have short : ∀ word ∈ [ascii ".org", Numeral.hexLiteral 0 origin.toNat], word.length ≤ 6 := by
      intro word inside
      rcases List.mem_cons.mp inside with rfl | last
      · decide
      · rw [List.mem_singleton.mp last]
        exact literal
    have bound : (Text.spaced [ascii ".org", Numeral.hexLiteral 0 origin.toNat]).length ≤ 14 :=
      Text.length_spaced_le short
    exact Source.isWhole_spaced (isPlain_origin 0 origin.toNat)
      (Nat.lt_of_le_of_lt bound (by decide))
  · obtain ⟨word, _, rfl⟩ := List.mem_map.mp later
    obtain ⟨first, operands, shape, _⟩ := word.ofWords_words
    have short := word.length_spaced_words_le
    have plain : ∀ text ∈ word.words, text.IsPlain := by
      intro text inside
      exact (word.isPlain_words text inside).1
    rw [shape] at short plain ⊢
    exact Source.isWhole_spaced plain (Nat.lt_of_le_of_lt short (by decide))

end Image

theorem Pass.readAll_sourceLines [Evaluator] (origin : UInt16) (words : List Word)
    (nonempty : words ≠ []) (inside : origin.toNat + 2 * words.length ≤ Memory.size) :
    ∃ after, (Pass.start []).readAll (Image.sourceLines ⟨origin, words.flatMap Word.bytes⟩) =
        (after, none) ∧
      after.defining = none ∧ Listed origin.toNat words after.assembly.statements := by
  have positive := List.length_pos_iff.mpr nonempty
  have low : origin.toNat ≤ 0xFFF := by
    change _ ≤ 4096 at inside
    omega
  obtain ⟨moved, read, movedBare, location, unchanged⟩ :=
    Pass.read_origin Pass.bare_start (Nat.zero_le origin.toNat) low 0
  rw [← location] at inside
  obtain ⟨after, added, others, afterBare, statements, listed⟩ :=
    Pass.readAll_listing movedBare words inside
  rw [unchanged] at statements
  rw [location] at listed
  have only : after.assembly.statements = added := statements
  refine ⟨after, ?_, afterBare.outside, ?_⟩
  · rw [Image.sourceLines_flatMap, Pass.readAll, read]
    exact others
  · rw [only]
    exact listed

theorem Assembler.exists_parse_sourceLines [Evaluator] {assembler : Assembler} (origin : UInt16)
    {words : List Word} {ending : Text} (unset : assembler.predefines = []) (nonempty : words ≠ [])
    (inside : origin.toNat + 2 * words.length ≤ Memory.size)
    (ended : ending = [] ∨ ending = [10]) :
    let lines := Image.sourceLines ⟨origin, words.flatMap Word.bytes⟩
    ∃ program, (assembler.parse (List.intercalate [10] lines ++ ending)).2 = .ok program ∧
      Listed origin.toNat words program.statements := by
  intro lines
  obtain ⟨pass, read, closed, listed⟩ := Pass.readAll_sourceLines origin words nonempty inside
  have source : Source.ofText (List.intercalate [10] lines ++ ending) = ⟨lines, false⟩ :=
    Source.ofText_joined (List.cons_ne_nil _ _) (Image.isWhole_sourceLines origin words) ended
  refine ⟨⟨pass.assembly.statements⟩, ?_, listed⟩
  rw [parse_of_read (by rw [unset, source]; exact read) (by rw [source]) closed]
  simp only [listed.link_eq]

/-- Disassembling an image of whole words and assembling the listing, whatever the assembler did
before, gives an image with the same origin and length that has the same words, save for the third
nibble of additions of an immediate; and the two images disassemble to the same text. -/
theorem parse_sourceLines [Evaluator] {assembler : Assembler} (image : Image) {ending : Text}
    (unset : assembler.predefines = []) (filled : image.bytes ≠ [])
    (even : image.bytes.length % 2 = 0)
    (inside : image.origin.toNat + image.bytes.length ≤ Memory.size)
    (ended : ending = [] ∨ ending = [10]) :
    ∃ program again,
      (assembler.parse (List.intercalate [10] image.sourceLines ++ ending)).2 = .ok program ∧
      program.image = .ok again ∧
      again.origin = image.origin ∧
      again.bytes.length = image.bytes.length ∧
      (∀ index, again.wordAt? index = (image.wordAt? index).map Word.canonical) ∧
      (Program.disassemble again).statements.map Statement.words =
        (Program.disassemble image).statements.map Statement.words := by
  obtain ⟨origin, bytes⟩ := image
  obtain ⟨words, rfl⟩ := Image.exists_words bytes even
  have nonempty : words ≠ [] := by
    rintro rfl
    exact filled rfl
  rw [Image.length_flatMap_bytes] at inside
  obtain ⟨program, accepted, listed⟩ :=
    Assembler.exists_parse_sourceLines origin unset nonempty inside ended
  obtain ⟨⟨start, content⟩, known, depicted⟩ :=
    Program.exists_image_depicts (laidOut_of_parse accepted)
  have bounds := listed.origin_eq nonempty depicted
  have held : content = (words.map Word.canonical).flatMap Word.bytes :=
    listed.bytes_eq nonempty depicted
  refine ⟨program, ⟨start, content⟩, accepted, known, UInt16.toNat_inj.mp bounds.1, ?_, ?_, ?_⟩
  · rw [bounds.2, Image.length_flatMap_bytes]
  · intro index
    rw [held, Image.wordAt?_flatMap, Image.wordAt?_flatMap, List.getElem?_map]
  · rw [held, Program.disassemble, Program.disassemble, Program.words_disassembleFrom,
      Program.words_disassembleFrom, List.map_map]
    apply List.map_congr_left
    intro word _
    exact word.words_canonical

open Standard

/-- Three words up to the end of memory, the first of which changes, after another source. -/
theorem parse_sourceLines_last_words :
    let assembler := (Assembler.parse {} (ascii "loop: call loop")).1
    let image : Image := ⟨0xFFA, [0x71, 0xAB, 0x81, 0x24, 0xFF, 0xFF]⟩
    ∃ program again,
      (assembler.parse (List.intercalate [10] image.sourceLines ++ [10])).2 = .ok program ∧
      program.image = .ok again ∧ again.origin = 0xFFA ∧ again.bytes.length = 6 ∧
      again.wordAt? 0 = some 0x710B ∧ again.wordAt? 1 = some 0x8124 ∧
      again.wordAt? 2 = some 0xFFFF ∧
      (Program.disassemble again).statements.map Statement.words =
        (Program.disassemble image).statements.map Statement.words := by
  intro assembler image
  obtain ⟨program, again, accepted, known, origin, length, words, texts⟩ :=
    @parse_sourceLines _ assembler image [10] (by decide +kernel) (by decide) (by decide)
      (by decide) (.inr rfl)
  refine ⟨program, again, accepted, known, origin, length, ?_, ?_, ?_, texts⟩
  · rw [words]
    decide
  · rw [words]
    decide
  · rw [words]
    decide

end Nibble
