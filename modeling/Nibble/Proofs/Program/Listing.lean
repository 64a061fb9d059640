import Nibble.Program.Basic
import Nibble.Proofs.Instruction
import Nibble.Proofs.Source.Lines

set_option autoImplicit false

/-! Listings read back. The assembly text of a line does not tell its word, and the address in front
has three or four digits; but the colon ends the address and the next space ends the word, so that
the placed words of a program can be read from its listing. -/

namespace Nibble

open Text (ascii)
open Numeral (hexPadded)

namespace Listing

/-- The number of at most sixteen bits whose hexadecimal digits a text is. -/
def number? (text : Text) : Option Nat :=
  (Number.accumulate 16 0xFFFF 0 text).toOption

/-- The placed word of a line: the number before the colon, and the one between the two spaces. -/
def placed? (line : Text) : Option PlacedWord := do
  let address ← number? (line.before 58)
  let word ← number? (Text.before 32 (line.drop ((line.before 58).length + 2)))
  return (UInt16.ofNat address, UInt16.ofNat word)

def codes? (listing : Text) : Option (List PlacedWord) :=
  (Source.ofText listing).lines.mapM placed?

/-! ### One line -/

theorem number?_hexPadded (width : Nat) (number : UInt16) :
    number? (hexPadded width number.toNat) = some number.toNat := by
  have fits : number.toNat ≤ 0xFFFF := Nat.le_of_lt_succ number.toNat_lt
  rw [number?, Number.accumulate_hexPadded width fits]
  rfl

theorem before_append {mark : UInt8} {front : Text} (absent : ∀ byte ∈ front, byte ≠ mark)
    (rest : Text) : Text.before mark (front ++ mark :: rest) = front := by
  have kept : ∀ byte ∈ front, (byte != mark) = true := by
    intro byte member
    rw [bne_iff_ne]
    exact absent byte member
  rw [Text.before, List.takeWhile_append_of_pos kept, List.takeWhile_cons_of_neg (by simp),
    List.append_nil]

theorem ne_of_mem_hexPadded {width number : Nat} {mark : UInt8}
    (odd : Text.isPlainByte mark = false) : ∀ byte ∈ hexPadded width number, byte ≠ mark := by
  intro byte member same
  have plain := (isPlain_hexPadded width number).bytes byte member
  rw [same, odd] at plain
  cases plain

/-- A line of the listing without the line feed at its end. -/
def row (placed : PlacedWord) : Text :=
  hexPadded 3 placed.1.toNat ++
    58 :: 32 :: (hexPadded 4 placed.2.toNat ++ 32 :: 32 :: placed.2.text)

theorem listingLine_eq (placed : PlacedWord) : Program.listingLine placed = row placed ++ [10] := by
  have colon : ascii ": " = [58, 32] := by
    decide
  have spaces : ascii "  " = [32, 32] := by
    decide
  have feed : ascii "\n" = [10] := by
    decide
  rw [Program.listingLine, row, colon, spaces, feed]
  simp only [List.append_assoc, List.cons_append, List.nil_append]

theorem placed?_row (placed : PlacedWord) : placed? (row placed) = some placed := by
  obtain ⟨address, word⟩ := placed
  have front : (row (address, word)).before 58 = hexPadded 3 address.toNat :=
    before_append (ne_of_mem_hexPadded (by decide)) _
  have behind : (row (address, word)).drop ((hexPadded 3 address.toNat).length + 2) =
      hexPadded 4 word.toNat ++ 32 :: 32 :: word.text := by
    rw [row, List.drop_append, List.drop_eq_nil_of_le (Nat.le_add_right _ _), List.nil_append,
      Nat.add_sub_cancel_left]
    rfl
  have middle : Text.before 32 (hexPadded 4 word.toNat ++ 32 :: 32 :: word.text) =
      hexPadded 4 word.toNat :=
    before_append (ne_of_mem_hexPadded (by decide)) _
  rw [placed?, front, behind, middle, number?_hexPadded, number?_hexPadded]
  simp only [Option.bind_eq_bind, Option.bind_some, UInt16.ofNat_toNat]
  rfl

/-! ### All lines -/

theorem mem_row {placed : PlacedWord} {byte : UInt8} (member : byte ∈ row placed) :
    byte = 58 ∨ byte = 32 ∨ Text.isPlainByte byte = true := by
  have words : ∀ byte ∈ placed.2.text, byte = 32 ∨ Text.isPlainByte byte = true := by
    apply Text.forall_mem_spaced (fun byte => byte = 32 ∨ Text.isPlainByte byte = true) (.inl rfl)
    intro text inside byte member
    exact .inr ((placed.2.isPlain_words text inside).1.bytes byte member)
  simp only [row, List.mem_append, List.mem_cons] at member
  rcases member with digit | colon | space | digit | space | space | text
  · exact .inr (.inr ((isPlain_hexPadded _ _).bytes byte digit))
  · exact .inl colon
  · exact .inr (.inl space)
  · exact .inr (.inr ((isPlain_hexPadded _ _).bytes byte digit))
  · exact .inr (.inl space)
  · exact .inr (.inl space)
  · exact .inr (words byte text)

theorem isWhole_row (placed : PlacedWord) : Source.IsWhole (row placed) where
  nonempty := List.append_ne_nil_of_right_ne_nil _ (List.cons_ne_nil _ _)
  unbroken := by
    intro byte member feed
    rw [feed] at member
    exact absurd (mem_row member) (by decide)
  unreturned := by
    intro last
    exact absurd (mem_row (List.mem_of_getLast? last)) (by decide)
  short := by
    have address : (hexPadded 3 placed.1.toNat).length ≤ 4 :=
      length_hexPadded_le placed.1.toNat_lt (by decide)
    have word : (hexPadded 4 placed.2.toNat).length ≤ 4 :=
      length_hexPadded_le placed.2.toNat_lt (by decide)
    have text : placed.2.text.length ≤ 24 := placed.2.length_spaced_words_le
    simp only [row, List.length_append, List.length_cons, Source.lineLimit]
    omega

theorem lines_listing (placed : List PlacedWord) :
    (Source.ofText (placed.flatMap Program.listingLine)).lines = placed.map row := by
  induction placed with
  | nil =>
      rw [List.flatMap_nil, Source.ofText]
      rfl
  | cons first rest ih =>
      rw [List.flatMap_cons, listingLine_eq, List.append_assoc, List.singleton_append,
        Source.ofText_append (isWhole_row first), List.map_cons, ih]

theorem mapM_row (placed : List PlacedWord) : (placed.map row).mapM placed? = some placed := by
  induction placed with
  | nil => rfl
  | cons first rest ih =>
      rw [List.map_cons, List.mapM_cons, placed?_row, ih]
      rfl

theorem codes?_listing (program : Program) : codes? program.listing = some program.codes := by
  rw [codes?, Program.listing, lines_listing, mapM_row]

end Listing

/-- A listing loses nothing. The placed words of every program, wherever its statements stand, are
read from its listing; so two programs have the same listing exactly if they have the same words at
the same addresses in the same order. -/
theorem Program.listing_determines_codes (program other : Program) :
    Listing.codes? program.listing = some program.codes ∧
      (program.listing = other.listing ↔ program.codes = other.codes) := by
  refine ⟨Listing.codes?_listing program, ?_⟩
  constructor
  · intro same
    have read := Listing.codes?_listing program
    rw [same, Listing.codes?_listing other] at read
    exact (Option.some.inj read).symm
  · intro same
    rw [listing, listing, same]

-- Two words with the same text, one of them at an address with four digits.
example :
    Word.text 0x7305 = Word.text 0x73F5 ∧
      Listing.codes? (Program.listing ⟨[{ address := 0xFFE, codes := [0x7305, 0x73F5] }]⟩) =
        some [(0xFFE, 0x7305), (0x1000, 0x73F5)] := by
  decide +kernel

end Nibble
