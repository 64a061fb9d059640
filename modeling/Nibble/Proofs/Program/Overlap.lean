import Nibble.Proofs.Program.Image

set_option autoImplicit false

/-! Words in any order. The words of a program may overlap, wholly or by one byte, and stand in any
order, and an address outside sixteen bits is cut down to them. The image then holds at every
address the byte of the last word that covers it, and no byte is ever written outside the image. -/

namespace Nibble

namespace Program

/-! ### Where a byte comes from -/

def byteOf? (placed : PlacedWord) (address : Nat) : Option UInt8 :=
  if address = placed.1.toNat then some placed.2.high
  else if address = placed.1.toNat + 1 then some placed.2.low
  else none

/-- The byte that words leave at an address: that of the last one which covers it, and zero where
there is none. -/
inductive Supplies (codes : List PlacedWord) (address : Nat) : UInt8 → Prop where
  | last (before : List PlacedWord) (placed : PlacedWord) (after : List PlacedWord) (byte : UInt8)
      (split : codes = before ++ placed :: after) (covers : byteOf? placed address = some byte)
      (kept : ∀ later ∈ after, byteOf? later address = none) : Supplies codes address byte
  | nothing (uncovered : ∀ placed ∈ codes, byteOf? placed address = none) :
      Supplies codes address 0

theorem getD_byteOf? (placed : PlacedWord) (address : Nat) (fallback : UInt8) :
    (byteOf? placed address).getD fallback =
      if address = placed.1.toNat then placed.2.high
      else if address = placed.1.toNat + 1 then placed.2.low else fallback := by
  unfold byteOf?
  split
  · rfl
  · split
    · rfl
    · rfl

/-- Going through words leaves the byte of the last one that covers an address, or what was there
before. -/
theorem byteAt_cases (codes : List PlacedWord) (address : Nat) (fallback : UInt8) :
    (∃ before placed after, codes = before ++ placed :: after ∧
      byteOf? placed address = some (byteAt codes address fallback) ∧
      ∀ later ∈ after, byteOf? later address = none) ∨
    (∀ placed ∈ codes, byteOf? placed address = none) ∧
      byteAt codes address fallback = fallback := by
  induction codes generalizing fallback with
  | nil =>
      refine .inr ⟨?_, rfl⟩
      intro placed member
      cases member
  | cons first rest ih =>
      rw [byteAt_cons, ← getD_byteOf?]
      rcases ih ((byteOf? first address).getD fallback) with
        ⟨before, placed, after, split, covers, kept⟩ | ⟨uncovered, same⟩
      · refine .inl ⟨first :: before, placed, after, ?_, covers, kept⟩
        rw [split, List.cons_append]
      · rw [same]
        cases here : byteOf? first address with
        | some byte => exact .inl ⟨[], first, rest, rfl, here, uncovered⟩
        | none => exact .inr ⟨List.forall_mem_cons.mpr ⟨here, uncovered⟩, rfl⟩

theorem supplies_byteAt (codes : List PlacedWord) (address : Nat) :
    Supplies codes address (byteAt codes address 0) := by
  rcases byteAt_cases codes address 0 with ⟨before, placed, after, split, covers, kept⟩ |
    ⟨uncovered, same⟩
  · exact .last before placed after _ split covers kept
  · rw [same]
    exact .nothing uncovered

/-! ### The image of any program -/

/-- What an image shows of the words of a program: it reaches from the least address of a word to
the end of the word with the greatest one, and every byte is that of the last word there. -/
structure Shows (program : Program) (image : Image) : Prop where
  begins : ∃ placed ∈ program.codes, placed.1 = image.origin
  least : ∀ placed ∈ program.codes, image.origin.toNat ≤ placed.1.toNat
  ends : ∃ placed ∈ program.codes,
    placed.1.toNat + 2 = image.origin.toNat + image.bytes.length
  greatest : ∀ placed ∈ program.codes,
    placed.1.toNat + 2 ≤ image.origin.toNat + image.bytes.length
  supplied : ∀ (index : Nat) (byte : UInt8), image.bytes[index]? = some byte →
    Supplies program.codes (image.origin.toNat + index) byte

theorem high_ne_zero {program : Program} (nonempty : program.codes ≠ []) : program.high ≠ 0 := by
  obtain ⟨placed, member⟩ := List.exists_mem_of_ne_nil _ nonempty
  have reached := le_high member
  omega

theorem exists_low {program : Program} (nonempty : program.codes ≠ [])
    (fits : program.high ≤ Memory.size) :
    ∃ placed ∈ program.codes, placed.1.toNat = program.low := by
  refine Decidable.byContradiction fun missing => ?_
  -- If no word has the least address, the next one is a lower bound as well.
  have higher : program.low + 1 ≤ program.low := by
    refine (program.le_low_iff _).mpr ⟨?_, ?_⟩
    · exact Nat.lt_of_lt_of_le (low_lt_high (high_ne_zero nonempty)) fits
    · intro placed member
      exact Nat.lt_of_le_of_ne (low_le member) fun same => missing ⟨placed, member, same.symm⟩
  omega

theorem exists_high {program : Program} (nonempty : program.codes ≠ []) :
    ∃ placed ∈ program.codes, placed.1.toNat + 2 = program.high := by
  refine Decidable.byContradiction fun missing => ?_
  have lower : program.high ≤ program.high - 1 := by
    refine (program.high_le_iff _).mpr ?_
    intro placed member
    exact Nat.le_sub_one_of_lt
      (Nat.lt_of_le_of_ne (le_high member) fun same => missing ⟨placed, member, same⟩)
  have positive := high_ne_zero nonempty
  omega

theorem exists_image_shows {program : Program} (nonempty : program.codes ≠ [])
    (fits : program.high ≤ Memory.size) :
    ∃ image, program.image = .ok image ∧ program.Shows image := by
  have order := low_lt_high (high_ne_zero nonempty)
  obtain ⟨image, known, origin, length, content⟩ := image_of_fits (high_ne_zero nonempty) fits
  have ending : image.origin.toNat + image.bytes.length = program.high := by omega
  refine ⟨image, known, ?_, ?_, ?_, ?_, ?_⟩
  · obtain ⟨placed, member, same⟩ := exists_low nonempty fits
    exact ⟨placed, member, UInt16.toNat_inj.mp (same.trans origin.symm)⟩
  · intro placed member
    rw [origin]
    exact low_le member
  · rw [ending]
    exact exists_high nonempty
  · intro placed member
    rw [ending]
    exact le_high member
  · intro index byte found
    have inside := (List.getElem?_eq_some_iff.mp found).1
    rw [content index inside] at found
    cases found
    rw [origin]
    exact supplies_byteAt _ _

theorem image_of_no_words {program : Program} (empty : program.codes = []) :
    program.image = .ok ⟨0, []⟩ := by
  have zero : program.high = 0 := by
    unfold high
    rw [empty]
    rfl
  unfold Program.image
  rw [if_pos zero]

theorem image_eq_error_iff {program : Program} :
    program.image = .error (.plain .programSize) ↔
      ∃ placed ∈ program.codes, Memory.size < placed.1.toNat + 2 := by
  constructor
  · intro failed
    refine Decidable.byContradiction fun missing => ?_
    have fits : program.high ≤ Memory.size := by
      refine (program.high_le_iff _).mpr fun placed member => Nat.le_of_not_lt fun beyond => ?_
      exact missing ⟨placed, member, beyond⟩
    by_cases empty : program.codes = []
    · rw [image_of_no_words empty] at failed
      cases failed
    · obtain ⟨image, known, _⟩ := exists_image_shows empty fits
      rw [known] at failed
      cases failed
  · rintro ⟨placed, member, beyond⟩
    exact image_of_large (Nat.lt_of_lt_of_le beyond (le_high member))

/-! ### Checked writes -/

/-- Replaces the byte with an index; there is no result where no byte has the index. -/
def replaceByte? (bytes : Array UInt8) (index : Int) (byte : UInt8) : Option (Array UInt8) :=
  if 0 ≤ index ∧ index < bytes.size then some (bytes.setIfInBounds index.toNat byte) else none

def writeWord? (bytes : Array UInt8) (offset : Int) (word : Word) : Option (Array UInt8) :=
  (replaceByte? bytes offset word.high).bind fun written =>
    replaceByte? written (offset + 1) word.low

def writeAll? (low : Nat) : List PlacedWord → Array UInt8 → Option (Array UInt8)
  | [], bytes => some bytes
  | placed :: rest, bytes =>
      (writeWord? bytes ((placed.1.toNat : Int) - low) placed.2).bind fun written =>
        writeAll? low rest written

/-- The image of a program, with the size of its buffer and every index into it checked. -/
def imageChecked (program : Program) : Option (Except Failure Image) :=
  if program.high = 0 then some (.ok ⟨0, []⟩)
  else if program.high > Memory.size then some (.error (.plain .programSize))
  else if program.high < program.low then none
  else
    (writeAll? program.low program.codes (Array.replicate (program.high - program.low) 0)).map
      fun bytes => .ok ⟨UInt16.ofNat program.low, bytes.toList⟩

theorem writeWord?_eq {bytes : Array UInt8} {offset : Nat} (inside : offset + 2 ≤ bytes.size)
    (word : Word) : writeWord? bytes offset word = some (writeWord bytes offset word) := by
  have first : replaceByte? bytes offset word.high =
      some (bytes.setIfInBounds offset word.high) := by
    unfold replaceByte?
    rw [if_pos (by omega)]
    rfl
  have second (written : Array UInt8) (size : written.size = bytes.size) :
      replaceByte? written ((offset : Int) + 1) word.low =
        some (written.setIfInBounds (offset + 1) word.low) := by
    unfold replaceByte?
    rw [if_pos (by omega)]
    rfl
  unfold writeWord? writeWord
  rw [first, Option.bind_some, second _ Array.size_setIfInBounds]

theorem writeAll?_eq {low : Nat} {codes : List PlacedWord} {bytes : Array UInt8}
    (inside : ∀ placed ∈ codes,
      low ≤ placed.1.toNat ∧ placed.1.toNat + 2 ≤ low + bytes.size) :
    writeAll? low codes bytes =
      some (codes.foldl
        (fun bytes placed => writeWord bytes (placed.1.toNat - low) placed.2) bytes) := by
  induction codes generalizing bytes with
  | nil => rfl
  | cons placed rest ih =>
      obtain ⟨⟨above, below⟩, others⟩ := List.forall_mem_cons.mp inside
      have offset : (placed.1.toNat : Int) - low = ((placed.1.toNat - low : Nat) : Int) := by omega
      rw [writeAll?, offset, writeWord?_eq (by omega), Option.bind_some, List.foldl_cons]
      refine ih ?_
      rw [size_writeWord]
      exact others

/-- No index is out of range, so that the checks change nothing. -/
theorem imageChecked_eq (program : Program) : program.imageChecked = some program.image := by
  unfold imageChecked Program.image
  by_cases empty : program.high = 0
  · rw [if_pos empty, if_pos empty]
  · rw [if_neg empty, if_neg empty]
    by_cases large : program.high > Memory.size
    · rw [if_pos large, if_pos large]
    · have order := low_lt_high empty
      rw [if_neg large, if_neg large, if_neg (by omega), writeAll?_eq]
      · rfl
      · intro placed member
        rw [Array.size_replicate]
        have above := low_le member
        have below := le_high member
        omega

end Program

end Nibble
