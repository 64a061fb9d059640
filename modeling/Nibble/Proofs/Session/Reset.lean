import Nibble.Proofs.RoundTrip
import Nibble.Proofs.Session.Run

set_option autoImplicit false

/-! A session after a reset. The memory that a program fills does not depend on how its words are
cut into statements: every byte is that of the last word which covers it. So the program of an image
fills the memory as the image itself does, and with it as the program does whose image it is. -/

namespace Nibble

theorem Memory.write_apply (memory : Memory) (origin : Nat) (bytes : List UInt8)
    (address : Fin 4096) :
    memory.write origin bytes.toArray address =
      if address.val < origin then memory address
      else (bytes[address.val - origin]?).getD (memory address) := by
  unfold write
  by_cases below : address.val < origin
  · rw [if_pos below, dif_neg (by omega)]
  · rw [if_neg below]
    by_cases inside : address.val - origin < bytes.length
    · rw [dif_pos ⟨by omega, inside⟩, List.getElem?_eq_getElem inside]
      rfl
    · rw [dif_neg fun both => inside both.2, List.getElem?_eq_none (by omega)]
      rfl

namespace Program

/-! ### The memory of a program -/

/-- The memory with nothing but the words of a program in it. -/
def memory (program : Program) : Memory := fun address =>
  byteAt program.codes address 0

/-- The image of a program that fits lies inside memory, and written to an empty memory it gives
the memory of the program. -/
theorem write_image {program : Program} {image : Image} (known : program.image = .ok image) :
    image.origin.toNat + image.bytes.length ≤ Memory.size ∧
      Memory.zero.write image.origin.toNat image.bytes.toArray = program.memory := by
  by_cases empty : program.high = 0
  · unfold Program.image at known
    rw [if_pos empty] at known
    cases known
    refine ⟨Nat.zero_le _, ?_⟩
    funext address
    have written : Memory.zero.write 0 #[] address = 0 :=
      dif_neg fun inside => absurd inside.2 (Nat.not_lt_zero _)
    exact written.trans (byteAt_outside (.inr (by omega))).symm
  · by_cases large : Memory.size < program.high
    · rw [image_of_large large] at known
      cases known
    · have order := low_lt_high empty
      have fits : program.high ≤ Memory.size := Nat.le_of_not_lt large
      obtain ⟨shown, same, origin, length, content⟩ := image_of_fits empty fits
      cases same.symm.trans known
      refine ⟨by omega, ?_⟩
      funext address
      rw [Memory.write_apply, origin]
      by_cases below : address.val < program.low
      · rw [if_pos below]
        exact (byteAt_outside (.inl below)).symm
      · rw [if_neg below]
        by_cases inside : address.val - program.low < image.bytes.length
        · have place : program.low + (address.val - program.low) = address.val := by omega
          rw [content _ inside, place]
          rfl
        · rw [List.getElem?_eq_none (Nat.le_of_not_lt inside)]
          exact (byteAt_outside (.inr (by omega))).symm

theorem exists_image {program : Program} (fits : program.high ≤ Memory.size) :
    ∃ image, program.image = .ok image := by
  by_cases empty : program.high = 0
  · unfold Program.image
    rw [if_pos empty]
    exact ⟨_, rfl⟩
  · obtain ⟨image, known, _⟩ := image_of_fits empty fits
    exact ⟨image, known⟩

/-- The machine that a program starts from. -/
def loaded (program : Program) : Machine :=
  { Machine.initial with memory := program.memory, counter := program.entry }

end Program

/-- A reset of a session whose program fits, whatever the session did before. -/
theorem Session.reset_of_fits {session : Session} (fits : session.program.high ≤ Memory.size) :
    session.reset = (session.advanced session.program.loaded, none) := by
  obtain ⟨image, known⟩ := Program.exists_image fits
  obtain ⟨inside, memory⟩ := Program.write_image known
  have accepted : Machine.initial.load image.origin image.bytes =
      .ok { Machine.initial with memory := session.program.memory, counter := image.origin } := by
    unfold Machine.load
    rw [if_neg (Nat.not_lt.mpr inside)]
    exact congrArg (fun memory => Except.ok
      { Machine.initial with memory := memory, counter := image.origin }) memory
  unfold reset
  rw [known]
  dsimp only
  rw [accepted]
  rfl

/-! ### The program of an image -/

namespace Program

section

variable (origin : UInt16)

theorem placed_one (offset : Nat) (word : Word) :
    (disassembleFrom.one origin offset word).placed =
      [(Statement.truncate (origin.toNat + offset), word)] := by
  simp [Statement.placed, disassembleFrom.one]

theorem toNat_truncate_add {offset : Nat} (small : origin.toNat + offset < 65536) :
    (Statement.truncate (origin.toNat + offset)).toNat = origin.toNat + offset := by
  have place : ((Statement.truncate (origin.toNat + offset)).toNat : Int) =
      origin.toNat + offset := Statement.toNat_truncate (by omega) (by omega)
  omega

/-- The words of an image stand one behind the other from their offset on. -/
theorem placed_disassembleFrom {offset : Nat} {bytes : List UInt8}
    (room : origin.toNat + offset + bytes.length + bytes.length % 2 ≤ 65536) :
    ∀ placed ∈ (disassembleFrom origin offset bytes).flatMap Statement.placed,
      origin.toNat + offset ≤ placed.1.toNat ∧
        placed.1.toNat + 2 ≤ origin.toNat + offset + bytes.length + bytes.length % 2 := by
  fun_induction disassembleFrom origin offset bytes with
  | case1 offset =>
      intro placed member
      cases member
  | case2 offset high =>
      rw [List.length_singleton] at room ⊢
      have place := toNat_truncate_add origin (show origin.toNat + offset < 65536 by omega)
      intro placed member
      rw [List.flatMap_singleton, placed_one, List.mem_singleton] at member
      rw [member]
      dsimp only
      omega
  | case3 offset high low rest ih =>
      rw [List.length_cons, List.length_cons] at room ⊢
      have place := toNat_truncate_add origin (show origin.toNat + offset < 65536 by omega)
      have later := ih (by omega)
      intro placed member
      rw [List.flatMap_cons, placed_one] at member
      rcases List.mem_cons.mp member with rfl | inRest
      · dsimp only
        omega
      · have bounds := later placed inRest
        omega

/-- Before the first word that is still to come nothing changes any more. -/
theorem byteAt_disassembleFrom_below {offset address : Nat} {bytes : List UInt8}
    (room : origin.toNat + offset + bytes.length + bytes.length % 2 ≤ 65536)
    (below : address < origin.toNat + offset) (fallback : UInt8) :
    byteAt ((disassembleFrom origin offset bytes).flatMap Statement.placed) address fallback =
      fallback := by
  have bounds := placed_disassembleFrom origin room
  refine byteAt_eq ?_ ?_ (.inl rfl)
  · intro placed member place
    have first := (bounds placed member).1
    omega
  · intro placed member place
    have first := (bounds placed member).1
    omega

theorem byteAt_disassembleFrom {offset : Nat} {bytes : List UInt8}
    (room : origin.toNat + offset + bytes.length + bytes.length % 2 ≤ 65536) (index : Nat) :
    byteAt ((disassembleFrom origin offset bytes).flatMap Statement.placed)
        (origin.toNat + offset + index) 0 =
      (bytes[index]?).getD 0 := by
  fun_induction disassembleFrom origin offset bytes generalizing index with
  | case1 offset => rfl
  | case2 offset high =>
      rw [List.length_singleton] at room
      have place := toNat_truncate_add origin (show origin.toNat + offset < 65536 by omega)
      rw [List.flatMap_singleton, placed_one, byteAt_cons, place, Word.high_ofBytes,
        Word.low_ofBytes]
      cases index with
      | zero =>
          rw [if_pos (Nat.add_zero _)]
          rfl
      | succ index =>
          rw [if_neg (by omega), ite_self]
          rfl
  | case3 offset high low rest ih =>
      rw [List.length_cons, List.length_cons] at room
      have place := toNat_truncate_add origin (show origin.toNat + offset < 65536 by omega)
      have later : origin.toNat + (offset + 2) + rest.length + rest.length % 2 ≤ 65536 := by omega
      rw [List.flatMap_cons, placed_one, List.singleton_append, byteAt_cons, place,
        Word.high_ofBytes, Word.low_ofBytes]
      match index with
      | 0 =>
          rw [if_pos (Nat.add_zero _), byteAt_disassembleFrom_below origin later (by omega)]
          rfl
      | 1 =>
          rw [if_neg (by omega), if_pos rfl, byteAt_disassembleFrom_below origin later (by omega)]
          rfl
      | index + 2 =>
          have further : origin.toNat + offset + (index + 2) =
              origin.toNat + (offset + 2) + index := by omega
          rw [if_neg (by omega), if_neg (by omega), further, ih later index]
          rfl

end

theorem memory_disassemble {image : Image}
    (room : image.origin.toNat + image.bytes.length + image.bytes.length % 2 ≤ Memory.size) :
    (disassemble image).memory =
      Memory.zero.write image.origin.toNat image.bytes.toArray := by
  have small : image.origin.toNat + 0 + image.bytes.length + image.bytes.length % 2 ≤ 65536 :=
    Nat.le_trans room (by decide)
  funext address
  rw [Memory.write_apply]
  by_cases below : address.val < image.origin.toNat
  · rw [if_pos below]
    exact byteAt_disassembleFrom_below image.origin small below 0
  · have bytes := byteAt_disassembleFrom image.origin small (address.val - image.origin.toNat)
    rw [show image.origin.toNat + 0 + (address.val - image.origin.toNat) = address.val by omega]
      at bytes
    rw [if_neg below]
    exact bytes

theorem high_disassemble_le {image : Image}
    (room : image.origin.toNat + image.bytes.length + image.bytes.length % 2 ≤ Memory.size) :
    (disassemble image).high ≤ Memory.size := by
  rw [high_le_iff]
  intro placed member
  have small : image.origin.toNat + 0 + image.bytes.length + image.bytes.length % 2 ≤ 65536 :=
    Nat.le_trans room (by decide)
  exact Nat.le_trans (placed_disassembleFrom image.origin small placed member).2 room

theorem entry_disassemble {image : Image} (nonempty : image.bytes ≠ []) :
    (disassemble image).entry = image.origin := by
  obtain ⟨origin, bytes⟩ := image
  have first : Statement.truncate (origin.toNat + (0 : Nat)) = origin :=
    UInt16.toNat_inj.mp (toNat_truncate_add origin origin.toNat_lt)
  match bytes with
  | [] => exact absurd rfl nonempty
  | [high] => exact first
  | high :: low :: rest => exact first

theorem Depicts.bytes_ne_nil {program : Program} {image : Image} (depicts : program.Depicts image)
    {bound : Int} (laid : LaidOut bound program.statements) (nonempty : program.statements ≠ []) :
    image.bytes ≠ [] := by
  obtain ⟨statement, present⟩ := List.exists_mem_of_ne_nil _ nonempty
  have codes := List.length_pos_iff.mpr (laid.nonempty statement present)
  obtain ⟨offset, _, high, _⟩ := depicts.word_at statement present 0 _
    (List.getElem?_eq_getElem codes)
  intro empty
  rw [empty] at high
  cases high

/-- A program and the program of its image start from the same machine. -/
theorem loaded_disassemble {program : Program} {image : Image}
    (laid : LaidOut 4096 program.statements) (known : program.image = .ok image)
    (room : image.origin.toNat + image.bytes.length + image.bytes.length % 2 ≤ Memory.size) :
    (disassemble image).loaded = program.loaded := by
  obtain ⟨depicted, same, depicts⟩ := exists_image_depicts laid
  cases same.symm.trans known
  have memory : (disassemble image).memory = program.memory := by
    rw [memory_disassemble room]
    exact (write_image known).2
  have entry : (disassemble image).entry = program.entry := by
    rw [← depicts.origin_eq_entry]
    by_cases empty : program.statements = []
    · rw [depicts.eq_empty empty]
      rfl
    · exact entry_disassemble (depicts.bytes_ne_nil laid empty)
  unfold loaded
  rw [memory, entry]

end Program

end Nibble
