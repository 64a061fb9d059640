import Nibble.Proofs.Machine.Invariant
import Nibble.Proofs.Program.Overlap
import Nibble.Proofs.Session.Reset

set_option autoImplicit false

/-! What a reset loads. Of any program it loads the image that the words of the program make up, or
nothing at all where a word reaches out of memory. Of a program that was made from an image it loads
that image, with a zero behind an odd last byte. -/

namespace Nibble

namespace Session

theorem reset_of_large {session : Session} (large : Memory.size < session.program.high) :
    session.reset =
      (session.advanced Machine.initial, some (.plain .programSize)) := by
  unfold reset
  rw [Program.image_of_large large]
  rfl

/-- A reset of a session whose program fits, by the image of the program. -/
theorem reset_of_image {session : Session} {image : Image}
    (known : session.program.image = .ok image) :
    session.reset =
      (session.advanced
        { Machine.initial with
          memory := Memory.zero.write image.origin.toNat image.bytes.toArray
          counter := session.program.entry }, none) := by
  have fits : session.program.high ≤ Memory.size := by
    refine Nat.le_of_not_lt fun large => ?_
    rw [Program.image_of_large large] at known
    cases known
  rw [reset_of_fits fits, (Program.write_image known).2]
  rfl

/-- Loading words in any order. No index into the image is out of range. There is no image exactly
where a word reaches out of memory. Otherwise the image shows the words, if there are any, and a
reset never fails: it clears the machine, leaves the image in an otherwise empty memory, so that
every byte is that of the last word there, and continues at the entry of the program. -/
theorem loads_any_words (session : Session) :
    session.program.imageChecked = some session.program.image ∧
    (session.program.image = .error (.plain .programSize) ↔
      ∃ placed ∈ session.program.codes, 0x1000 < placed.1.toNat + 2) ∧
    ((∀ placed ∈ session.program.codes, placed.1.toNat + 2 ≤ 0x1000) →
      ∃ image, session.program.image = .ok image ∧
        (session.program.codes = [] → image = ⟨0, []⟩) ∧
        (session.program.codes ≠ [] → session.program.Shows image) ∧
        session.reset =
          (session.advanced
            { Machine.initial with
              memory := Memory.zero.write image.origin.toNat image.bytes.toArray
              counter := session.program.entry }, none) ∧
        ∀ address : Fin 4096,
          Program.Supplies session.program.codes address
            (session.reset.1.machine.memory address)) := by
  refine ⟨session.program.imageChecked_eq, Program.image_eq_error_iff, ?_⟩
  intro inside
  have fits : session.program.high ≤ Memory.size := (session.program.high_le_iff _).mpr inside
  have supplied (address : Fin 4096) : Program.Supplies session.program.codes address
      (session.reset.1.machine.memory address) := by
    rw [reset_of_fits fits]
    exact Program.supplies_byteAt session.program.codes address
  by_cases empty : session.program.codes = []
  · have known := Program.image_of_no_words empty
    exact ⟨_, known, fun _ => rfl, fun nonempty => absurd empty nonempty, reset_of_image known,
      supplied⟩
  · obtain ⟨image, known, shows⟩ := Program.exists_image_shows empty fits
    exact ⟨image, known, fun wordless => absurd wordless empty, fun _ => shows,
      reset_of_image known, supplied⟩

/-- Four statements out of order, one of them empty: a word at an address of more than sixteen bits,
two from a negative address on, and one that lies across two others. The session has run before. -/
theorem loads_any_words_crossing :
    let program : Program :=
      ⟨[{ line := 1, address := 0x10014, codes := [0x1122] },
        { line := 2, address := 0x300, codes := [] },
        { line := 3, address := 0x10 - 0x10000, codes := [0x3344, 0x5566] },
        { line := 4, address := 0x13, codes := [0x7788] }]⟩
    let image : Image := ⟨0x10, [0x33, 0x44, 0x55, 0x77, 0x88, 0x22]⟩
    let session : Session := { program, machine := { counter := 7, ticks := 3 } }
    program.codes = [(0x14, 0x1122), (0x10, 0x3344), (0x12, 0x5566), (0x13, 0x7788)] ∧
    program.image = .ok image ∧ program.Shows image ∧
    session.reset.2 = none ∧ session.reset.1.machine.counter = 0x14 ∧
    ∀ address : Fin 4096,
      Program.Supplies program.codes address (session.reset.1.machine.memory address) := by
  intro program image session
  have codes : program.codes =
      [(0x14, 0x1122), (0x10, 0x3344), (0x12, 0x5566), (0x13, 0x7788)] := by decide
  have inside : ∀ placed ∈ program.codes, placed.1.toNat + 2 ≤ 0x1000 := by
    intro placed member
    simp only [codes, List.mem_cons, List.not_mem_nil, or_false] at member
    rcases member with rfl | rfl | rfl | rfl <;> decide
  have pictured : program.image = .ok image := by decide +kernel
  obtain ⟨found, known, _, shows, reset, supplied⟩ := (loads_any_words session).2.2 inside
  cases pictured.symm.trans known
  refine ⟨codes, pictured, shows (by rw [codes]; exact List.cons_ne_nil _ _),
    congrArg Prod.snd reset, ?_, supplied⟩
  rw [reset]
  rfl

end Session

/-! ### Programs of images -/

namespace Program

section

variable (origin : UInt16)

/-- Every second byte of an image begins a word, at the address of the byte cut down to sixteen
bits. -/
theorem mem_disassembleFrom (offset : Nat) {bytes : List UInt8} (index : Nat)
    (inside : 2 * index < bytes.length) :
    ∃ word, (Statement.truncate (origin.toNat + (offset + 2 * index : Nat)), word) ∈
      (disassembleFrom origin offset bytes).flatMap Statement.placed := by
  fun_induction disassembleFrom origin offset bytes generalizing index with
  | case1 offset => exact absurd inside (Nat.not_lt_zero _)
  | case2 offset high =>
      rw [List.length_singleton] at inside
      obtain rfl : index = 0 := by omega
      rw [List.flatMap_singleton, placed_one]
      exact ⟨_, List.mem_singleton_self _⟩
  | case3 offset high low rest ih =>
      rw [List.length_cons, List.length_cons] at inside
      rw [List.flatMap_cons, placed_one]
      cases index with
      | zero => exact ⟨_, List.mem_cons_self⟩
      | succ index =>
          obtain ⟨word, member⟩ := ih index (by omega)
          refine ⟨word, List.mem_cons_of_mem _ ?_⟩
          rwa [show offset + 2 * (index + 1) = offset + 2 + 2 * index by omega]

end

theorem exists_placed_disassemble (image : Image) (index : Nat)
    (inside : 2 * index < image.bytes.length)
    (small : image.origin.toNat + 2 * index < 65536) :
    ∃ placed ∈ (disassemble image).codes,
      placed.1.toNat = image.origin.toNat + 2 * index := by
  obtain ⟨word, member⟩ := mem_disassembleFrom image.origin 0 index inside
  refine ⟨_, member, ?_⟩
  rw [Nat.zero_add]
  exact toNat_truncate_add image.origin small

/-- The program of an image that does not fit has a word that reaches out of memory. Its words may
go on past the last address of sixteen bits and begin again at zero, but not without one that stands
behind the memory. -/
theorem high_disassemble_gt {image : Image} (nonempty : image.bytes ≠ [])
    (large : Memory.size < image.origin.toNat + image.bytes.length + image.bytes.length % 2) :
    Memory.size < (disassemble image).high := by
  have positive := List.length_pos_iff.mpr nonempty
  have origin := image.origin.toNat_lt
  change 4096 < _ at large
  obtain ⟨placed, member, place⟩ := exists_placed_disassemble image
    ((4096 - image.origin.toNat) / 2) (by omega) (by omega)
  have reached := le_high member
  change 4096 < _
  omega

/-- The image of the program of an image: the same bytes, and a zero behind an odd last one. -/
theorem image_disassemble {image : Image} (nonempty : image.bytes ≠ [])
    (room : image.origin.toNat + image.bytes.length + image.bytes.length % 2 ≤ Memory.size) :
    (disassemble image).image =
      .ok ⟨image.origin, image.bytes ++ List.replicate (image.bytes.length % 2) 0⟩ := by
  have positive := List.length_pos_iff.mpr nonempty
  have fits : image.origin.toNat + image.bytes.length + image.bytes.length % 2 ≤ 4096 := room
  have small : image.origin.toNat + 0 + image.bytes.length + image.bytes.length % 2 ≤ 65536 := by
    omega
  have bounds := placed_disassembleFrom image.origin small
  have low : (disassemble image).low = image.origin.toNat := by
    refine low_eq (show _ ≤ 4096 by omega) (fun placed member => (bounds placed member).1) ?_
    exact exists_placed_disassemble image 0 (by omega) (by omega)
  have high : (disassemble image).high =
      image.origin.toNat + image.bytes.length + image.bytes.length % 2 := by
    refine high_eq (fun placed member => (bounds placed member).2) ?_
    obtain ⟨placed, member, place⟩ := exists_placed_disassemble image
      ((image.bytes.length - 1) / 2) (by omega) (by omega)
    exact ⟨placed, member, by omega⟩
  obtain ⟨shown, known, origin, length, content⟩ :=
    @image_of_fits (disassemble image) (by omega) (high_disassemble_le room)
  have same : shown.origin = image.origin := UInt16.toNat_inj.mp (origin.trans low)
  have bytes : shown.bytes = image.bytes ++ List.replicate (image.bytes.length % 2) 0 := by
    apply List.ext_getElem?
    intro index
    have supplied : byteAt (disassemble image).codes (image.origin.toNat + index) 0 =
        (image.bytes[index]?).getD 0 := byteAt_disassembleFrom image.origin small index
    by_cases inside : index < shown.bytes.length
    · rw [content index inside, low, supplied]
      by_cases within : index < image.bytes.length
      · rw [List.getElem?_append_left within, List.getElem?_eq_getElem within]
        rfl
      · rw [List.getElem?_append_right (Nat.le_of_not_lt within), List.getElem?_replicate,
          if_pos (by omega), List.getElem?_eq_none (Nat.le_of_not_lt within)]
        rfl
    · rw [List.getElem?_eq_none (Nat.le_of_not_lt inside), List.getElem?_eq_none]
      rw [List.length_append, List.length_replicate]
      omega
  rw [known, ← same, ← bytes]

end Program

namespace Session

/-- Loading an image through its program. A reset with the program of an image that is not empty
succeeds exactly if the image fits, with a byte more where its length is odd. Then what is written
is the image and at most one zero behind it, and the machine is that of a cleared one which has
loaded the image. Otherwise the failure is that of the size of the program, and the machine is
cleared. -/
theorem loads_disassembled (session : Session) (image : Image) (nonempty : image.bytes ≠ []) :
    let program := Program.disassemble image
    let reset := { session with program }.reset
    let room := image.origin.toNat + image.bytes.length + image.bytes.length % 2 ≤ 0x1000
    (reset.2 = none ↔ room) ∧
    (room →
      program.image =
        .ok ⟨image.origin, image.bytes ++ List.replicate (image.bytes.length % 2) 0⟩ ∧
      (session.machine.act .reset).load image.origin image.bytes = .ok reset.1.machine ∧
      reset.1.machine =
        { Machine.initial with
          memory := Memory.zero.write image.origin.toNat image.bytes.toArray
          counter := image.origin }) ∧
    (¬ room → reset.2 = some (.plain .programSize) ∧ reset.1.machine = Machine.initial) ∧
    reset.2 ≠ some (.plain .imageSize) ∧
    ∀ address : Fin 4096,
      address.val < image.origin.toNat ∨
        image.origin.toNat + image.bytes.length ≤ address.val →
      reset.1.machine.memory address = 0 := by
  intro program reset room
  by_cases fits : room
  · have loaded : reset = ({ session with program }.advanced
        { Machine.initial with
          memory := Memory.zero.write image.origin.toNat image.bytes.toArray
          counter := image.origin }, none) := by
      have start : program.loaded =
          { Machine.initial with
            memory := Memory.zero.write image.origin.toNat image.bytes.toArray
            counter := image.origin } := by
        unfold Program.loaded
        rw [Program.memory_disassemble fits, Program.entry_disassemble nonempty]
      rw [← start]
      exact reset_of_fits (Program.high_disassemble_le fits)
    rw [loaded]
    refine ⟨iff_of_true rfl fits, fun _ => ⟨Program.image_disassemble nonempty fits, ?_, rfl⟩,
      fun large => absurd fits large, by rintro ⟨⟩, ?_⟩
    · have within : ¬ image.origin.toNat + image.bytes.length > Memory.size :=
        Nat.not_lt.mpr (Nat.le_trans (Nat.le_add_right _ _) fits)
      exact if_neg within
    · intro address outside
      change Memory.zero.write image.origin.toNat image.bytes.toArray address = 0
      rw [Memory.write_apply]
      rcases outside with below | behind
      · rw [if_pos below]
        rfl
      · rw [if_neg (by omega), List.getElem?_eq_none (by omega)]
        rfl
  · have refused : reset = ({ session with program }.advanced Machine.initial,
        some (.plain .programSize)) :=
      reset_of_large (Program.high_disassemble_gt nonempty (Nat.lt_of_not_le fits))
    rw [refused]
    exact ⟨iff_of_false (by rintro ⟨⟩) fits, fun inside => absurd inside fits,
      fun _ => ⟨rfl, rfl⟩, by rintro ⟨⟩, fun _ _ => rfl⟩

/-- Three bytes that end one byte before the end of memory, and three that end with it, loaded by a
session that has run before. -/
theorem loads_disassembled_last_byte :
    let session : Session := { machine := { counter := 7, ticks := 3 } }
    { session with program := Program.disassemble ⟨0xFFC, [0x61, 0x22, 0x33]⟩ }.reset.2 = none ∧
    { session with program := Program.disassemble ⟨0xFFD, [0x61, 0x22, 0x33]⟩ }.reset.2 =
      some (.plain .programSize) := by
  intro session
  have fitting := (loads_disassembled session ⟨0xFFC, [0x61, 0x22, 0x33]⟩ (by decide)).1
  have crossing := (loads_disassembled session ⟨0xFFD, [0x61, 0x22, 0x33]⟩ (by decide)).2.2.1
  exact ⟨fitting.mpr (by decide), (crossing (by decide)).1⟩

end Session

end Nibble
