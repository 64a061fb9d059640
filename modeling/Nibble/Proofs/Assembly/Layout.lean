import Nibble.Proofs.Assembly.Pass
import Nibble.Proofs.Program.Image
import Nibble.Standard

set_option autoImplicit false

/-! The layout of assembled programs. Every edit that is allowed keeps the statements one behind
the other below the location, so a source that is accepted gives a program whose statements do not
overlap and lie inside memory, whatever moves of the location and expansions it contains. -/

namespace Nibble

open Text (ascii)

namespace LaidOut

variable {bound further : Int} {statements : List Statement}

theorem mono (laid : LaidOut bound statements) (order : bound ≤ further) :
    LaidOut further statements where
  nonempty := laid.nonempty
  inside := fun statement present =>
    have inside := laid.inside statement present
    ⟨inside.1, Int.le_trans inside.2 order⟩
  ascending := laid.ascending

theorem concat (laid : LaidOut bound statements) {statement : Statement}
    (nonempty : statement.codes ≠ []) (place : statement.address = bound) (natural : 0 ≤ bound) :
    LaidOut statement.limit (statements ++ [statement]) := by
  have ends := statement.limit_eq
  refine ⟨?_, ?_, ?_⟩
  · intro member present
    rcases List.mem_append.mp present with before | last
    · exact laid.nonempty member before
    · rw [List.mem_singleton.mp last]
      exact nonempty
  · intro member present
    rcases List.mem_append.mp present with before | last
    · have inside := laid.inside member before
      omega
    · rw [List.mem_singleton.mp last]
      omega
  · rw [List.pairwise_append]
    refine ⟨laid.ascending, List.pairwise_singleton _ _, ?_⟩
    intro earlier before later last
    rw [List.mem_singleton.mp last, place]
    exact (laid.inside earlier before).2

theorem iff_places :
    LaidOut bound statements ↔
      (∀ place ∈ statements.map Statement.place,
        place.2 ≠ 0 ∧ 0 ≤ place.1 ∧ place.1 + 2 * place.2 ≤ bound) ∧
      (statements.map Statement.place).Pairwise fun earlier later =>
        earlier.1 + 2 * (earlier.2 : Int) ≤ later.1 := by
  rw [List.pairwise_map, List.forall_mem_map]
  constructor
  · intro laid
    refine ⟨fun statement present => ⟨?_, laid.inside statement present⟩, laid.ascending⟩
    exact fun empty => laid.nonempty statement present (List.length_eq_zero_iff.mp empty)
  · rintro ⟨each, ascending⟩
    refine ⟨fun statement present => ?_, fun statement present => (each statement present).2,
      ascending⟩
    intro empty
    exact (each statement present).1 (List.length_eq_zero_iff.mpr empty)

theorem link (laid : LaidOut bound statements) (labels : Table Nat) :
    LaidOut bound (Pass.link labels statements).1 := by
  rw [iff_places, Pass.places_link labels statements laid.nonempty, ← iff_places]
  exact laid

end LaidOut

namespace Assembly

theorem laidOut_apply {assembly : Assembly} {edit : Edit} (allowed : edit.Allowed assembly)
    (laid : LaidOut assembly.location assembly.statements) :
    LaidOut (edit.apply assembly).location (edit.apply assembly).statements := by
  cases edit with
  | equates table => exact laid
  | label name => exact laid
  | origin address => exact laid.mono (Int.ofNat_le.mpr allowed.1)
  | statement added =>
      have extended := laid.concat allowed.2.1 allowed.1 (Int.natCast_nonneg _)
      refine extended.mono ?_
      rw [added.limit_eq, allowed.1]
      change _ ≤ ((assembly.location + 2 * added.codes.length : Nat) : Int)
      omega

theorem laidOut_replay {assembly : Assembly} {edits : List Edit}
    (admitted : assembly.Admits edits) (laid : LaidOut assembly.location assembly.statements) :
    LaidOut (assembly.replay edits).location (assembly.replay edits).statements := by
  induction edits generalizing assembly with
  | nil => exact laid
  | cons edit rest ih => exact ih admitted.2 (laidOut_apply admitted.1 laid)

end Assembly

theorem laidOut_start (predefines : Table Text) :
    LaidOut (Pass.start predefines).assembly.location (Pass.start predefines).assembly.statements :=
  ⟨fun _ member => absurd member List.not_mem_nil,
    fun _ member => absurd member List.not_mem_nil, List.Pairwise.nil⟩

theorem laidOut_readAll [Evaluator] (predefines : Table Text) (lines : List Text) :
    LaidOut ((Pass.start predefines).readAll lines).1.assembly.location
      ((Pass.start predefines).readAll lines).1.assembly.statements := by
  have history := Pass.readAll_reflects (Pass.start predefines) lines
  have laid := Assembly.laidOut_replay history.admitted (laidOut_start predefines)
  rw [← history.replayed] at laid
  exact laid

theorem laidOut_of_parse [Evaluator] {assembler : Assembler} {text : Text} {program : Program}
    (accepted : (assembler.parse text).2 = .ok program) : LaidOut 4096 program.statements := by
  obtain ⟨pass, read, _, _, linked⟩ := Assembler.exists_read_of_parse accepted
  have history := Pass.readAll_reflects (Pass.start assembler.predefines) (Source.ofText text).lines
  have laid := laidOut_readAll assembler.predefines (Source.ofText text).lines
  rw [read] at history laid
  have bounded : pass.assembly.location ≤ 4096 := history.bounded rfl (Nat.zero_le _)
  have within := (laid.mono (Int.ofNat_le.mpr bounded)).link pass.assembly.labels
  rw [linked] at within
  exact within

/-- The layout of every accepted source: the statements are not empty and stand in ascending order
without overlap inside memory. So the program has an image, which begins at the first statement,
ends with the last, holds every word at its address, and is zero in between. -/
theorem parse_layout [Evaluator] {assembler : Assembler} {text : Text} {program : Program}
    (accepted : (assembler.parse text).2 = .ok program) :
    LaidOut Memory.size program.statements ∧
    program.statements.Pairwise (fun earlier later => earlier.address < later.address) ∧
    ∃ image, program.image = .ok image ∧ program.Depicts image := by
  have laid := laidOut_of_parse accepted
  refine ⟨laid, ?_, Program.exists_image_depicts laid⟩
  refine laid.ascending.imp_of_mem ?_
  intro earlier later present _ order
  exact Int.lt_of_lt_of_le (laid.address_lt_limit present) order

open Standard

/-- Two statements with a gap between them, the second of two words at an odd address. -/
theorem parse_layout_odd_gap :
    let source := ascii ".org 0x10\nhalt\n.org 0x15\n.word 1 2"
    ∃ program, (Assembler.parse {} source).2 = .ok program ∧
      program.statements.map Statement.place = [(16, 1), (21, 2)] ∧
      LaidOut Memory.size program.statements ∧
      program.statements.Pairwise (fun earlier later => earlier.address < later.address) ∧
      ∃ image, program.image = .ok image ∧ program.Depicts image := by
  intro source
  have accepted : (Assembler.parse {} source).2 =
      .ok ⟨[{ line := 2, address := 16, words := [ascii "halt"], codes := [0] },
            { line := 4, address := 21, words := [ascii ".word", ascii "1", ascii "2"],
              codes := [1, 2] }]⟩ := by
    decide +kernel
  exact ⟨_, accepted, rfl, parse_layout accepted⟩

end Nibble
