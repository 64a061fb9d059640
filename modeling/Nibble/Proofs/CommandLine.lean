import Nibble.CommandLine
import Nibble.Proofs.Session.Reset
import Nibble.Standard

set_option autoImplicit false

/-! Running a source and running its image. An assembled program and the program of its image start
from the same machine, so their sessions run alike but for the source lines, and the command line
prints and returns the same for both. -/

namespace Nibble

open Text (ascii)

namespace Session

/-- Two sessions whose machines agree run alike: neither fails, or both report the same failure of
an instruction, each around a line of its own. -/
theorem run_of_same_machine {one other : Session} (same : one.machine = other.machine) :
    one.run.1.machine = other.run.1.machine ∧
      (one.run.2 = none ∧ other.run.2 = none ∨
        ∃ line otherLine address word cause,
          one.run.2 = some (.running line (.executing address word cause)) ∧
          other.run.2 = some (.running otherLine (.executing address word cause))) := by
  rw [run_eq_machine_run, run_eq_machine_run, same]
  refine ⟨rfl, ?_⟩
  dsimp only
  cases ended : other.machine.run.2 with
  | none => exact .inl ⟨rfl, rfl⟩
  | some failure =>
      obtain ⟨address, word, reason, rfl⟩ := Machine.executing_of_run ended
      exact .inr ⟨_, _, address, word, _, rfl, rfl⟩

end Session

namespace CommandLine

/-! ### What is asked for -/

/-- The arguments ask to assemble the source with this name and to run it. -/
def Compiles (arguments : List Text) (name : Text) : Prop :=
  ∃ chosen, options arguments = .ok chosen ∧ chosen.listing = false ∧
    chosen.compile = name ∧ name ≠ []

/-- The arguments ask to run the image with this name at this origin. -/
def Loads (arguments : List Text) (name : Text) (origin : Nat) : Prop :=
  ∃ chosen, options arguments = .ok chosen ∧ chosen.listing = false ∧ chosen.compile = [] ∧
    chosen.binary = name ∧ name ≠ [] ∧ chosen.origin = origin

theorem options_of_parse {arguments : List Text} {chosen : Options}
    (flags : parse {} arguments = .ok (chosen, []))
    (single : chosen.compile = [] ∨ chosen.binary = []) (inside : chosen.origin < Memory.size) :
    options arguments = .ok chosen := by
  have exclusive : (!chosen.compile.isEmpty && !chosen.binary.isEmpty) = false := by
    rcases single with unnamed | unnamed
    · rw [unnamed]
      rfl
    · rw [unnamed]
      exact Bool.and_false _
  unfold options
  rw [flags]
  dsimp only
  rw [if_neg (by decide), exclusive, if_neg (by decide), if_neg (Nat.not_le.mpr inside)]

theorem compiles_flag {name : Text} (named : name ≠ []) : Compiles [ascii "-c", name] name := by
  have flags : parse {} [ascii "-c", name] = .ok ({ compile := name }, []) := rfl
  exact ⟨_, options_of_parse flags (.inr rfl) (show 0x200 < Memory.size by decide), rfl, rfl, named⟩

theorem parse_origin {chosen changed : Options} {value : Text}
    (known : setValue chosen .origin (ascii "o") value = .ok changed) :
    parse chosen [ascii "-o", value] = .ok (changed, []) := by
  have text : flagText? (ascii "-o") = some (ascii "o") := by decide
  have split : splitValue (ascii "o") = (ascii "o", none) := by decide
  have flag : Flag.table.lookup (ascii "o") = some .origin := by decide
  rw [parse, text]
  dsimp only
  rw [if_neg (by decide), if_neg (by decide), split]
  dsimp only
  rw [flag]
  dsimp only
  rw [if_neg (by decide), known]
  rfl

theorem loads_flags {name : Text} (named : name ≠ []) {origin : Nat}
    (inside : origin < Memory.size) :
    Loads [ascii "-b", name, ascii "-o", Numeral.hexLiteral 0 origin] name origin := by
  have read : Number.unsigned 0xFFFFFFFFFFFFFFFF (Numeral.hexLiteral 0 origin) = .ok origin :=
    Number.unsigned_hexLiteral 0 (Nat.le_trans (Nat.le_of_lt inside) (by decide))
  have value : setValue { binary := name } .origin (ascii "o") (Numeral.hexLiteral 0 origin) =
      .ok { binary := name, origin } := by
    unfold setValue
    dsimp only
    rw [read]
  have flags : parse {} [ascii "-b", name, ascii "-o", Numeral.hexLiteral 0 origin] =
      .ok ({ binary := name, origin }, []) := parse_origin value
  exact ⟨_, options_of_parse flags (.inl rfl) inside, rfl, rfl, rfl, named, rfl⟩

/-! ### What is printed -/

/-- What a response to running a program from a machine has to show: the state of the machine if it
halts, and nothing but the exit code if it fails. -/
structure Answers (machine : Machine) (response : Response) : Prop where
  exit : response.exit = machine.run.2.elim 0 fun _ => 1
  output : response.output = machine.run.2.elim machine.run.1.report fun _ => []

theorem execute_of_run [Locale] {session ready after : Session} {outcome : Option Failure}
    {report : Failure → Failure} (reset : session.reset = (ready, none))
    (ran : ready.run = (after, outcome.map report)) :
    (execute session).exit = (outcome.elim 0 fun _ => 1) ∧
      (execute session).output = outcome.elim after.machine.report fun _ => [] := by
  unfold execute
  rw [reset]
  dsimp only
  rw [ran]
  cases outcome with
  | none => exact ⟨rfl, rfl⟩
  | some failure => exact ⟨rfl, rfl⟩

theorem answers_execute [Locale] (session : Session) (fits : session.program.high ≤ Memory.size) :
    Answers session.program.loaded (execute session) := by
  have ran := execute_of_run (Session.reset_of_fits fits) (session.run_advanced _)
  rw [Session.machine_advanced] at ran
  exact ⟨ran.1, ran.2⟩

/-- A program that is found and not listed is executed. -/
theorem answers_respond [Locale] [Evaluator] {arguments : List Text} {chosen : Options}
    {program : Program} {logged : Text} {read : Text → Except FileFault Text}
    (known : options arguments = .ok chosen) (unlisted : chosen.listing = false)
    (found : CommandLine.program chosen read = .ok (program, logged))
    (fits : program.high ≤ Memory.size) :
    Answers program.loaded (respond arguments read) := by
  let session : Session := { program, verbose := chosen.verbose }
  have executed : Answers program.loaded (execute session) := answers_execute session fits
  have response : respond arguments read =
      { execute session with errors := logged ++ (execute session).errors } := by
    unfold respond
    rw [known]
    dsimp only
    rw [found]
    dsimp only
    rw [unlisted]
    rfl
  rw [response]
  exact ⟨executed.exit, executed.output⟩

theorem answers_of_compiles [Locale] [Evaluator] {arguments : List Text} {name source : Text}
    {program : Program} {read : Text → Except FileFault Text} (asked : Compiles arguments name)
    (readable : read name = .ok source)
    (accepted : ((Assembler.predefineAll {} Session.definitions).parse source).2 = .ok program)
    (fits : program.high ≤ Memory.size) : Answers program.loaded (respond arguments read) := by
  obtain ⟨chosen, known, unlisted, rfl, named⟩ := asked
  have nonempty : (!chosen.compile.isEmpty) = true := by
    rw [List.isEmpty_eq_false_iff.mpr named]
    rfl
  obtain ⟨logged, found⟩ :
      ∃ logged, CommandLine.program chosen read = .ok (program, logged) := by
    unfold CommandLine.program
    rw [if_pos nonempty, readable]
    dsimp only
    rw [accepted]
    exact ⟨_, rfl⟩
  exact answers_respond known unlisted found fits

theorem answers_of_loads [Locale] [Evaluator] {arguments : List Text} {name : Text} {image : Image}
    {read : Text → Except FileFault Text} (asked : Loads arguments name image.origin.toNat)
    (readable : read name = .ok image.bytes)
    (fits : (Program.disassemble image).high ≤ Memory.size) :
    Answers (Program.disassemble image).loaded (respond arguments read) := by
  obtain ⟨chosen, known, unlisted, uncompiled, rfl, named, origin⟩ := asked
  have nonempty : (!chosen.binary.isEmpty) = true := by
    rw [List.isEmpty_eq_false_iff.mpr named]
    rfl
  have found : CommandLine.program chosen read = .ok (Program.disassemble image, []) := by
    unfold CommandLine.program
    rw [uncompiled, if_neg (by decide), if_pos nonempty, readable, origin, UInt16.ofNat_toNat]
  exact answers_respond known unlisted found fits

/-! ### Sources and their images -/

/-- Every accepted source has an image, and where the image and its padding fit into memory the
assembled program and the program of its image run alike. Whatever the sessions did that hold them,
both resets succeed and leave equal machines; the runs end with equal machines, and both without a
failure or both with the same failure of an instruction around a source line. So the command line,
given the source or given the image with its origin, prints the same to the standard output and
returns the same exit code. -/
theorem source_runs_as_image [Locale] [Evaluator] {assembler : Assembler} {source : Text}
    {program : Program} (accepted : (assembler.parse source).2 = .ok program) :
    ∃ image : Image, program.image = .ok image ∧
    (image.origin.toNat + image.bytes.length + image.bytes.length % 2 ≤ Memory.size →
    (∀ one other : Session, one.program = program → other.program = Program.disassemble image →
      one.reset.2 = none ∧ other.reset.2 = none ∧
      one.reset.1.machine = other.reset.1.machine ∧
      one.reset.1.run.1.machine = other.reset.1.run.1.machine ∧
      (one.reset.1.run.2 = none ∧ other.reset.1.run.2 = none ∨
        ∃ line otherLine address word cause,
          one.reset.1.run.2 = some (.running line (.executing address word cause)) ∧
          other.reset.1.run.2 = some (.running otherLine (.executing address word cause)))) ∧
    (assembler.predefines = (Assembler.predefineAll {} Session.definitions).predefines →
      ∀ (compiling loading : List Text) (name imageName : Text)
        (read : Text → Except FileFault Text),
        Compiles compiling name → Loads loading imageName image.origin.toNat →
        read name = .ok source → read imageName = .ok image.bytes →
        (respond compiling read).output = (respond loading read).output ∧
        (respond compiling read).exit = (respond loading read).exit)) := by
  have laid := laidOut_of_parse accepted
  obtain ⟨image, known, _⟩ := Program.exists_image_depicts laid
  refine ⟨image, known, ?_⟩
  intro room
  have same := Program.loaded_disassemble laid known room
  have fits : program.high ≤ Memory.size := by
    rw [Program.high_le_iff]
    intro placed member
    obtain ⟨statement, present, _, _, _, ends⟩ := laid.placed_of_mem member
    have inside := (laid.inside statement present).2
    change _ ≤ 4096
    omega
  have imageFits := Program.high_disassemble_le room
  constructor
  · intro one other holds otherHolds
    subst holds
    rw [Session.reset_of_fits fits, Session.reset_of_fits (by rw [otherHolds]; exact imageFits)]
    rw [otherHolds, same]
    generalize one.program.loaded = machine
    exact ⟨rfl, rfl, rfl, Session.run_of_same_machine rfl⟩
  · intro predefined compiling loading name imageName read asked otherAsked readable imageReadable
    have fresh :
        ((Assembler.predefineAll {} Session.definitions).parse source).2 = .ok program := by
      unfold Assembler.parse at accepted ⊢
      rw [← predefined]
      exact accepted
    have compiled := answers_of_compiles asked readable fresh fits
    have loaded := answers_of_loads otherAsked imageReadable imageFits
    rw [same] at loaded
    exact ⟨compiled.output.trans loaded.output.symm, compiled.exit.trans loaded.exit.symm⟩

open Standard

/-- A source that uses a defined name and leaves a gap before an odd address, so that its image has
an odd number of bytes; the run halts inside the gap. -/
theorem source_runs_as_image_odd_gap :
    let source := ascii ".org ORIGIN\nld v1 5\n.org 0x205\n.word 7"
    let image : Image := ⟨0x200, [0x61, 0x05, 0, 0, 0, 0, 7]⟩
    let files := Directory.ofFiles [(ascii "p.asm", source), (ascii "p.ch8", image.bytes)]
    let loading := [ascii "-b", ascii "p.ch8", ascii "-o", Numeral.hexLiteral 0 0x200]
    ∃ program,
      ((Assembler.predefineAll {} Session.definitions).parse source).2 = .ok program ∧
      program.image = .ok image ∧
      (∀ one other : Session, one.program = program → other.program = Program.disassemble image →
        one.reset.2 = none ∧ other.reset.2 = none ∧
        one.reset.1.machine = other.reset.1.machine ∧
        one.reset.1.run.1.machine = other.reset.1.run.1.machine) ∧
      (respond [ascii "-c", ascii "p.asm"] files.read).output =
        (respond loading files.read).output ∧
      (respond [ascii "-c", ascii "p.asm"] files.read).exit = (respond loading files.read).exit := by
  intro source image files loading
  let program : Program :=
    ⟨[{ line := 2, address := 0x200, words := [ascii "ld", ascii "v1", ascii "5"],
        codes := [0x6105] },
      { line := 4, address := 0x205, words := [ascii ".word", ascii "7"], codes := [7] }]⟩
  have accepted :
      ((Assembler.predefineAll {} Session.definitions).parse source).2 = .ok program := by
    decide +kernel
  have known : program.image = .ok image := by decide +kernel
  obtain ⟨found, depicted, alike⟩ := source_runs_as_image accepted
  obtain rfl : image = found := Except.ok.inj (known.symm.trans depicted)
  obtain ⟨sessions, commands⟩ := alike (by decide)
  refine ⟨program, accepted, known, ?_, ?_⟩
  · intro one other holds otherHolds
    obtain ⟨reset, otherReset, machines, final, _⟩ := sessions one other holds otherHolds
    exact ⟨reset, otherReset, machines, final⟩
  · exact commands rfl _ _ _ _ files.read (compiles_flag (by decide))
      (loads_flags (by decide) (by decide)) (by decide +kernel) (by decide +kernel)

end CommandLine

end Nibble
