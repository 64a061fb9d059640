import Nibble.Proofs.Session.Reset
import Nibble.Standard

set_option autoImplicit false

/-! What a session shows of its machine. The word and the line at the program counter are taken from
the program, while the machine takes its word from the memory. No tick changes the memory, so that
behind a reset the two agree for good, wherever the program counter does not divide a word. -/

namespace Nibble

open Text (ascii)

namespace Machine

/-- What a tick comes to when it has fetched a word. -/
def carryOut (machine : Machine) (word : Word) : Machine × Signal :=
  match machine.skip.execute word.decode with
  | .ok after => ({ after with ticks := after.ticks + 1 }, .running)
  | .error failure =>
      if failure = .plain .halt then
        ({ machine.skip with ticks := machine.skip.ticks + 1 }, .halted)
      else (machine.skip, .fault (.executing machine.counter word failure))

theorem tick_of_fetch {machine : Machine} {word : Word} (fetched : machine.fetch = .ok word) :
    machine.tick = machine.carryOut word := by
  cases executed : machine.skip.execute word.decode with
  | ok after => simp only [tick, carryOut, fetched, executed]
  | error failure => simp only [tick, carryOut, fetched, executed]

end Machine

namespace Program

theorem high_le_of_laidOut {program : Program} (laid : LaidOut 4096 program.statements) :
    program.high ≤ Memory.size := by
  rw [high_le_iff]
  intro placed member
  obtain ⟨statement, present, _, _, _, ends⟩ := laid.placed_of_mem member
  have inside := (laid.inside statement present).2
  change _ ≤ 4096
  omega

/-! ### The statement at an address -/

/-- An address inside a word, at its second byte. -/
def Divides (program : Program) (address : UInt16) : Prop :=
  ∃ statement ∈ program.statements, statement.Spans address ∧
    (address.toNat - statement.address) % 2 = 1

instance decidableDivides (program : Program) (address : UInt16) :
    Decidable (program.Divides address) :=
  inferInstanceAs (Decidable (∃ statement ∈ program.statements,
    (statement.address ≤ address.toNat ∧
      address.toNat < statement.address + 2 * (statement.codes.length : Int)) ∧
    (address.toNat - statement.address) % 2 = 1))

/-- The line of an address where no two statements have an address in common: that of the one
statement there, or zero where there is none. -/
inductive SoleLine (program : Program) (address : UInt16) : Int → Prop where
  | only (before : List Statement) (statement : Statement) (after : List Statement)
      (split : program.statements = before ++ statement :: after)
      (inside : statement.Spans address)
      (others : ∀ other ∈ before ++ after, ¬ other.Spans address) :
      SoleLine program address statement.line
  | nowhere (outside : ∀ statement ∈ program.statements, ¬ statement.Spans address) :
      SoleLine program address 0

theorem soleLine_of_laidOut {program : Program} {bound : Int}
    (laid : LaidOut bound program.statements) (address : UInt16) :
    program.SoleLine address (program.lineAt address) := by
  have line := program.lineOf_lineAt address
  generalize program.lineAt address = number at line
  cases line with
  | nowhere outside => exact .nowhere outside
  | first before statement after split inside unreached =>
      refine .only before statement after split inside ?_
      intro other member
      rcases List.mem_append.mp member with earlier | later
      · exact unreached other earlier
      · -- What stands behind the statement begins where it ends at the earliest.
        have ascending := laid.ascending
        rw [split] at ascending
        have behind := (List.pairwise_cons.mp (List.pairwise_append.mp ascending).2.1).1 other later
        intro spans
        have ends := inside.2
        have begins := spans.1
        rw [Statement.limit_eq] at behind
        omega

theorem locate?_eq_some {program : Program} {address : UInt16} {statement : Statement}
    (located : program.locate? address = some statement) :
    statement ∈ program.statements ∧ statement.Spans address := by
  unfold locate? at located
  have covered := List.find?_some located
  exact ⟨List.mem_of_find?_eq_some located, (statement.covers_iff address).mp covered⟩

end Program

namespace Session

/-! ### Ticks -/

def after (session : Session) : Nat → Session
  | 0 => session
  | count + 1 => (session.after count).tick.1

/-- Whether a session has a program, and the memory of its machine is that of the program. -/
structure Holds (session : Session) (program : Program) : Prop where
  listed : session.program = program
  stored : session.machine.memory = program.memory

theorem tick_fst (session : Session) :
    session.tick.1 = session.advanced session.machine.tick.1 := by
  unfold tick advanced
  rcases session.machine.tick with ⟨machine, _ | _ | failure⟩
  · rfl
  · rfl
  · rfl

theorem Holds.tick {session : Session} {program : Program} (holds : session.Holds program) :
    session.tick.1.Holds program := by
  rw [tick_fst]
  exact ⟨holds.listed, (Machine.memory_tick session.machine).trans holds.stored⟩

theorem Holds.after {session : Session} {program : Program} (holds : session.Holds program)
    (count : Nat) : (session.after count).Holds program := by
  induction count with
  | zero => exact holds
  | succ count ih => exact ih.tick

theorem holds_reset {session : Session} (fits : session.program.high ≤ Memory.size) :
    session.reset.1.Holds session.program := by
  rw [reset_of_fits fits]
  exact ⟨rfl, rfl⟩

/-! ### Word and line -/

theorem fetch_of_word {session : Session} {program : Program} (holds : session.Holds program)
    (laid : LaidOut 4096 program.statements) {statement : Statement}
    (present : statement ∈ program.statements) {index : Nat} {word : Word}
    (found : statement.codes[index]? = some word)
    (place : (session.machine.counter.toNat : Int) = statement.address + 2 * index) :
    session.machine.fetch = .ok word := by
  have within := (List.getElem?_eq_some_iff.mp found).1
  have ends := statement.limit_eq
  have inside := (laid.inside statement present).2
  obtain ⟨high, low⟩ := laid.byteAt_code present found session.machine.counter.toNat place
  have byte (address : Nat) (small : address < 4096) :
      session.machine.memory.byte address = Program.byteAt program.codes address 0 := by
    unfold Memory.byte
    rw [dif_pos small, holds.stored]
    rfl
  have room : session.machine.counter.toNat + 1 < Memory.size := by
    change _ < 4096
    omega
  unfold Machine.fetch
  rw [if_pos room, byte _ (by omega), byte _ (by omega), high, low, Word.ofBytes_high_low]

/-- Where no word is divided, a session shows the word that its machine fetches, and zero where it
can fetch none. -/
theorem code_eq_fetch {session : Session} {program : Program} (holds : session.Holds program)
    (laid : LaidOut 4096 program.statements)
    (whole : ¬ program.Divides session.machine.counter) :
    session.code = session.machine.fetch.toOption.getD 0 := by
  unfold code
  rw [holds.listed]
  cases located : program.locate? session.machine.counter with
  | none =>
      dsimp only
      cases session.machine.fetch with
      | ok word => rfl
      | error failure => rfl
  | some statement =>
      obtain ⟨present, spans⟩ := Program.locate?_eq_some located
      obtain ⟨begins, ends⟩ := spans
      have even : ((session.machine.counter.toNat : Int) - statement.address) % 2 ≠ 1 :=
        fun odd => whole ⟨statement, present, ⟨begins, ends⟩, odd⟩
      have place : (session.machine.counter.toNat : Int) =
          statement.address + 2 * statement.indexAt session.machine.counter := by
        unfold Statement.indexAt
        omega
      have within : statement.indexAt session.machine.counter < statement.codes.length := by omega
      have fetched := fetch_of_word holds laid present (List.getElem?_eq_getElem within) place
      dsimp only
      rw [fetched, List.getD_eq_getElem?_getD, List.getElem?_eq_getElem within]
      rfl

/-- What a session shows is what its machine does. An accepted source is loaded by a reset without a
failure, and after any number of ticks, whatever they came to: where the program counter divides no
word of the program, the word that the session shows is the one in memory, which the next tick
carries out, and zero where that tick can fetch none; and the line that it shows is that of the one
statement at the program counter, and zero where there is none. -/
theorem view_agrees [Evaluator] {assembler : Assembler} {text : Text} {program : Program}
    (accepted : (assembler.parse text).2 = .ok program) {session : Session}
    (listed : session.program = program) (count : Nat) :
    session.reset.2 = none ∧
    let current := session.reset.1.after count
    (¬ program.Divides current.machine.counter →
      current.code = current.machine.fetch.toOption.getD 0 ∧
      (current.machine.counter.toNat ≤ 0xFFE →
        current.machine.tick = current.machine.carryOut current.code)) ∧
    program.SoleLine current.machine.counter current.line := by
  subst listed
  have laid := laidOut_of_parse accepted
  have fits := Program.high_le_of_laidOut laid
  have holds := (holds_reset fits).after count
  refine ⟨?_, ?_, ?_⟩
  · rw [reset_of_fits fits]
  · intro whole
    have shown := code_eq_fetch holds laid whole
    refine ⟨shown, ?_⟩
    intro inside
    rcases Machine.fetch_cases (session.reset.1.after count).machine with
      ⟨_, fetched⟩ | ⟨beyond, _⟩
    · rw [fetched] at shown
      rw [Machine.tick_of_fetch fetched, shown]
      rfl
    · omega
  · have line := Program.soleLine_of_laidOut laid (session.reset.1.after count).machine.counter
    unfold Session.line
    rw [holds.listed]
    exact line

open Standard

/-- Two words at an odd address with a gap behind them: after one tick the program counter is at the
second word of the statement, and after two ticks in the gap. -/
theorem view_agrees_second_word :
    let source := ascii ".org 0x15\n.word 0x6103 0x6204\n.org 0x1b\nhalt"
    let program : Program :=
      ⟨[{ line := 2, address := 0x15, words := [ascii ".word", ascii "0x6103", ascii "0x6204"],
          codes := [0x6103, 0x6204] },
        { line := 4, address := 0x1b, words := [ascii "halt"], codes := [0] }]⟩
    let session : Session := { program, machine := { counter := 7, ticks := 3 } }
    (Assembler.parse {} source).2 = .ok program ∧
    (session.reset.1.after 1).machine.counter = 0x17 ∧ (session.reset.1.after 1).code = 0x6204 ∧
    (session.reset.1.after 1).machine.tick =
      (session.reset.1.after 1).machine.carryOut (session.reset.1.after 1).code ∧
    program.SoleLine (session.reset.1.after 1).machine.counter (session.reset.1.after 1).line ∧
    (session.reset.1.after 2).machine.counter = 0x19 ∧
    (session.reset.1.after 2).code =
      (session.reset.1.after 2).machine.fetch.toOption.getD 0 ∧
    program.SoleLine (session.reset.1.after 2).machine.counter (session.reset.1.after 2).line := by
  intro source program session
  have accepted : (Assembler.parse {} source).2 = .ok program := by decide +kernel
  have listed : session.program = program := rfl
  have place : (session.reset.1.after 1).machine.counter = 0x17 := by decide +kernel
  have gap : (session.reset.1.after 2).machine.counter = 0x19 := by decide +kernel
  have shown : (session.reset.1.after 1).code = 0x6204 := by decide +kernel
  obtain ⟨_, word, line⟩ := view_agrees accepted listed 1
  obtain ⟨_, unfetched, nowhere⟩ := view_agrees accepted listed 2
  have whole : ¬ program.Divides (session.reset.1.after 1).machine.counter := by
    rw [place]
    decide
  have outside : ¬ program.Divides (session.reset.1.after 2).machine.counter := by
    rw [gap]
    decide
  have inside : (session.reset.1.after 1).machine.counter.toNat ≤ 0xFFE := by
    rw [place]
    decide
  exact ⟨accepted, place, shown, (word whole).2 inside, line, gap, (unfetched outside).1, nowhere⟩

end Session

end Nibble
