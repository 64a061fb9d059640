import Nibble.Proofs.Machine.Fault
import Nibble.Session

set_option autoImplicit false

/-! Runs of a session. A session ticks its machine and looks up the source line before every tick,
while the machine alone knows nothing of lines. The two stay in step: both runs go through the same
machines, end at the same tick, and differ in the line that the session puts around a fault. -/

namespace Nibble

/-! ### The line of an address -/

def Statement.Spans (statement : Statement) (address : UInt16) : Prop :=
  statement.address ≤ address.toNat ∧
    address.toNat < statement.address + 2 * (statement.codes.length : Int)

theorem Statement.covers_iff (statement : Statement) (address : UInt16) :
    statement.covers address = true ↔ statement.Spans address := by
  unfold covers Spans limit
  rw [Bool.and_eq_true, decide_eq_true_iff, decide_eq_true_iff]

namespace Program

/-- The source line of an address: that of the first statement in whose range it lies, and zero
where there is no such statement. -/
inductive LineOf (program : Program) (address : UInt16) : Int → Prop where
  | first (earlier : List Statement) (statement : Statement) (later : List Statement)
      (split : program.statements = earlier ++ statement :: later)
      (inside : statement.Spans address)
      (unreached : ∀ other ∈ earlier, ¬ other.Spans address) :
      LineOf program address statement.line
  | nowhere (outside : ∀ statement ∈ program.statements, ¬ statement.Spans address) :
      LineOf program address 0

def lineAt (program : Program) (address : UInt16) : Int :=
  match program.locate? address with
  | some statement => statement.line
  | none => 0

theorem lineOf_lineAt (program : Program) (address : UInt16) :
    program.LineOf address (program.lineAt address) := by
  unfold lineAt
  cases located : program.locate? address with
  | none =>
      apply LineOf.nowhere
      intro statement present
      rw [← statement.covers_iff]
      exact List.find?_eq_none.mp located statement present
  | some statement =>
      obtain ⟨inside, earlier, later, split, unreached⟩ :=
        List.find?_eq_some_iff_append.mp located
      refine .first earlier statement later split ((statement.covers_iff address).mp inside) ?_
      intro other member spans
      have missed := unreached other member
      rw [(other.covers_iff address).mpr spans] at missed
      cases missed

/-- A failure of the machine with the source line of the instruction around it. -/
def attributed (program : Program) : Failure → Failure
  | .executing address word cause =>
      .running (program.lineAt address) (.executing address word cause)
  | failure => failure

end Program

/-! ### One tick -/

namespace Session

def advanced (session : Session) (machine : Machine) : Session :=
  { session with machine, tracing := session.verbose }

@[simp] theorem machine_advanced (session : Session) (machine : Machine) :
    (session.advanced machine).machine = machine := rfl

theorem tick_of_running {session : Session} {after : Machine}
    (ticked : session.machine.tick = (after, .running)) :
    session.tick = (session.advanced after, .running) := by
  simp only [tick, ticked]
  rfl

theorem tick_of_halted {session : Session} {after : Machine}
    (ticked : session.machine.tick = (after, .halted)) :
    session.tick = (session.advanced after, .halted) := by
  simp only [tick, ticked]
  rfl

/-- The program counter has moved on when the fault is seen, but the fault names the address where
the tick began, which is the address of the line that the session has looked up. -/
theorem tick_of_fault {session : Session} {after : Machine} {failure : Failure}
    (ticked : session.machine.tick = (after, .fault failure)) :
    session.tick = (session.advanced after, .fault (session.program.attributed failure)) := by
  obtain ⟨word, reason, rfl, _⟩ := Machine.exists_diagnosis ticked
  simp only [tick, ticked]
  rfl

/-! ### Whole runs -/

theorem run_eq (session : Session) :
    session.run =
      match session.tick with
      | (after, .running) => after.run
      | (after, .halted) => (after, none)
      | (after, .fault failure) => (after, some failure) := by
  rw [run]
  split
  · next found => simp only [found]
  · next found => simp only [found]
  · next found => simp only [found]

/-- The run of a session is that of its machine, with a line around the failure. -/
theorem run_eq_machine_run (session : Session) :
    session.run =
      (session.advanced session.machine.run.1,
        session.machine.run.2.map session.program.attributed) := by
  -- Both runs are taken by their first tick, which leaves them with the same machine.
  induction same : session.machine using Machine.run_induction generalizing session with
  | step machine ih =>
      subst same
      rw [run_eq, Machine.run_eq]
      cases ticked : session.machine.tick with
      | mk after signal =>
          cases signal with
          | running =>
              rw [tick_of_running ticked]
              exact ih after ticked (session.advanced after) rfl
          | halted =>
              rw [tick_of_halted ticked]
              rfl
          | fault failure =>
              rw [tick_of_fault ticked]
              rfl

theorem run_advanced (session : Session) (machine : Machine) :
    (session.advanced machine).run =
      (session.advanced machine.run.1, machine.run.2.map session.program.attributed) :=
  run_eq_machine_run (session.advanced machine)

/-- The run of a session and that of its machine alone agree: they end without a failure for the
same machines and with the same machine. A failure of the machine is one of an instruction at an
address, and the session reports that failure around the line of the address. -/
theorem run_agrees (session : Session) :
    (session.run.2 = none ↔ session.machine.run.2 = none) ∧
    session.run.1.machine = session.machine.run.1 ∧
    ∀ failure, session.machine.run.2 = some failure →
      ∃ address word cause line, failure = .executing address word cause ∧
        session.program.LineOf address line ∧ session.run.2 = some (.running line failure) := by
  rw [run_eq_machine_run]
  refine ⟨Option.map_eq_none_iff, rfl, ?_⟩
  intro failure failed
  obtain ⟨address, word, reason, rfl⟩ := Machine.executing_of_run failed
  refine ⟨address, word, _, _, rfl, session.program.lineOf_lineAt address, ?_⟩
  rw [failed]
  rfl

end Session

end Nibble
