import Nibble.Machine.Report
import Nibble.Program.Basic

set_option autoImplicit false

/-! A session: a machine together with the program that it runs, so that an instruction can be
traced back to its source line. -/

namespace Nibble

open Text (ascii)

structure Session where
  machine : Machine := Machine.initial
  program : Program := {}
  verbose : Bool := false
  /-- Whether the machine logs; it takes over the session's choice at a reset or a tick. -/
  tracing : Bool := false

namespace Session

/-- The names that a session defines for sources: its own, then those of the machine. -/
def definitions : List (Text × Text) :=
  [(ascii "ORIGIN", ascii "0x200")] ++ Machine.definitions

def reset (session : Session) : Session × Option Failure :=
  let cleared := { session with machine := Machine.initial, tracing := session.verbose }
  match session.program.image with
  | .error failure => (cleared, some failure)
  | .ok image =>
      match Machine.initial.load image.origin image.bytes with
      | .error failure => (cleared, some failure)
      | .ok loaded =>
          ({ cleared with machine := { loaded with counter := session.program.entry } }, none)

/-- Logged by a reset: that it began, and the image if it could be loaded. -/
def resetLog (session : Session) : List Text :=
  if session.verbose then
    Machine.resetLog ++
      match session.program.image with
      | .error _ => []
      | .ok image =>
          match Machine.initial.load image.origin image.bytes with
          | .error _ => []
          | .ok _ => Machine.loadLog image.origin image.bytes
  else []

/-- The source line of the instruction at the program counter; zero is no line. -/
def line (session : Session) : Int :=
  match session.program.locate? session.machine.counter with
  | some statement => statement.line
  | none => 0

/-- The word at the program counter: that of the program where it has one, else that in memory. -/
def code (session : Session) : Word :=
  match session.program.locate? session.machine.counter with
  | some statement => statement.codes.getD (statement.indexAt session.machine.counter) 0
  | none =>
      match session.machine.fetch with
      | .ok word => word
      | .error _ => 0

/-- One tick of the machine. A failure is reported at the line where the tick began. -/
def tick (session : Session) : Session × Signal :=
  match session.machine.tick with
  | (machine, .running) => ({ session with machine, tracing := session.verbose }, .running)
  | (machine, .halted) => ({ session with machine, tracing := session.verbose }, .halted)
  | (machine, .fault failure) =>
      ({ session with machine, tracing := session.verbose }, .fault (.running session.line failure))

def tickLog (session : Session) : List Text :=
  if session.verbose then session.machine.tickLog else []

theorem weight_lt_of_tick (session after : Session) (ticked : session.tick = (after, .running)) :
    after.machine.weight < session.machine.weight := by
  unfold tick at ticked
  split at ticked
  · next machine found =>
    cases ticked
    exact Machine.weight_lt_of_tick _ _ found
  · simp at ticked
  · simp at ticked

def run (session : Session) : Session × Option Failure :=
  match ticked : session.tick with
  | (after, .running) =>
      have := weight_lt_of_tick session after ticked
      after.run
  | (after, .halted) => (after, none)
  | (after, .fault failure) => (after, some failure)
termination_by session.machine.weight

def runLog (session : Session) : List Text :=
  if session.verbose then session.machine.trace else []

end Session

end Nibble
