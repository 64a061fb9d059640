import Nibble.Machine.Run

set_option autoImplicit false

/-! What a machine prints: a dump of its state, and the lines that a verbose machine logs. -/

namespace Nibble

open Text (ascii)
open Numeral (decimal hex hexLiteral hexPadded)

namespace Machine

def labelled (name value : Text) : Text :=
  List.replicate (5 - name.length) 32 ++ name ++ ascii ": " ++ value ++ ascii "\n"

def report (machine : Machine) : Text :=
  labelled (ascii "pc") (hexLiteral 3 machine.counter.toNat)
    ++ (machine.registers.toList.zipIdx.flatMap fun entry =>
      labelled (ascii "v" ++ hex entry.2) (hexLiteral 2 entry.1.toNat))
    ++ labelled (ascii "stack")
      (if machine.stack.frames.isEmpty then ascii "---"
        else Text.spaced (machine.stack.frames.map fun address => hexPadded 3 address.toNat))

def resetLog : List Text :=
  [ascii "cpu: reset"]

def loadLog (origin : UInt16) (image : List UInt8) : List Text :=
  [ascii "cpu: loaded " ++ decimal image.length ++ ascii " bytes at " ++ hexLiteral 3 origin.toNat]

def tickLog (machine : Machine) : List Text :=
  match machine.fetch with
  | .ok word => [hexPadded 3 machine.counter.toNat ++ ascii ": " ++ word.text]
  | .error _ => []

/-- The lines of a run from here, in front of which stand the given ones, youngest first. -/
def traceOnto (logged : List Text) (machine : Machine) : List Text :=
  match ticked : machine.tick with
  | (after, .running) =>
      have := weight_lt_of_tick machine after ticked
      after.traceOnto (machine.tickLog ++ logged)
  | (_, .halted) => (machine.tickLog ++ logged).reverse
  | (_, .fault _) => (machine.tickLog ++ logged).reverse
termination_by machine.weight

def trace (machine : Machine) : List Text :=
  machine.traceOnto []

/-- Logged by a run: its instructions, then the failure that ended it. -/
def runLog [Locale] (machine : Machine) : List Text :=
  machine.trace ++
    match machine.run.2 with
    | some failure => [ascii "cpu: " ++ failure.message]
    | none => []

end Machine

end Nibble
