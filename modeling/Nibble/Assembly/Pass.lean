import Nibble.Assembly.Expansion
import Nibble.Machine.Basic
import Nibble.Source.Lines

set_option autoImplicit false

/-! The pass over a source: its lines in order, and then the linking of the calls that name a
label. -/

namespace Nibble

open Text (ascii)

/-- What the pass holds between two lines. -/
structure Pass where
  assembly : Assembly := {}
  macros : Table Macro := []
  /-- The macro whose body is being read, as far as it is read, and its name. -/
  defining : Option (Text × Macro) := none
  /-- The number of lines read. -/
  number : Nat := 0
  /-- What counts of the last line read. -/
  line : Text := []
deriving DecidableEq, Repr

namespace Pass

/-- The names that a source finds defined: those of the machine, the line number, and then the
predefined ones, which may replace the others. -/
def initial (predefines : Table Text) : Table Text :=
  Table.setAll predefines
    (Table.setAll (Machine.definitions ++ [(Assembly.lineName, ascii "0")]) [])

/-- Clears what an earlier source has left. -/
def restart (pass : Pass) (predefines : Table Text) : Pass :=
  { pass with
    assembly :=
      { pass.assembly with
        statements := [], labels := [], equates := initial predefines, location := 0 }
    macros := []
    defining := none
    number := 0
    line := [] }

def start (predefines : Table Text) : Pass :=
  restart {} predefines

/-- Nothing of an earlier source plays a part. -/
theorem restart_eq (pass : Pass) (predefines : Table Text) :
    pass.restart predefines = start predefines := rfl

/-- Begins a macro, given the words behind the directive. Its body begins on the line below. -/
def beginMacro (pass : Pass) (operands : List Text) : Pass × Option Failure :=
  if pass.defining.isSome then (pass, some (.plain .macroNesting))
  else
    match operands with
    | [] => (pass, some (.plain .macroForm))
    | name :: parameters =>
        if pass.macros.has name then (pass, some (.plain .macroDuplicate))
        else
          let opened : Macro := { line := pass.number + 1, parameters }
          ({ pass with
              macros := pass.macros.set name opened
              defining := some (name, opened) }, none)

def endMacro (pass : Pass) : Pass × Option Failure :=
  if pass.defining.isSome then ({ pass with defining := none }, none)
  else (pass, some (.plain .macroUnopened))

/-- Reads a line that begins or ends no macro: part of a body, or a line to process. -/
def readPlain [Evaluator] (pass : Pass) : Pass × Option Failure :=
  match pass.defining with
  | some (name, opened) =>
      let longer := { opened with body := opened.body ++ [pass.line] }
      ({ pass with
          macros := pass.macros.set name longer
          defining := some (name, longer) }, none)
  | none =>
      let outcome := pass.assembly.process pass.macros [] pass.number pass.line
      ({ pass with assembly := outcome.assembly }, outcome.failure)

def read [Evaluator] (pass : Pass) (text : Text) : Pass × Option Failure :=
  let current := { pass with number := pass.number + 1, line := Source.content text }
  match Text.fields current.line with
  | [] => current.readPlain
  | first :: operands =>
      if first = ascii ".macro" then current.beginMacro operands
      else if first = ascii ".endm" then current.endMacro
      else current.readPlain

def readAll [Evaluator] (pass : Pass) : List Text → Pass × Option Failure
  | [] => (pass, none)
  | text :: rest =>
      match pass.read text with
      | (after, none) => after.readAll rest
      | (after, some failure) => (after, some failure)

/-! ### Linking -/

/-- Puts the address of its label into the last word of a statement that waits for one. -/
def linkStatement (labels : Table Nat) (statement : Statement) : Except Failure Statement :=
  match statement.link with
  | none => .ok statement
  | some label =>
      match labels.find? label with
      | none => .error (.labelMissing label)
      | some address =>
          if address > 0xFFF then .error (.valueRange address 0xFFF)
          else
            .ok { statement with
              codes := statement.codes.dropLast ++ [Word.call (UInt16.ofNat address)] }

/-- Links statements in order up to the first failure, which is reported at its statement. -/
def link (labels : Table Nat) : List Statement → List Statement × Option Failure
  | [] => ([], none)
  | statement :: rest =>
      match linkStatement labels statement with
      | .error failure =>
          (statement :: rest, some (.atLine statement.line (Text.spaced statement.words) failure))
      | .ok linked =>
          let (others, failure) := link labels rest
          (linked :: others, failure)

def located (pass : Pass) (failure : Failure) : Failure :=
  .atLine pass.number pass.line failure

/-- What remains after the lines: a line that is too long, an open macro, the links. -/
def finish (pass : Pass) (overlong : Bool) : Pass × Option Failure :=
  if overlong then (pass, some (pass.located (.plain .lineTooLong)))
  else if pass.defining.isSome then (pass, some (pass.located (.plain .macroUnclosed)))
  else
    let (statements, failure) := link pass.assembly.labels pass.assembly.statements
    ({ pass with assembly := { pass.assembly with statements } }, failure)

def run [Evaluator] (pass : Pass) (source : Source) : Pass × Option Failure :=
  match pass.readAll source.lines with
  | (pass, some failure) => (pass, some (pass.located failure))
  | (pass, none) => pass.finish source.overlong

end Pass

end Nibble
