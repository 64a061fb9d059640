import Nibble.Assembly.Pass

set_option autoImplicit false

/-! The assembler: predefined names that every source can use, and what the last source left. -/

namespace Nibble

open Text (ascii)

structure Assembler where
  predefines : Table Text := []
  pass : Pass := {}

namespace Assembler

/-- Defines a name for all later sources, or gives it a new value. -/
def predefine (assembler : Assembler) (name value : Text) : Assembler :=
  { assembler with predefines := assembler.predefines.set name value }

def predefineAll (assembler : Assembler) (pairs : List (Text × Text)) : Assembler :=
  { assembler with predefines := assembler.predefines.setAll pairs }

def parse [Evaluator] (assembler : Assembler) (text : Text) : Assembler × Except Failure Program :=
  match (assembler.pass.restart assembler.predefines).run (Source.ofText text) with
  | (pass, some failure) => ({ assembler with pass }, .error failure)
  | (pass, none) => ({ assembler with pass }, .ok ⟨pass.assembly.statements⟩)

theorem parse_eq [Evaluator] (assembler : Assembler) (text : Text) :
    assembler.parse text =
      match (Pass.start assembler.predefines).run (Source.ofText text) with
      | (pass, some failure) => ({ assembler with pass }, .error failure)
      | (pass, none) => ({ assembler with pass }, .ok ⟨pass.assembly.statements⟩) := by
  rw [parse, Pass.restart_eq]

/-- Logged by a verbose assembler: the lines of the source that it read, with their numbers. -/
def log (assembler : Assembler) (text : Text) : List Text :=
  ((Source.ofText text).lines.take assembler.pass.number).zipIdx.map fun entry =>
    Numeral.decimal (entry.2 + 1) ++ ascii ": " ++ entry.1

end Assembler

end Nibble
