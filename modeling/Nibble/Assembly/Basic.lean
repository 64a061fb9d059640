import Nibble.Assembly.Directive
import Nibble.Program.Basic
import Nibble.Table

set_option autoImplicit false

/-! The assembly under construction, and the edits that a single line makes to it. An edit that
fails keeps what it has done so far, so its outcome has an assembly in either case. -/

namespace Nibble

open Text (ascii)

/-- A macro: the source line on which its body begins, its parameters and its body. -/
structure Macro where
  line : Nat
  parameters : List Text := []
  body : List Text := []
deriving DecidableEq, Repr

structure Assembly where
  /-- The statements emitted so far, oldest first. -/
  statements : List Statement := []
  labels : Table Nat := []
  equates : Table Text := []
  /-- The address of the next statement. -/
  location : Nat := 0
deriving DecidableEq, Repr

/-- What an edit leaves, and why it stopped if it did. -/
structure Outcome where
  assembly : Assembly
  failure : Option Failure := none
deriving DecidableEq, Repr

namespace Assembly

def done (assembly : Assembly) : Outcome :=
  { assembly }

def fail (assembly : Assembly) (failure : Failure) : Outcome :=
  { assembly, failure := some failure }

/-- The name that expressions and operands can use for the number of the line they stand on. -/
def lineName : Text := ascii "LINENO"

def atLine (assembly : Assembly) (number : Nat) : Assembly :=
  { assembly with equates := assembly.equates.set lineName (Numeral.decimal number) }

/-! ### Equates -/

def equateWord : Text := ascii ".equ"

/-- Defines a name, which must be new; the operands are the name and its value. -/
def define (assembly : Assembly) (operands : List Text) : Outcome :=
  match operands with
  | [name, value] =>
      if assembly.equates.has name then assembly.fail (.plain .equateDuplicate)
      else done { assembly with equates := assembly.equates.set name value }
  | _ => assembly.fail (.plain .equateForm)

/-- Replaces every word that names an equate by its value, which is not replaced again. -/
def substitute (equates : Table Text) (words : List Text) : List Text :=
  words.map fun word => (equates.find? word).getD word

/-! ### Labels -/

def labelOf? (word : Text) : Option Text :=
  if word.getLast? = some 58 then some word.dropLast else none

/-- Defines the labels at the front of a line at the current location. A label that is there
already stops this; else the words behind the labels are left. -/
def takeLabels (assembly : Assembly) : List Text → Assembly × Except Failure (List Text)
  | [] => (assembly, .ok [])
  | word :: rest =>
      match labelOf? word with
      | none => (assembly, .ok (word :: rest))
      | some label =>
          if assembly.labels.has label then (assembly, .error (.plain .labelDuplicate))
          else
            takeLabels { assembly with labels := assembly.labels.set label assembly.location } rest

/-! ### Statements -/

/-- Carries out the words of a line: moves the location, or adds a statement there. The statement
that takes the program over the end of memory is added before this fails. -/
def emit (assembly : Assembly) (number : Nat) (words : List Text) : Outcome :=
  match words with
  | [] => assembly.done
  | first :: operands =>
      match Directive.ofWords first operands with
      | .error failure => assembly.fail failure
      | .ok (.origin address) =>
          if address < assembly.location then assembly.fail (.plain .originBackwards)
          else done { assembly with location := address }
      | .ok (.codes codes link) =>
          let statement : Statement :=
            { line := number, address := assembly.location, words := first :: operands, codes,
              link }
          let extended :=
            { assembly with
              statements := assembly.statements ++ [statement]
              location := assembly.location + 2 * codes.length }
          if extended.location > Memory.size then extended.fail (.plain .programSize)
          else extended.done

end Assembly

end Nibble
