import Nibble.Instruction
import Nibble.Memory
import Nibble.Sequence

set_option autoImplicit false

/-! Programs: statements with their addresses and words, the sequence of placed words that they
make up, the memory image of a program and its listing, and the program of an image. -/

namespace Nibble

open Text (ascii)
open Numeral (hexPadded)

/-- One statement of a program: the source line it comes from, the address of its first word, the
words of the line, the instruction words, and the label that its last word still waits for. -/
structure Statement where
  line : Int := 0
  address : Int := 0
  words : List Text := []
  codes : List Word := []
  link : Option Text := none
deriving DecidableEq, Repr

structure Program where
  statements : List Statement := []
deriving DecidableEq, Repr

/-- An instruction word and its sixteen bit address. -/
abbrev PlacedWord := UInt16 × Word

structure Image where
  origin : UInt16
  bytes : List UInt8
deriving DecidableEq, Repr

namespace Statement

/-- The sixteen bits of an address that count in the machine. -/
def truncate (address : Int) : UInt16 :=
  UInt16.ofNat (address % 65536).toNat

def placed (statement : Statement) : List PlacedWord :=
  statement.codes.zipIdx.map fun entry => (truncate (statement.address + 2 * entry.2), entry.1)

def limit (statement : Statement) : Int :=
  statement.address + 2 * statement.codes.length

def covers (statement : Statement) (address : UInt16) : Bool :=
  statement.address ≤ address.toNat && address.toNat < statement.limit

def indexAt (statement : Statement) (address : UInt16) : Nat :=
  ((address.toNat - statement.address) / 2).toNat

end Statement

namespace Program

def codes (program : Program) : List PlacedWord :=
  program.statements.flatMap Statement.placed

def feedCodes {σ : Type} (program : Program) (consume : Consumer PlacedWord σ) (state : σ) :
    σ × Bool :=
  Sequence.feedEach consume state (program.statements.map Statement.placed)

def entry (program : Program) : UInt16 :=
  match program.statements.find? fun statement => !statement.codes.isEmpty with
  | some statement => Statement.truncate statement.address
  | none => 0

def locate? (program : Program) (address : UInt16) : Option Statement :=
  program.statements.find? fun statement => statement.covers address

/-- The least address of a word; the size of the memory when there is none below it. -/
def low (program : Program) : Nat :=
  program.codes.foldl (fun least placed => min least placed.1.toNat) Memory.size

/-- The address after the last byte of a word; zero when there is none. -/
def high (program : Program) : Nat :=
  program.codes.foldl (fun greatest placed => max greatest (placed.1.toNat + 2)) 0

def writeWord (bytes : Array UInt8) (offset : Nat) (word : Word) : Array UInt8 :=
  (bytes.setIfInBounds offset word.high).setIfInBounds (offset + 1) word.low

/-- The memory image from the least to the greatest address, with zeros where no word stands.
Where words overlap the later one in the program wins. -/
def image (program : Program) : Except Failure Image :=
  if program.high = 0 then .ok ⟨0, []⟩
  else if program.high > Memory.size then .error (.plain .programSize)
  else
    let low := program.low
    .ok
      { origin := UInt16.ofNat low
        bytes := (program.codes.foldl
          (fun bytes placed => writeWord bytes (placed.1.toNat - low) placed.2)
          (Array.replicate (program.high - low) 0)).toList }

def listingLine (placed : PlacedWord) : Text :=
  hexPadded 3 placed.1.toNat ++ ascii ": " ++ hexPadded 4 placed.2.toNat ++ ascii "  "
    ++ placed.2.text ++ ascii "\n"

def listing (program : Program) : Text :=
  program.codes.flatMap listingLine

/-- The statements of an image from an offset on. An odd last byte is the high byte of a word. -/
def disassembleFrom (origin : UInt16) : Nat → List UInt8 → List Statement
  | _, [] => []
  | offset, [high] => [one offset (Word.ofBytes high 0)]
  | offset, high :: low :: rest =>
      one offset (Word.ofBytes high low) :: disassembleFrom origin (offset + 2) rest
where
  one (offset : Nat) (word : Word) : Statement :=
    { address := origin.toNat + offset, words := word.words, codes := [word] }

/-- The program of an image: one statement a word. -/
def disassemble (image : Image) : Program :=
  ⟨disassembleFrom image.origin 0 image.bytes⟩

end Program

end Nibble
