import Nibble.Word

set_option autoImplicit false

/-! Everything that can go wrong, as one type of causes with one wording. A failure is a reason
with a fixed text, a reason with the offending text or number, or a failure seen from further
out: at a source line, inside an expansion, at an instruction. -/

namespace Nibble

open Text (ascii)
open Numeral (hexLiteral)

inductive Reason where
  | halt
  | stackOverflow
  | stackUnderflow
  | unimplemented
  | fetchBounds
  | imageSize
  | equateForm
  | equateDuplicate
  | originForm
  | originBackwards
  | labelDuplicate
  | macroForm
  | macroNesting
  | macroDuplicate
  | macroUnclosed
  | macroUnopened
  | macroRecursion
  | extraOperands
  | valueMissing
  | registerInvalid
  | targetMissing
  | instructionInvalid
  | programSize
  | lineTooLong
deriving DecidableEq, Repr

def Reason.message : Reason → Text
  | halt => ascii "halt"
  | stackOverflow => ascii "stack overflow"
  | stackUnderflow => ascii "stack underflow"
  | unimplemented => ascii "opcode unimplemented"
  | fetchBounds => ascii "fetch out of bounds"
  | imageSize => ascii "image exceeds memory"
  | equateForm => ascii ".equ syntax"
  | equateDuplicate => ascii ".equ duplicated"
  | originForm => ascii ".org syntax"
  | originBackwards => ascii ".org moves backwards"
  | labelDuplicate => ascii "label duplicated"
  | macroForm => ascii ".macro syntax"
  | macroNesting => ascii ".macro in .macro prohibited"
  | macroDuplicate => ascii ".macro duplicated"
  | macroUnclosed => ascii ".macro without .endm"
  | macroUnopened => ascii ".endm without .macro"
  | macroRecursion => ascii ".macro expands itself"
  | extraOperands => ascii "excessive arguments"
  | valueMissing => ascii "value missing"
  | registerInvalid => ascii "register invalid"
  | targetMissing => ascii "target missing"
  | instructionInvalid => ascii "instruction invalid"
  | programSize => ascii "program exceeds memory"
  | lineTooLong => ascii "bufio.Scanner: token too long"

/-- How far an expression got before it failed: its text could not be read, a name of it is
unknown, or its evaluation failed. -/
inductive ExpressionPhase where
  | malformed
  | unresolved
  | undefined
deriving DecidableEq, Repr

/-- The error of an evaluator, which is passed on as it is. -/
structure ExpressionError where
  phase : ExpressionPhase
  text : Text
deriving DecidableEq, Repr

inductive Failure where
  | plain (reason : Reason)
  | labelMissing (label : Text)
  | notNumber (word : Text)
  | notExpression (text : Text)
  | valueRange (value limit : Nat)
  | expression (error : ExpressionError)
  | noRegister (index : Nat)
  | notPair (operation : Operation)
  /-- At a source line, given with its number and the text of the line. -/
  | atLine (number : Int) (line : Text) (cause : Failure)
  /-- Inside the expansion of a macro, at a line of its body. -/
  | inMacro (name : Text) (number : Int) (cause : Failure)
  /-- At an instruction, given with its address and its word. -/
  | executing (address : UInt16) (word : Word) (cause : Failure)
  /-- While running a program, at the source line of the instruction; zero is no line. -/
  | running (number : Int) (cause : Failure)
deriving DecidableEq, Repr

/-- How whole numbers are written for the user. -/
class Locale where
  number : Int → Text

namespace Failure

/-- The full text. Only decimal numbers are written for the user. -/
def message [Locale] : Failure → Text
  | plain reason => reason.message
  | labelMissing label => ascii "label " ++ label ++ ascii " missing"
  | notNumber word => ascii "\x27" ++ word ++ ascii "\x27 is not a number"
  | notExpression text => ascii "$(" ++ text ++ ascii ") is not a valid expression"
  | valueRange value limit => hexLiteral 0 value ++ ascii " exceeds " ++ hexLiteral 0 limit
  | expression error => error.text
  | noRegister index =>
      ascii "runtime error: index out of range [" ++ Numeral.decimal index
        ++ ascii "] with length 16"
  | notPair operation => operation.name ++ ascii " is not a register to register operation"
  | atLine number line cause =>
      ascii "line " ++ Locale.number number ++ ascii " \x27" ++ line ++ ascii "\x27 " ++
        cause.message
  | inMacro name number cause =>
      ascii "macro " ++ name ++ ascii " line " ++ Locale.number number ++ ascii " " ++ cause.message
  | executing address word cause =>
      ascii "pc " ++ hexLiteral 3 address.toNat ++ ascii " opcode " ++ hexLiteral 4 word.toNat
        ++ ascii ": " ++ cause.message
  | running number cause =>
      if number = 0 then cause.message
      else ascii "line " ++ Locale.number number ++ ascii ": " ++ cause.message

/-- The failure at the bottom of all the places it was seen from. -/
def root : Failure → Failure
  | atLine _ _ cause => cause.root
  | inMacro _ _ cause => cause.root
  | executing _ _ cause => cause.root
  | running _ cause => cause.root
  | failure => failure

def reason? (failure : Failure) : Option Reason :=
  match failure.root with
  | plain reason => some reason
  | _ => none

def fromExpression (failure : Failure) : Bool :=
  match failure.root with
  | expression _ => true
  | _ => false

end Failure

end Nibble
