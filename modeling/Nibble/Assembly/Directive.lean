import Nibble.Instruction
import Nibble.Number

set_option autoImplicit false

/-! Directives: what the words of a line ask for, once its labels are taken off and its equates
are replaced. -/

namespace Nibble

open Text (ascii)

/-- Either a new location, or instruction words, the last of which may wait for a label. -/
inductive Directive where
  | origin (address : Nat)
  | codes (codes : List Word) (link : Option Text)
deriving DecidableEq, Repr

inductive Mnemonic where
  | origin
  | data
  | halt
  | ret
  | call
  | skipEqual
  | skipUnequal
  | load
  | add
  | or
  | and
  | xor
deriving DecidableEq, Repr

namespace Mnemonic

def table : List (Text × Mnemonic) :=
  [(ascii ".org", .origin), (ascii ".word", .data), (ascii "halt", .halt), (ascii "ret", .ret),
   (ascii "call", .call), (ascii "se", .skipEqual), (ascii "sne", .skipUnequal),
   (ascii "ld", .load), (ascii "add", .add), (ascii "or", .or), (ascii "and", .and),
   (ascii "xor", .xor)]

/-- The mnemonic of a line. Two further spellings count only when they stand alone. -/
def ofLine? (first : Text) (operands : List Text) : Option Mnemonic :=
  if operands.isEmpty ∧ first = ascii "return" then some .ret
  else if operands.isEmpty ∧ first = ascii "exit" then some .halt
  else table.lookup first

end Mnemonic

namespace Directive

def immediate (limit : Nat) (word : Text) : Except Failure Nat :=
  match Number.ofWord word with
  | .error text => .error (.notNumber text)
  | .ok value => if value > limit then .error (.valueRange value limit) else .ok value

/-- The register that a word names: `v` and one hexadecimal digit, in either case. -/
def register? : Text → Option UInt8
  | [letter, digit] =>
      if letter = 118 || letter = 86 then
        match Number.digitValue? digit with
        | some value => if value < 16 then some (UInt8.ofNat value) else none
        | none => none
      else none
  | _ => none

def register (word : Text) : Except Failure UInt8 :=
  match register? word with
  | some index => .ok index
  | none => .error (.plain .registerInvalid)

def isLabelStart (byte : UInt8) : Bool :=
  (65 ≤ byte && byte ≤ 90) || (97 ≤ byte && byte ≤ 122) || byte == 95 || byte == 46

def isLabelPart (byte : UInt8) : Bool :=
  isLabelStart byte || (48 ≤ byte && byte ≤ 57)

/-- Whether a word can be the target label of a call. -/
def isLabel : Text → Bool
  | [] => false
  | first :: rest => isLabelStart first && rest.all isLabelPart

def twoOperands : List Text → Except Failure (Text × Text)
  | [first, second] => .ok (first, second)
  | _ :: _ :: _ :: _ => .error (.plain .extraOperands)
  | _ => .error (.plain .valueMissing)

def bare (word : Word) : List Text → Except Failure Directive
  | [] => .ok (.codes [word] none)
  | _ :: _ => .error (.plain .extraOperands)

def origin? : List Text → Except Failure Directive
  | [word] => do return .origin (← immediate 0xFFF word)
  | _ => .error (.plain .originForm)

def dataWords : List Text → Except Failure (List Word)
  | [] => .ok []
  | word :: rest => do
      let value ← immediate 0xFFFF word
      let others ← dataWords rest
      return UInt16.ofNat value :: others

def data (operands : List Text) : Except Failure Directive :=
  if operands.isEmpty then .error (.plain .valueMissing)
  else do return .codes (← dataWords operands) none

/-- A call of an address, or of a label that is linked later. -/
def call : List Text → Except Failure Directive
  | [] => .error (.plain .targetMissing)
  | [target] =>
      match immediate 0xFFF target with
      | .ok address => .ok (.codes [Word.call (UInt16.ofNat address)] none)
      | .error (.notNumber text) =>
          if isLabel target then .ok (.codes [Word.call 0] (some target))
          else .error (.notNumber text)
      | .error failure => .error failure
  | _ => .error (.plain .extraOperands)

def skip (encode : UInt8 → UInt8 → Word) (operands : List Text) : Except Failure Directive := do
  let (first, second) ← twoOperands operands
  let x ← register first
  let value ← immediate 0xFF second
  return .codes [encode x (UInt8.ofNat value)] none

def either (operation : Operation) (limit : Nat) (encode : UInt8 → UInt8 → Word)
    (operands : List Text) : Except Failure Directive := do
  let (first, second) ← twoOperands operands
  let x ← register first
  match register? second with
  | some y => return .codes [← Word.pair operation x y] none
  | none =>
      let value ← immediate limit second
      return .codes [encode x (UInt8.ofNat value)] none

def pair (operation : Operation) (operands : List Text) : Except Failure Directive := do
  let (first, second) ← twoOperands operands
  let x ← register first
  let y ← register second
  return .codes [← Word.pair operation x y] none

def ofWords (first : Text) (operands : List Text) : Except Failure Directive :=
  match Mnemonic.ofLine? first operands with
  | some .origin => origin? operands
  | some .data => data operands
  | some .halt => bare Word.halt operands
  | some .ret => bare Word.ret operands
  | some .call => call operands
  | some .skipEqual => skip Word.skipEqual operands
  | some .skipUnequal => skip Word.skipUnequal operands
  | some .load => either .copy 0xFF Word.load operands
  | some .add => either .sum 0xF Word.add operands
  | some .or => pair .or operands
  | some .and => pair .and operands
  | some .xor => pair .xor operands
  | none => .error (.plain .instructionInvalid)

end Directive

end Nibble
