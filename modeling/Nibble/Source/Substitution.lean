import Nibble.Number
import Nibble.Source.Evaluator
import Nibble.Text.Blank

set_option autoImplicit false

/-! What is replaced inside a line before it is read as words: character literals by their
values, then compile-time expressions by theirs, then commas by spaces. -/

namespace Nibble.Substitution

open Text (ascii)

/-! ### Character literals -/

def escapeValue? (code : Nat) : Option Nat :=
  if code = 92 then some 92
  else if code = 110 then some 10
  else if code = 114 then some 13
  else if code = 101 then some 27
  else none

/-- The decimal value of a single byte other than a backslash. -/
def byteValue? (glyph : Glyph) : Option Nat :=
  match glyph.bytes with
  | [byte] => if byte = 92 then none else some byte.toNat
  | _ => none

/-- The literal that begins with the quote at the head: what it is replaced by, and how many
characters it takes. A literal without a value is kept. -/
def literal? : List Glyph → Option (Text × Nat)
  | quote :: first :: second :: rest =>
      if quote.code ≠ 39 then none
      else if first.code = 92 ∧ second.code ≠ 39 ∧ (rest.head?.any (·.code == 39)) then
        match escapeValue? second.code with
        | some value => some (Numeral.decimal value, 4)
        | none => some (quote.bytes ++ first.bytes ++ second.bytes ++ quote.bytes, 4)
      else if first.code ≠ 39 ∧ second.code = 39 then
        match byteValue? first with
        | some value => some (Numeral.decimal value, 3)
        | none => some (quote.bytes ++ first.bytes ++ second.bytes, 3)
      else none
  | _ => none

/-- Replaces the character literals from left to right. The first argument counts characters of
the last literal that are still to be passed. -/
def literals : Nat → List Glyph → Text
  | _, [] => []
  | passed + 1, _ :: rest => literals passed rest
  | 0, glyph :: rest =>
      match literal? (glyph :: rest) with
      | some (replacement, width) => replacement ++ literals (width - 1) rest
      | none => glyph.bytes ++ literals 0 rest

/-! ### Expressions -/

/-- The expression that begins at the head: its text between `$(` and the last closing parenthesis
before the next dollar sign. -/
def expression? : Text → Option Text
  | 36 :: 40 :: rest =>
      match ((rest.takeWhile (· != 36)).reverse.dropWhile (· != 41)) with
      | [] => none
      | _ :: reversed => some reversed.reverse
  | _ => none

/-- The numbers that expressions can name: the equates that are numbers. -/
def numbers (equates : Table Text) : Table Nat :=
  equates.filterMap fun entry =>
    match Number.ofWord entry.2 with
    | .ok value => some (entry.1, value)
    | .error _ => none

/-- The global that a script leaves the value of an expression in. -/
def resultName : Text := ascii "rc"

def script (text : Text) : Text :=
  resultName ++ ascii "=" ++ text ++ ascii "\n"

variable [Evaluator]

/-- The 32 bits that replace an expression. Only integers of 64 bits are accepted. -/
def expressionValue (equates : Table Text) (text : Text) : Except Failure Nat :=
  match Evaluator.run (script text) (numbers equates) with
  | .error error => .error (.expression error)
  | .ok globals =>
      match globals.find? resultName with
      | some (.integer value) =>
          if -0x8000000000000000 ≤ value ∧ value < 0x8000000000000000 then
            .ok (value % 0x100000000).toNat
          else .error (.notExpression text)
      | _ => .error (.notExpression text)

/-- Replaces the expressions from left to right, and reports the last failure among them. The
number counts bytes of the last expression that are still to be passed. -/
def expressions (valueOf : Text → Except Failure Nat) : Nat → Text → Text × Option Failure
  | _, [] => ([], none)
  | passed + 1, _ :: rest => expressions valueOf passed rest
  | 0, byte :: rest =>
      match expression? (byte :: rest) with
      | none =>
          let (text, failure) := expressions valueOf 0 rest
          (byte :: text, failure)
      | some inner =>
          let (text, failure) := expressions valueOf (inner.length + 2) rest
          match valueOf inner with
          | .ok value => (Numeral.hexLiteral 0 value ++ text, failure)
          | .error first => (text, failure.or (some first))

/-! ### Words -/

def words (equates : Table Text) (line : Text) : Except Failure (List Text) :=
  match expressions (expressionValue equates) 0 (literals 0 line.glyphs) with
  | (_, some failure) => .error failure
  | (text, none) => .ok (Text.fields (text.map fun byte => if byte = 44 then 32 else byte))

end Nibble.Substitution
