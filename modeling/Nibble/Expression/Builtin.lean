import Nibble.Expression.Arithmetic
import Nibble.Expression.Token

set_option autoImplicit false

/-! Calls of the built-in functions. -/

namespace Nibble.Expression

open Text (ascii)

namespace Builtin

def splitSign : Text → Bool × Text
  | 43 :: rest => (false, rest)
  | 45 :: rest => (true, rest)
  | text => (false, text)

def letterBase? (letter : UInt8) : Option Nat :=
  if letter = 111 || letter = 79 then some 8
  else if letter = 120 || letter = 88 then some 16
  else if letter = 98 || letter = 66 then some 2
  else none

def magnitude? (base : Nat) (digits : Text) : Option Nat :=
  let codes := digits.map UInt8.toNat
  if codes.isEmpty || !codes.all (Token.isDigitIn base) then none
  else some (Token.numberIn base codes)

/-- An unsigned number in a base; base zero is told by the radix letter, and without one it is
ten, where nothing but zeros may begin with a zero. A radix letter may also repeat the base. -/
def unsigned? (base : Nat) (text : Text) : Option Nat :=
  match text with
  | 48 :: letter :: rest =>
      match if rest.isEmpty then none else letterBase? letter with
      | some found =>
          if base = 0 || base = found then magnitude? found rest
          else magnitude? base text
      | none =>
          if base = 0 then if (letter :: rest).all (· == 48) then some 0 else none
          else magnitude? base text
  | _ => magnitude? (if base = 0 then 10 else base) text

def parseInt? (base : Nat) (text : Text) : Option Int :=
  let (negative, rest) := splitSign text
  (unsigned? base rest).map fun value => if negative then -(value : Int) else value

/-- The base of a conversion: none, or two to thirty-six. -/
def base? (value : Value) : Option Nat := do
  let base ← value.small?
  if base = 0 ∨ (2 ≤ base ∧ base ≤ 36) then return base.toNat else none

def toInt (value : Value) (base : Option Value) : Option Value :=
  match value, base with
  | .string spelled, none => (parseInt? 10 spelled.toList).map .int
  | .string spelled, some given => do
      let found ← base? given
      (parseInt? found spelled.toList).map .int
  | _, some _ => none
  | .bool truth, none => some (.int (if truth then 1 else 0))
  | number, none => number.integer?.map .int

/-- Arguments for named parameters in order: first by position, then by name. Each is given at
most once, and every name is one of the parameters. -/
def assign (parameters : List Text) (positional : List Value) (named : List (Text × Value)) :
    Option (List (Option Value)) :=
  if positional.length > parameters.length then none
  else if (named.map Prod.fst).eraseDups.length ≠ named.length then none
  else if !named.all fun entry => (parameters.drop positional.length).contains entry.1 then none
  else some (positional.map some ++
    (parameters.drop positional.length).map fun name => named.lookup name)

def codePoint? (bytes : ByteArray) : Option Nat :=
  match Text.glyphs (bytes.extract 0 5).toList with
  | [glyph] => some glyph.code
  | _ => none

/-- Takes the extreme element under a key: each later one that the order prefers replaces it. -/
def extreme (preferred : Ordering) (key : Value → Run Value) (elements : Elements) : Run Value := do
  let best ← elements.each (none : Option (Value × Value)) fun best candidate => do
    let candidateKey ← key candidate
    match best with
    | none => return some (candidate, candidateKey)
    | some (_, bestKey) =>
        let found ← (← get).order candidateKey bestKey
        return if found = preferred then some (candidate, candidateKey) else best
  match best with
  | none => failure
  | some (found, _) => return found

/-- What an extreme is taken of: one argument's elements, or the arguments. -/
def candidates (store : Store) : List Value → Option Elements
  | [] => none
  | [single] => store.elements? single
  | several => some (.listed several)

def applyPositional (builtin : Builtin) (arguments : List Value) : Run Value := do
  let store ← get
  match builtin, arguments with
  | .abs, [.int value] => return .int value.natAbs
  | .abs, [.float value] => return .float value.abs
  | .all, [value] =>
      let elements ← store.elements? value
      return .bool !elements.any fun item => !store.truth item
  | .any, [value] =>
      let elements ← store.elements? value
      return .bool (elements.any store.truth)
  | .bool, [] => return .bool false
  | .bool, [value] => return .bool (store.truth value)
  | .int, [value] => toInt value none
  | .int, [value, base] => toInt value (some base)
  | .len, [value] =>
      let length ← store.length? value
      if length < 0 then failure else return .int length
  | .list, [] => Store.newList #[]
  | .list, [value] =>
      let elements ← store.elements? value
      Store.newList elements.toArray
  | .max, arguments =>
      let elements ← candidates store arguments
      extreme .gt pure elements
  | .min, arguments =>
      let elements ← candidates store arguments
      extreme .lt pure elements
  | .ord, [.string spelled] =>
      let code ← codePoint? spelled
      return .int code
  | .range, [stop] =>
      let last ← stop.bounded?
      return .range ⟨0, last, 1⟩
  | .range, [start, stop] =>
      let first ← start.bounded?
      let last ← stop.bounded?
      return .range ⟨first, last, 1⟩
  | .range, [start, stop, step] =>
      let first ← start.bounded?
      let last ← stop.bounded?
      let stride ← step.bounded?
      if stride = 0 then failure else return .range ⟨first, last, stride⟩
  | .repr, [value] => return .ofText (store.literal value)
  | .str, [.string spelled] => return .string spelled
  | .str, [value] => return .ofText (store.literal value)
  | .tuple, [] => return .tuple []
  | .tuple, [value] =>
      let elements ← store.elements? value
      return .tuple elements.toArray.toList
  | _, _ => failure

/-- A call. Integer conversion names its parameters, and the extremes take a key function. -/
def apply (builtin : Builtin) (positional : List Value) (named : List (Text × Value)) :
    Run Value := do
  match builtin, named with
  | builtin, [] => builtin.applyPositional positional
  | .int, named =>
      match assign [ascii "x", ascii "base"] positional named with
      | some [some value, base] => toInt value base
      | _ => failure
  | .max, [(name, .builtin key)] =>
      if name = ascii "key" then
        let elements ← candidates (← get) positional
        extreme .gt (fun value => key.applyPositional [value]) elements
      else failure
  | .min, [(name, .builtin key)] =>
      if name = ascii "key" then
        let elements ← candidates (← get) positional
        extreme .lt (fun value => key.applyPositional [value]) elements
      else failure
  | _, _ => failure

end Builtin

end Nibble.Expression
