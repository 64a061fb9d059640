import Nibble.Expression.Real

set_option autoImplicit false

/-! The values of compile-time expressions. Lists and dictionaries can change, so a value only names
the cell of a store that holds one. -/

namespace Nibble.Expression

open Text (ascii)

inductive Builtin where
  | abs
  | all
  | any
  | bool
  | bytes
  | chr
  | dict
  | dir
  | enumerate
  | fail
  | float
  | getattr
  | hasattr
  | hash
  | int
  | len
  | list
  | max
  | min
  | ord
  | print
  | range
  | repr
  | reversed
  | sorted
  | str
  | tuple
  | type
  | zip
deriving DecidableEq, Repr

namespace Builtin

def table : List (Text × Builtin) :=
  [(ascii "abs", .abs), (ascii "all", .all), (ascii "any", .any), (ascii "bool", .bool),
   (ascii "bytes", .bytes), (ascii "chr", .chr), (ascii "dict", .dict), (ascii "dir", .dir),
   (ascii "enumerate", .enumerate), (ascii "fail", .fail), (ascii "float", .float),
   (ascii "getattr", .getattr), (ascii "hasattr", .hasattr), (ascii "hash", .hash),
   (ascii "int", .int), (ascii "len", .len), (ascii "list", .list), (ascii "max", .max),
   (ascii "min", .min), (ascii "ord", .ord), (ascii "print", .print), (ascii "range", .range),
   (ascii "repr", .repr), (ascii "reversed", .reversed), (ascii "sorted", .sorted),
   (ascii "str", .str), (ascii "tuple", .tuple), (ascii "type", .type), (ascii "zip", .zip)]

def name (builtin : Builtin) : Text :=
  match table.find? fun entry => entry.2 == builtin with
  | some entry => entry.1
  | none => []

end Builtin

/-- Integers of 64 bits from a start in equal steps before a stop. All arithmetic wraps around, the
length included, so that a range over more than half of all integers has a negative length. -/
structure Range where
  start : Int64
  stop : Int64
  step : Int64
deriving DecidableEq, Repr

namespace Range

def length (range : Range) : Int64 :=
  if 0 < range.step then
    if range.start < range.stop then (range.stop - 1 - range.start) / range.step + 1 else 0
  else if range.stop < range.start then (range.start - 1 - range.stop) / -range.step + 1
  else 0

/-- The number of elements that are gone through. -/
def size (range : Range) : Nat :=
  range.length.toInt.toNat

def element (range : Range) (position : Int64) : Int64 :=
  range.start + position * range.step

/-- Whether an integer is an element. Only integers of 32 bits are looked for. -/
def has (range : Range) (wanted : Int) : Bool :=
  if wanted < -0x80000000 ∨ 0x7FFFFFFF < wanted then false
  else
    let distance := Int64.ofInt wanted - range.start
    let position := distance / range.step
    distance % range.step == 0 && 0 ≤ position && position < range.length

/-- Ranges are the same when their elements are. -/
def same (left right : Range) : Bool :=
  left.length == right.length && (left.length == 0 ||
    (left.start == right.start && (left.length == 1 || left.step == right.step)))

end Range

inductive Value where
  | none
  | bool (value : Bool)
  | int (value : Int)
  | float (value : Float)
  | string (bytes : ByteArray)
  | tuple (items : List Value)
  | range (range : Range)
  | builtin (builtin : Builtin)
  | list (cell : Nat)
  | dict (cell : Nat)

namespace Value

def ofText (text : Text) : Value :=
  string ⟨text.toArray⟩

/-- An integer of 32 bits. -/
def small? : Value → Option Int
  | int value => if -0x80000000 ≤ value ∧ value ≤ 0x7FFFFFFF then some value else Option.none
  | _ => Option.none

def bounded? : Value → Option Int64
  | int value =>
      if -0x8000000000000000 ≤ value ∧ value < 0x8000000000000000 then some (Int64.ofInt value)
      else Option.none
  | _ => Option.none

/-- The integer that a number is, cut toward zero. -/
def integer? : Value → Option Int
  | int value => some value
  | float value => Real.truncate? value
  | _ => Option.none

/-! ### Keys -/

def hashBytes (bytes : ByteArray) : UInt32 :=
  bytes.foldl (fun hash byte => (hash ^^^ byte.toUInt32) * 16777619) 2166136261

/-- The hash of an integer is made of its low bits: of its two's complement up to 32 bits, and of
its magnitude beyond. -/
def hashInt (value : Int) : UInt32 :=
  let low : Nat :=
    if -0x80000000 ≤ value ∧ value ≤ 0x7FFFFFFF then (value % 0x10000000000000000).toNat
    else value.natAbs
  12582917 * UInt32.ofNat (low + 3)

mutual

/-- The hash of a value that can be a key. Equal numbers have equal hashes. -/
def hash? : Value → Option UInt32
  | none => some 0
  | bool value => some (if value then 1 else 0)
  | int value => some (hashInt value)
  | float value => some (((Real.truncate? value).map hashInt).getD 1618033)
  | string bytes => some (hashBytes bytes)
  | tuple items => hashAll (UInt32.ofNat (2 * items.length)) 0x345678 1000003 items
  | builtin found => some (hashBytes ⟨found.name.toArray⟩)
  | range _ | list _ | dict _ => Option.none

def hashAll (growth hash multiplier : UInt32) : List Value → Option UInt32
  | [] => some hash
  | first :: rest =>
      match first.hash? with
      | some found =>
          hashAll growth (hash ^^^ found * multiplier) (multiplier + 82520 + growth) rest
      | Option.none => Option.none

end

/-! ### Equality without a store -/

/-- Equality of two values that have no elements. Numbers are equal when their mathematical values
are; other values of different types never are. -/
def same : Value → Value → Bool
  | none, none => true
  | bool first, bool second => first == second
  | int first, int second => first == second
  | int first, float second => Real.compareInt first second == .eq
  | float first, int second => Real.compareInt second first == .eq
  | float first, float second => Real.compareFloat first second == .eq
  | string first, string second => first == second
  | range first, range second => first.same second
  | builtin first, builtin second => first == second
  | _, _ => false

/-- Whether two lists of one length agree element by element; the first difference decides. -/
def agree (same : Value → Value → Option Bool) : List Value → List Value → Option Bool
  | first :: firsts, second :: seconds =>
      match same first second with
      | some true => agree same firsts seconds
      | other => other
  | _, _ => some true

/-- How deep comparisons go. -/
def comparisonDepth : Nat := 10

/-- Equality of keys down to a nesting depth, beyond which there is no answer. -/
def sameKey : Nat → Value → Value → Option Bool
  | 0, _, _ => Option.none
  | depth + 1, tuple first, tuple second =>
      if first.length = second.length then agree (sameKey depth) first second else some false
  | _ + 1, first, second => some (same first second)

end Value

/-! ### Elements -/

inductive Elements where
  | listed (items : List Value)
  | counted (range : Range)

namespace Elements

def count {σ : Type} (visit : σ → Value → Option σ) (step : Int64) :
    Nat → Int64 → σ → Option σ
  | 0, _, state => some state
  | more + 1, current, state =>
      match visit state (.int current.toInt) with
      | some next => count visit step more (current + step) next
      | none => none

def fold {σ : Type} (visit : σ → Value → Option σ) (state : σ) : Elements → Option σ
  | listed items => items.foldlM visit state
  | counted range => count visit range.step range.size range.start state

/-- Whether an element passes a test; none is visited behind the first that does. -/
def any (test : Value → Bool) (elements : Elements) : Bool :=
  (elements.fold (fun _ item => if test item then none else some ()) ()).isNone

def take (limit : Nat) : Elements → List Value
  | listed items => items.take limit
  | counted range =>
      (List.range (min limit range.size)).map fun position =>
        .int (range.element (Int64.ofNat position)).toInt

def toArray (elements : Elements) : Array Value :=
  (elements.fold (fun (items : Array Value) item => some (items.push item)) #[]).getD #[]

end Elements

end Nibble.Expression
