import Nibble.Expression.Comparison
import Nibble.Expression.Format
import Nibble.Expression.Operator

set_option autoImplicit false

/-! What the operators do: arithmetic, concatenation and repetition, membership, indexes and
slices. -/

namespace Nibble.Expression

namespace Value

/-- No string or list may grow to this size by repetition. -/
def repetitionLimit : Nat := Nat.pow 2 30

/-- How often something of a size can be repeated: never where it is empty or the count is not
positive, and else so that the result keeps below the limit. -/
def repetitions? (size : Nat) (count : Int) : Option Nat :=
  if size = 0 then some 0
  else do
    let times ← small? (int count)
    if times < 1 then return 0
    if size * times.toNat ≥ repetitionLimit then Option.none else return times.toNat

/-- So many copies of something in a row, made by doubling. -/
def repeated {α : Type} (empty unit : α) (join : α → α → α) (times : Nat) : α :=
  if times = 0 then empty
  else
    let half := repeated empty unit join (times / 2)
    let twice := join half half
    if times % 2 = 1 then join twice unit else twice
termination_by times
decreasing_by omega

def pieceSize : Nat := Nat.pow 2 20

def repeatedBytes (unit : ByteArray) (times : Nat) : ByteArray :=
  let share := pieceSize / unit.size + 1
  let piece := repeated .empty unit (· ++ ·) (min share times)
  let whole := (List.range (times / share)).foldl (fun built _ => built ++ piece)
    (ByteArray.emptyWithCapacity (unit.size * times))
  if times < share then piece else whole ++ repeated .empty unit (· ++ ·) (times % share)

/-- The floating-point number of an integer or of itself. -/
def real? : Value → Option Float
  | int value => Real.ofInt? value
  | float value => some value
  | _ => Option.none

def realResult (operation : Float → Float → Float) (left right : Value) : Option Value := do
  let first ← left.real?
  let second ← right.real?
  return float (operation first second)

def quotient (operation : Float → Float → Float) (left right : Value) : Option Value := do
  let first ← left.real?
  let second ← right.real?
  if second == 0 then Option.none else return float (operation first second)

def subtract (left right : Value) : Option Value :=
  match left, right with
  | int first, int second => some (int (first - second))
  | _, _ => realResult (· - ·) left right

def floorDivide (left right : Value) : Option Value :=
  match left, right with
  | int first, int second => if second = 0 then Option.none else some (int (Int.fdiv first second))
  | _, _ => quotient (fun first second => (first / second).floor) left right

def remainder (left right : Value) : Option Value :=
  match left, right with
  | int first, int second => if second = 0 then Option.none else some (int (Int.fmod first second))
  | _, _ => quotient Real.floorRemainder left right

/-- An operation on the bits of two integers in two's complement. -/
def bitwise (operation : Bool → Bool → Bool) (left right : Int) : Int :=
  let width := max left.natAbs.log2 right.natAbs.log2 + 2
  let modulus := Nat.pow 2 width
  let first := (left % modulus).toNat
  let second := (right % modulus).toNat
  Int.bmod (Nat.bitwise operation first second : Nat) modulus

def combine (operation : Bool → Bool → Bool) (left right : Value) : Option Value :=
  match left, right with
  | int first, int second => some (int (bitwise operation first second))
  | _, _ => Option.none

/-- Integers are not shifted left by this many bits or more. -/
def shiftLimit : Int := 512

def shiftLeft (left right : Value) : Option Value :=
  match left with
  | int value => do
      let count ← right.small?
      if count < 0 ∨ count ≥ shiftLimit then Option.none
      else return int (value * Int.pow 2 count.toNat)
  | _ => Option.none

def shiftRight (left right : Value) : Option Value :=
  match left with
  | int value => do
      let count ← right.small?
      if count < 0 then Option.none else return int (value >>> count.toNat)
  | _ => Option.none

/-- A position among so many elements, negative ones counting from the end. -/
def position? (length : Int) (index : Value) : Option Nat := do
  let given ← index.small?
  let counted := if given < 0 then given + length else given
  if counted < 0 ∨ length ≤ counted then Option.none else return counted.toNat

/-! ### Slices -/

/-- A bound of a slice: absent, or counted from the end where it is negative. -/
def sliceBound (length absent : Int) : Value → Option Int
  | none => some absent
  | value => value.small?.map fun bound => if bound < 0 then bound + length else bound

/-- The first position of a slice, the one before which it ends, and the distance between two. -/
structure Cut where
  first : Int
  last : Int
  stride : Int

def cut? (length : Int) (low high step : Value) : Option Cut := do
  let stride ← match step with
    | none => some 1
    | value => value.small?
  if stride = 0 then Option.none
  else if 0 < stride then
    let start ← sliceBound length 0 low
    let stop ← sliceBound length length high
    let first := if start < 0 then 0 else min start length
    let last := if stop < 0 then 0 else min stop length
    return ⟨first, max first last, stride⟩
  else
    let start ← sliceBound length (length - 1) low
    let stop ← sliceBound length (-1) high
    let first := min start (length - 1)
    let last := max stop (-1)
    return ⟨max first last, last, stride⟩

def Cut.size (cut : Cut) : Nat :=
  if 0 < cut.stride then ((cut.last - 1 - cut.first) / cut.stride + 1).toNat
  else ((cut.first - 1 - cut.last) / -cut.stride + 1).toNat

def Cut.pick {α : Type} (cut : Cut) (items : Array α) : List α :=
  (List.range cut.size).filterMap fun (turn : Nat) => items[(cut.first + cut.stride * turn).toNat]?

/-- The cut of a range, unless its steps vanish. -/
def Cut.ofRange (cut : Cut) (range : Range) : Option Range :=
  let step := range.step * Int64.ofInt cut.stride
  if step = 0 then Option.none
  else some ⟨range.element (Int64.ofInt cut.first), range.element (Int64.ofInt cut.last), step⟩

end Value

namespace Store

open Value (Cut)

def add (left right : Value) : Run Value := do
  match left, right with
  | .int first, .int second => return .int (first + second)
  | .string first, .string second => return .string (first ++ second)
  | .tuple first, .tuple second => return .tuple (first ++ second)
  | .list first, .list second =>
      let store ← get
      newList (store.items first ++ store.items second)
  | _, _ => Value.realResult (· + ·) left right

def multiply (left right : Value) : Run Value := do
  match left, right with
  | .int first, .int second => return .int (first * second)
  | .int count, .string bytes | .string bytes, .int count =>
      let times ← Value.repetitions? bytes.size count
      return .string (Value.repeatedBytes bytes times)
  | .int count, .tuple items | .tuple items, .int count =>
      let times ← Value.repetitions? items.length count
      return .tuple (Value.repeated [] items (· ++ ·) times)
  | .int count, .list cell | .list cell, .int count =>
      let items := (← get).items cell
      let times ← Value.repetitions? items.size count
      newList (Value.repeated #[] items (· ++ ·) times)
  | _, _ => Value.realResult (· * ·) left right

def unite (left right : Value) : Run Value := do
  match left, right with
  | .dict first, .dict second =>
      let store ← get
      newDict ((store.entries first).union (store.entries second))
  | _, _ => Value.combine or left right

def remainder (left right : Value) : Run Value := do
  match left with
  | .string format => return .ofText (← (← get).interpolate format.toList right)
  | _ => Value.remainder left right

def boolean (result : Option Bool) : Run Value :=
  return .bool (← result)

/-- A binary operator on two values; `or` and `and` are not among them, since they may leave the
second operand alone. -/
def binary (operator : BinaryOperator) (left right : Value) : Run Value := do
  match operator with
  | .or | .and => failure
  | .equal => boolean ((← get).equal left right)
  | .unequal => boolean (((← get).equal left right).map not)
  | .less => boolean (((← get).order left right).map (· == .lt))
  | .greater => boolean (((← get).order left right).map (· == .gt))
  | .lessEqual => boolean (((← get).order left right).map (· != .gt))
  | .greaterEqual => boolean (((← get).order left right).map (· != .lt))
  | .member => boolean ((← get).isIn left right)
  | .absent => boolean (((← get).isIn left right).map not)
  | .bitOr => unite left right
  | .bitXor => Value.combine xor left right
  | .bitAnd => Value.combine and left right
  | .shiftLeft => Value.shiftLeft left right
  | .shiftRight => Value.shiftRight left right
  | .add => add left right
  | .subtract => Value.subtract left right
  | .multiply => multiply left right
  | .divide => Value.quotient (· / ·) left right
  | .floorDivide => Value.floorDivide left right
  | .remainder => remainder left right

def unary (store : Store) (operator : UnaryOperator) (operand : Value) : Option Value :=
  match operator, operand with
  | .not, value => some (.bool !store.truth value)
  | .plus, .int value => some (.int value)
  | .plus, .float value => some (.float value)
  | .minus, .int value => some (.int (-value))
  | .minus, .float value => some (.float (-value))
  | .invert, .int value => some (.int (-value - 1))
  | _, _ => none

def index (store : Store) (subject index : Value) : Option Value :=
  match subject with
  | .dict cell => ((store.entries cell).find? index).join
  | .string bytes => do
      let place ← Value.position? bytes.size index
      return .string (bytes.extract place (place + 1))
  | .tuple items => (Value.position? items.length index).bind fun place => items[place]?
  | .list cell =>
      (Value.position? (store.items cell).size index).bind fun place => (store.items cell)[place]?
  | .range range =>
      (Value.position? range.length.toInt index).map fun place =>
        .int (range.element (Int64.ofNat place)).toInt
  | _ => none

def setIndex (subject index value : Value) : Run Unit := do
  match subject with
  | .dict cell =>
      let dict ← ((← get).entries cell).insert index value
      replace cell (.entries dict)
  | .list cell =>
      let items := (← get).items cell
      let place ← Value.position? items.size index
      replace cell (.items (items.setIfInBounds place value))
  | _ => failure

/-- An operator together with an assignment: a list takes further elements, and a dictionary further
entries, in its own place. -/
def inPlace (operator : BinaryOperator) (left right : Value) : Run Value := do
  match operator, left, right with
  | .add, .list cell, right =>
      let store ← get
      match store.elements? right with
      | some elements =>
          replace cell (.items (store.items cell ++ elements.toArray))
          return left
      | none => failure
  | .bitOr, .dict cell, .dict other =>
      let store ← get
      replace cell (.entries ((store.entries cell).union (store.entries other)))
      return left
  | operator, left, right => binary operator left right

def slice (subject low high step : Value) : Run Value := do
  let store ← get
  let length ← store.length? subject
  let cut ← Value.cut? length low high step
  match subject with
  | .string bytes => return .ofText (cut.pick bytes.data)
  | .tuple items => return .tuple (cut.pick items.toArray)
  | .list cell => newList (cut.pick (store.items cell)).toArray
  | .range range => return .range (← cut.ofRange range)
  | _ => failure

end Store

end Nibble.Expression
