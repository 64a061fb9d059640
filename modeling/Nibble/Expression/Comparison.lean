import Nibble.Expression.Store

set_option autoImplicit false

/-! Equality and order of values. Both look into lists, tuples and dictionaries down to a limited
depth, beyond which there is no answer. -/

namespace Nibble.Expression

namespace Store

/-- Whether every entry is in another dictionary with an equal value. A key that cannot be looked
up there is not in it. -/
def agreeEntries (same : Value → Value → Option Bool) (other : Dict) :
    List Dict.Entry → Option Bool
  | [] => some true
  | entry :: rest =>
      match other.find? entry.key with
      | some (some found) =>
          match same entry.value found with
          | some true => agreeEntries same other rest
          | decided => decided
      | _ => some false

/-- Equality down to a nesting depth. -/
def equalTo (store : Store) : Nat → Value → Value → Option Bool
  | 0, _, _ => none
  | depth + 1, left, right =>
      match left, right with
      | .tuple first, .tuple second =>
          if first.length = second.length then Value.agree (equalTo store depth) first second
          else some false
      | .list first, .list second =>
          if (store.items first).size = (store.items second).size then
            Value.agree (equalTo store depth) (store.items first).toList (store.items second).toList
          else some false
      | .dict first, .dict second =>
          if (store.entries first).size = (store.entries second).size then
            agreeEntries (equalTo store depth) (store.entries second)
              (store.entries first).entries.toList
          else some false
      | left, right => some (Value.same left right)

def compareBytes : Text → Text → Ordering
  | [], [] => .eq
  | [], _ :: _ => .lt
  | _ :: _, [] => .gt
  | first :: firsts, second :: seconds =>
      if first < second then .lt
      else if second < first then .gt
      else compareBytes firsts seconds

/-- The order of two lists: that of the first elements that differ, else that of the lengths. -/
def compareLists (same : Value → Value → Option Bool) (order : Value → Value → Option Ordering) :
    List Value → List Value → Option Ordering
  | [], [] => some .eq
  | [], _ :: _ => some .lt
  | _ :: _, [] => some .gt
  | first :: firsts, second :: seconds =>
      match same first second with
      | some true => compareLists same order firsts seconds
      | some false => order first second
      | none => none

/-- The order of two values of one type, or of two numbers, down to a nesting depth. -/
def orderTo (store : Store) : Nat → Value → Value → Option Ordering
  | 0, _, _ => none
  | depth + 1, left, right =>
      match left, right with
      | .bool first, .bool second => some (compare first.toNat second.toNat)
      | .int first, .int second => some (compare first second)
      | .int first, .float second => some (Real.compareInt first second)
      | .float first, .int second => some (Real.compareInt second first).swap
      | .float first, .float second => some (Real.compareFloat first second)
      | .string first, .string second => some (compareBytes first.toList second.toList)
      | .tuple first, .tuple second =>
          compareLists (equalTo store depth) (orderTo store depth) first second
      | .list first, .list second =>
          compareLists (equalTo store depth) (orderTo store depth)
            (store.items first).toList (store.items second).toList
      | _, _ => none

def equal (store : Store) (left right : Value) : Option Bool :=
  store.equalTo Value.comparisonDepth left right

def order (store : Store) (left right : Value) : Option Ordering :=
  store.orderTo Value.comparisonDepth left right

/-- Whether bytes stand at one of so many positions from one on. -/
def occursFrom (needle bytes : ByteArray) : Nat → Nat → Bool
  | 0, _ => false
  | more + 1, position =>
      bytes.extract position (position + needle.size) == needle ||
        occursFrom needle bytes more (position + 1)

def occursIn (needle bytes : ByteArray) : Bool :=
  occursFrom needle bytes (bytes.size + 1 - needle.size) 0

/-- Whether an element equals a value; the first one that cannot be compared decides. -/
def isAmong (store : Store) (value : Value) : List Value → Option Bool
  | [] => some false
  | first :: rest =>
      match store.equal first value with
      | some false => isAmong store value rest
      | other => other

/-- Whether a value is in a container. What cannot be a key is in no dictionary. -/
def isIn (store : Store) (value container : Value) : Option Bool :=
  match container with
  | .tuple items => store.isAmong value items
  | .list cell => store.isAmong value (store.items cell).toList
  | .dict cell => some (((store.entries cell).find? value).join.isSome)
  | .string bytes =>
      match value with
      | .string needle => some (occursIn needle bytes)
      | _ => none
  | .range range => value.integer?.map range.has
  | _ => none

end Store

end Nibble.Expression
