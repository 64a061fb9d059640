import Nibble.Expression.Value
import Nibble.Table
import Std.Data.HashMap

set_option autoImplicit false

/-! What a running script holds: the cells of its lists and dictionaries, and its variables. -/

namespace Nibble.Expression

/-! ### Dictionaries -/

namespace Dict

structure Entry where
  hash : UInt32
  key : Value
  value : Value

end Dict

/-- The entries of a dictionary in the order of their insertion. The places of the keys with one
hash are in that order too. -/
structure Dict where
  entries : Array Dict.Entry := #[]
  places : Std.HashMap UInt32 (List Nat) := {}

namespace Dict

/-- The place of a key among places; a key that cannot be compared leaves the search without an
answer. -/
def search (dict : Dict) (key : Value) : List Nat → Option (Option Nat)
  | [] => some none
  | place :: rest =>
      match dict.entries[place]? with
      | none => search dict key rest
      | some entry =>
          match Value.sameKey Value.comparisonDepth key entry.key with
          | none => none
          | some true => some (some place)
          | some false => search dict key rest

/-- The place of a key with a hash. Only keys of that hash are compared with it. -/
def place? (dict : Dict) (hash : UInt32) (key : Value) : Option (Option Nat) :=
  dict.search key ((dict.places[hash]?).getD [])

/-- The value under a key, if there is one; no answer for a value that is no key. -/
def find? (dict : Dict) (key : Value) : Option (Option Value) := do
  let hash ← key.hash?
  match ← dict.place? hash key with
  | none => return none
  | some place => return (dict.entries[place]?).map Entry.value

/-- Sets the value under a key, which keeps its place if it has one already. -/
def insert (dict : Dict) (key value : Value) : Option Dict := do
  let hash ← key.hash?
  match ← dict.place? hash key with
  | some place =>
      return { dict with entries := dict.entries.modify place fun entry => { entry with value } }
  | none =>
      let place := dict.entries.size
      let places := dict.places.alter hash fun known => some ((known.getD []) ++ [place])
      return { entries := dict.entries.push ⟨hash, key, value⟩, places }

def size (dict : Dict) : Nat :=
  dict.entries.size

def keys (dict : Dict) : List Value :=
  dict.entries.toList.map Entry.key

/-- The entries of one dictionary and then those of another, up to the first that cannot be
inserted. -/
def union (first second : Dict) : Dict :=
  insertAll first second.entries.toList
where
  insertAll (dict : Dict) : List Entry → Dict
    | [] => dict
    | entry :: rest =>
        match dict.insert entry.key entry.value with
        | some larger => insertAll larger rest
        | none => dict

end Dict

/-! ### Cells -/

/-- What a cell holds: the elements of a list or a dictionary. -/
inductive Contents where
  | items (items : Array Value)
  | entries (dict : Dict)

/-- The contents of a cell, and how many loops are going through them at present. -/
structure Cell where
  contents : Contents
  loops : Nat := 0

/-- Cells, loop variables by the place of their comprehension, and the variables of the script. -/
structure Store where
  cells : Array Cell := #[]
  locals : List (Nat × Table Value) := []
  globals : Table Value := []

/-- A computation on a store, which can fail. -/
abbrev Run := StateT Store Option

namespace Store

def items (store : Store) (cell : Nat) : Array Value :=
  match store.cells[cell]? with
  | some ⟨.items items, _⟩ => items
  | _ => #[]

def entries (store : Store) (cell : Nat) : Dict :=
  match store.cells[cell]? with
  | some ⟨.entries dict, _⟩ => dict
  | _ => {}

def allocate (contents : Contents) : Run Nat :=
  modifyGet fun store => (store.cells.size, { store with cells := store.cells.push { contents } })

def newList (items : Array Value) : Run Value :=
  return .list (← allocate (.items items))

def newDict (dict : Dict) : Run Value :=
  return .dict (← allocate (.entries dict))

/-- Whether a loop is going through a cell, so that it must not change. -/
def isLocked (store : Store) (cell : Nat) : Bool :=
  (store.cells[cell]?).any fun found => found.loops > 0

def countLoops (change : Nat → Nat) (value : Value) : Run Unit :=
  match value with
  | .list cell | .dict cell =>
      modify fun store => { store with
        cells := store.cells.modify cell fun found => { found with loops := change found.loops } }
  | _ => return ()

/-- Puts new contents into a cell that no loop is going through. -/
def replace (cell : Nat) (contents : Contents) : Run Unit := do
  if (← get).isLocked cell then failure
  modify fun store => { store with
    cells := store.cells.modify cell fun found => { found with contents } }

def truth (store : Store) : Value → Bool
  | .none => false
  | .bool value => value
  | .int value => value != 0
  | .float value => value != 0
  | .string bytes => bytes.size != 0
  | .tuple items => !items.isEmpty
  | .range range => 0 < range.length
  | .builtin _ => true
  | .list cell => !(store.items cell).isEmpty
  | .dict cell => (store.entries cell).size != 0

def elements? (store : Store) : Value → Option Elements
  | .tuple items => some (.listed items)
  | .range range => some (.counted range)
  | .list cell => some (.listed (store.items cell).toList)
  | .dict cell => some (.listed (store.entries cell).keys)
  | _ => none

def length? (store : Store) : Value → Option Int
  | .string bytes => some bytes.size
  | .tuple items => some items.length
  | .range range => some range.length.toInt
  | .list cell => some (store.items cell).size
  | .dict cell => some (store.entries cell).size
  | _ => none

/-! ### Variables -/

def local? (store : Store) (place : Nat) (name : Text) : Option Value :=
  (store.locals.lookup place).bind fun values => values.find? name

def setIn (place : Nat) (name : Text) (value : Value) :
    List (Nat × Table Value) → List (Nat × Table Value)
  | [] => [(place, [(name, value)])]
  | (found, values) :: rest =>
      if found = place then (found, values.set name value) :: rest
      else (found, values) :: setIn place name value rest

def setLocal (place : Nat) (name : Text) (value : Value) : Run Unit :=
  modify fun store => { store with locals := setIn place name value store.locals }

def setGlobal (name : Text) (value : Value) : Run Unit :=
  modify fun store => { store with globals := store.globals.set name value }

end Store

def Elements.each {σ : Type} (elements : Elements) (start : σ) (visit : σ → Value → Run σ) :
    Run σ := fun store =>
  elements.fold (fun (state, current) item => visit state item current) (start, store)

end Nibble.Expression
