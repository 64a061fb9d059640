import Nibble.Expression.Store
import Nibble.Text.Quoted
import Std.Data.TreeSet

set_option autoImplicit false

/-! The text of values. A list or dictionary that is inside itself is written with an ellipsis
there. -/

namespace Nibble.Expression

open Text (ascii)

def Range.text (range : Range) : Text :=
  let bounds :=
    if range.step ≠ 1 then [range.start, range.stop, range.step]
    else if range.start ≠ 0 then [range.start, range.stop]
    else [range.stop]
  ascii "range("
    ++ List.intercalate (ascii ", ") (bounds.map fun bound => Numeral.signed bound.toInt)
    ++ ascii ")"

namespace Value

mutual

/-- Puts the text of a value, as it stands inside a list, before a text; cells are written as
given. -/
def write (writeCell : Nat → Text → Text) (behind : Text) : Value → Text
  | none => ascii "None" ++ behind
  | bool value => (if value then ascii "True" else ascii "False") ++ behind
  | int value => Numeral.signedLong value ++ behind
  | float value => Real.text value ++ behind
  | string bytes => Text.quoted bytes.toList ++ behind
  | tuple [] => ascii "()" ++ behind
  | tuple [single] => ascii "(" ++ single.write writeCell (ascii ",)" ++ behind)
  | tuple (first :: rest) =>
      ascii "(" ++ first.write writeCell (writeRest writeCell (ascii ")" ++ behind) rest)
  | range found => found.text ++ behind
  | builtin found => ascii "<built-in function " ++ found.name ++ ascii ">" ++ behind
  | list cell => writeCell cell behind
  | dict cell => writeCell cell behind

/-- Puts further values before a text, each behind a comma. -/
def writeRest (writeCell : Nat → Text → Text) (behind : Text) : List Value → Text
  | [] => behind
  | first :: rest => ascii ", " ++ first.write writeCell (writeRest writeCell behind rest)

end

end Value

/-- Puts further entries before a text, each behind a separator. -/
def Dict.write (writeCell : Nat → Text → Text) (behind : Text) (separator : Text) :
    List Dict.Entry → Text
  | [] => behind
  | entry :: rest =>
      separator ++ entry.key.write writeCell
        (ascii ": " ++ entry.value.write writeCell
          (Dict.write writeCell behind (ascii ", ") rest))

/-- Puts the text of what a cell holds before a text. -/
def Contents.write (writeCell : Nat → Text → Text) (behind : Text) : Contents → Text
  | items found =>
      match found.toList with
      | [] => ascii "[]" ++ behind
      | first :: rest =>
          ascii "[" ++ first.write writeCell (Value.writeRest writeCell (ascii "]" ++ behind) rest)
  | entries dict =>
      ascii "\x7b" ++ Dict.write writeCell (ascii "\x7d" ++ behind) [] dict.entries.toList

/-- What is written instead of the contents of a cell that stands inside itself. -/
def Contents.ellipsis : Contents → Text
  | items _ => ascii "[...]"
  | entries _ => ascii "\x7b...\x7d"

namespace Store

/-- Puts the text of a cell, which stands inside others, before a text. As no cell is entered twice
on the way down, the first number need not exceed that of the cells. -/
def writeCell (store : Store) : Nat → Std.TreeSet Nat → Nat → Text → Text
  | 0, _, _, behind => behind
  | depth + 1, around, cell, behind =>
      match store.cells[cell]? with
      | none => behind
      | some found =>
          if around.contains cell then found.contents.ellipsis ++ behind
          else found.contents.write (writeCell store depth (around.insert cell)) behind

/-- The text of a value as it stands inside a list. -/
def literal (store : Store) (value : Value) : Text :=
  value.write (store.writeCell (store.cells.size + 1) {}) []

/-- The text of a value; a string is its own. -/
def text (store : Store) : Value → Text
  | .string bytes => bytes.toList
  | value => store.literal value

end Store

end Nibble.Expression
