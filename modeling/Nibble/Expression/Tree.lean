import Nibble.Expression.Operator
import Nibble.Text.Basic

set_option autoImplicit false

/-! The trees of compile-time expressions. -/

namespace Nibble.Expression

mutual

inductive Tree where
  | integer (value : Nat)
  | float (value : Float)
  | string (bytes : Text)
  | name (name : Text)
  /-- A bound that is left out of a slice. -/
  | omitted
  | list (items : List Tree)
  | tuple (items : List Tree)
  | dict (entries : List Entry)
  /-- A comprehension, told from others by the number of tokens behind its opening bracket. -/
  | listOf (place : Nat) (clauses : Clauses)
  | dictOf (place : Nat) (clauses : Clauses)
  | unary (operator : UnaryOperator) (operand : Tree)
  | binary (operator : BinaryOperator) (left right : Tree)
  | conditional (condition yes no : Tree)
  | call (callee : Tree) (arguments : List Argument)
  | index (subject position : Tree)
  | slice (subject low high step : Tree)
  | attribute (subject : Tree) (name : Text)

inductive Entry where
  | pair (key value : Tree)

inductive Argument where
  | positional (value : Tree)
  | named (name : Text) (value : Tree)
  /-- A value whose elements are positional arguments. -/
  | spread (value : Tree)
  /-- A dictionary whose entries are named arguments. -/
  | spreadNamed (value : Tree)

/-- The clauses of a comprehension, and what it yields after the last of them. -/
inductive Clauses where
  | item (value : Tree)
  | entry (key value : Tree)
  | each (target subject : Tree) (rest : Clauses)
  | filter (condition : Tree) (rest : Clauses)

end

end Nibble.Expression
