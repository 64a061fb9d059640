set_option autoImplicit false

/-! The operators of compile-time expressions. -/

namespace Nibble.Expression

inductive UnaryOperator where
  | plus
  | minus
  | invert
  | not
deriving DecidableEq, Repr

inductive BinaryOperator where
  | or
  | and
  | equal
  | unequal
  | less
  | greater
  | lessEqual
  | greaterEqual
  | member
  | absent
  | bitOr
  | bitXor
  | bitAnd
  | shiftLeft
  | shiftRight
  | add
  | subtract
  | multiply
  | divide
  | floorDivide
  | remainder
deriving DecidableEq, Repr

end Nibble.Expression
