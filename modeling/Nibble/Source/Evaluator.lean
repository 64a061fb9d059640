import Nibble.Failure
import Nibble.Table

set_option autoImplicit false

/-! The evaluator of compile-time expressions. It is a language of its own, of which the assembler
knows how to run a script and how to tell an integer among the globals that the script leaves. -/

namespace Nibble

/-- What a script leaves in a global name, as far as the assembler looks at it. -/
inductive Global where
  | integer (value : Int)
  | other
deriving DecidableEq, Repr

class Evaluator where
  run (script : Text) (numbers : Table Nat) : Except ExpressionError (Table Global)

end Nibble
