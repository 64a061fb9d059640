import Nibble.Expression.Evaluation

set_option autoImplicit false

/-! What the program is put together with: an evaluator of expressions, and numbers as they are
written in English. Both are taken where this namespace is opened, and nowhere else. -/

namespace Nibble.Standard

scoped instance evaluator : Evaluator where
  run := Expression.execute

scoped instance locale : Locale where
  number := Numeral.grouped

end Nibble.Standard
