import Nibble.Expression.Token
import Nibble.Expression.Tree

set_option autoImplicit false

/-! The grammar of compile-time expressions. From the weakest binding to the strongest: a
conditional, `or`, `and`, `not`, one comparison, `|`, `^`, `&`, the shifts, the sums, the products,
a sign, and calls and indexes. Every parse leaves fewer tokens than it was given. -/

namespace Nibble.Expression

namespace Grammar

/-- A parsed part and the tokens after it, of which there are fewer than a limit. -/
structure Parsed (limit : Nat) (α : Type) where
  value : α
  rest : List Token
  shorter : rest.length < limit

/-- The operator of a mark, and its level; comparisons are level 3. -/
def markOperator? : Mark → Option (BinaryOperator × Nat)
  | .equal => some (.equal, 3)
  | .unequal => some (.unequal, 3)
  | .less => some (.less, 3)
  | .greater => some (.greater, 3)
  | .lessEqual => some (.lessEqual, 3)
  | .greaterEqual => some (.greaterEqual, 3)
  | .bar => some (.bitOr, 4)
  | .caret => some (.bitXor, 5)
  | .ampersand => some (.bitAnd, 6)
  | .shiftLeft => some (.shiftLeft, 7)
  | .shiftRight => some (.shiftRight, 7)
  | .plus => some (.add, 8)
  | .minus => some (.subtract, 8)
  | .star => some (.multiply, 9)
  | .slash => some (.divide, 9)
  | .floor => some (.floorDivide, 9)
  | .percent => some (.remainder, 9)
  | _ => none

/-- The level of comparisons, which do not chain. -/
def comparisonLevel : Nat := 3

/-- The level of negation, which binds weaker than comparisons. -/
def negationLevel : Nat := 2

def operatorAt (tokens : List Token) : Option (Parsed tokens.length (BinaryOperator × Nat)) :=
  match tokens with
  | .keyword .or :: rest => some ⟨(.or, 0), rest, by simp⟩
  | .keyword .and :: rest => some ⟨(.and, 1), rest, by simp⟩
  | .keyword .member :: rest => some ⟨(.member, 3), rest, by simp⟩
  | .keyword .not :: .keyword .member :: rest =>
      some ⟨(.absent, 3), rest, by simp only [List.length_cons]; omega⟩
  | .mark mark :: rest => (markOperator? mark).map fun found => ⟨found, rest, by simp⟩
  | _ => none

def signOf : Mark → Option UnaryOperator
  | .plus => some .plus
  | .minus => some .minus
  | .tilde => some .invert
  | _ => none

/-- Whether nothing more of a list of expressions can follow. -/
def endsList : List Token → Bool
  | [] => true
  | .newline :: _ => true
  | .mark mark :: _ =>
      mark == .assign || mark == .closeBrace || mark == .closeBracket || mark == .closeParen
        || mark == .semicolon
  | _ => false

def mark? (expected : Mark) (tokens : List Token) : Option (Parsed tokens.length Unit) :=
  match tokens with
  | .mark found :: rest => if found = expected then some ⟨(), rest, by simp⟩ else none
  | _ => none

mutual

/-- An expression, or a tuple of them without parentheses. -/
def expression (trailingComma : Bool) (tokens : List Token) : Option (Parsed tokens.length Tree) :=
  match single tokens with
  | none => none
  | some ⟨first, rest, shorter⟩ =>
      match rest, shorter with
      | .mark .comma :: more, shorter =>
          match items trailingComma (.mark .comma :: more) with
          | none => none
          | some ⟨others, after, fewer⟩ =>
              some ⟨.tuple (first :: others), after, by simp only [List.length_cons] at *; omega⟩
      | rest, shorter => some ⟨first, rest, shorter⟩
termination_by 8 * tokens.length + 5
decreasing_by all_goals ((try simp only [List.length_cons] at *); omega)

/-- Further expressions, each behind a comma. -/
def items (trailingComma : Bool) (tokens : List Token) :
    Option (Parsed (tokens.length + 1) (List Tree)) :=
  match tokens with
  | .mark .comma :: rest =>
      if endsList rest then
        if trailingComma then some ⟨[], rest, by simp only [List.length_cons]; omega⟩ else none
      else
        match single rest with
        | none => none
        | some ⟨first, after, shorter⟩ =>
            match items trailingComma after with
            | none => none
            | some ⟨others, last, fewer⟩ =>
                some ⟨first :: others, last, by simp only [List.length_cons]; omega⟩
  | tokens => some ⟨[], tokens, by omega⟩
termination_by 8 * tokens.length
decreasing_by all_goals ((try simp only [List.length_cons] at *); omega)

/-- A single expression: a conditional, or what binds stronger. -/
def single (tokens : List Token) : Option (Parsed tokens.length Tree) :=
  match binary 0 tokens with
  | none => none
  | some ⟨yes, rest, shorter⟩ =>
      match rest, shorter with
      | .keyword .condition :: afterIf, shorter =>
          match binary 0 afterIf with
          | none => none
          | some ⟨condition, middle, fewer⟩ =>
              match middle, fewer with
              | .keyword .otherwise :: afterElse, fewer =>
                  match single afterElse with
                  | none => none
                  | some ⟨no, last, least⟩ =>
                      some ⟨.conditional condition yes no, last, by
                        simp only [List.length_cons] at *; omega⟩
              | _, _ => none
      | rest, shorter => some ⟨yes, rest, shorter⟩
termination_by 8 * tokens.length + 4
decreasing_by all_goals ((try simp only [List.length_cons] at *); omega)

/-- Operands joined by operators of at least a level. -/
def binary (minimum : Nat) (tokens : List Token) : Option (Parsed tokens.length Tree) :=
  match tokens with
  | .keyword .not :: rest =>
      if minimum > negationLevel then none
      else
        match binary negationLevel rest with
        | none => none
        | some ⟨operand, after, shorter⟩ =>
            match operators minimum negationLevel (.unary .not operand) after with
            | none => none
            | some ⟨tree, last, fewer⟩ => some ⟨tree, last, by simp only [List.length_cons]; omega⟩
  | tokens =>
      match operand tokens with
      | none => none
      | some ⟨left, rest, shorter⟩ =>
          match operators minimum 10 left rest with
          | none => none
          | some ⟨tree, last, fewer⟩ => some ⟨tree, last, by omega⟩
termination_by 8 * tokens.length + 3
decreasing_by all_goals ((try simp only [List.length_cons] at *); omega)

/-- Continues a left operand, the level of whose operator is given, with further operators. -/
def operators (minimum level : Nat) (left : Tree) (tokens : List Token) :
    Option (Parsed (tokens.length + 1) Tree) :=
  match operatorAt tokens with
  | none => some ⟨left, tokens, by omega⟩
  | some ⟨(operator, found), rest, shorter⟩ =>
      if found < minimum then some ⟨left, tokens, by omega⟩
      else if found = comparisonLevel ∧ level = comparisonLevel then none
      else
        match binary (found + 1) rest with
        | none => none
        | some ⟨right, after, fewer⟩ =>
            match operators minimum found (.binary operator left right) after with
            | none => none
            | some ⟨tree, last, least⟩ => some ⟨tree, last, by omega⟩
termination_by 8 * tokens.length
decreasing_by all_goals omega

/-- A primary expression with its calls, indexes and attributes. -/
def operand (tokens : List Token) : Option (Parsed tokens.length Tree) :=
  match primary tokens with
  | none => none
  | some ⟨tree, rest, shorter⟩ =>
      match suffixes tree rest with
      | none => none
      | some ⟨whole, last, fewer⟩ => some ⟨whole, last, by omega⟩
termination_by 8 * tokens.length + 2
decreasing_by all_goals omega

def suffixes (tree : Tree) (tokens : List Token) : Option (Parsed (tokens.length + 1) Tree) :=
  match tokens with
  | .mark .dot :: .name name :: rest =>
      match suffixes (.attribute tree name) rest with
      | none => none
      | some ⟨whole, last, fewer⟩ => some ⟨whole, last, by simp only [List.length_cons]; omega⟩
  | .mark .openParen :: rest =>
      match arguments rest with
      | none => none
      | some ⟨given, after, shorter⟩ =>
          match suffixes (.call tree given) after with
          | none => none
          | some ⟨whole, last, fewer⟩ => some ⟨whole, last, by simp only [List.length_cons]; omega⟩
  | .mark .openBracket :: rest =>
      match subscript tree rest with
      | none => none
      | some ⟨indexed, after, shorter⟩ =>
          match suffixes indexed after with
          | none => none
          | some ⟨whole, last, fewer⟩ => some ⟨whole, last, by simp only [List.length_cons]; omega⟩
  | .mark .dot :: _ => none
  | tokens => some ⟨tree, tokens, by omega⟩
termination_by 8 * tokens.length
decreasing_by all_goals ((try simp only [List.length_cons] at *); omega)

def subscript (tree : Tree) (tokens : List Token) : Option (Parsed tokens.length Tree) :=
  match tokens with
  | .mark .colon :: rest => bounds tree .omitted (.mark .colon :: rest)
  | tokens =>
      match expression false tokens with
      | none => none
      | some ⟨position, rest, shorter⟩ =>
          match rest, shorter with
          | .mark .closeBracket :: last, shorter =>
              some ⟨.index tree position, last, by simp only [List.length_cons] at *; omega⟩
          | rest, shorter =>
              match bounds tree position rest with
              | none => none
              | some ⟨whole, last, fewer⟩ => some ⟨whole, last, by omega⟩
termination_by 8 * tokens.length + 7
decreasing_by all_goals ((try simp only [List.length_cons] at *); omega)

def bounds (tree low : Tree) (tokens : List Token) : Option (Parsed tokens.length Tree) :=
  match bound tokens with
  | none => none
  | some ⟨high, middle, shorter⟩ =>
      match bound middle with
      | none => none
      | some ⟨step, rest, fewer⟩ =>
          match mark? .closeBracket rest with
          | none => none
          | some ⟨_, last, least⟩ => some ⟨.slice tree low high step, last, by omega⟩
termination_by 8 * tokens.length + 6
decreasing_by all_goals omega

/-- A bound behind a colon; both may be missing. -/
def bound (tokens : List Token) : Option (Parsed (tokens.length + 1) Tree) :=
  match tokens with
  | .mark .colon :: rest =>
      match rest with
      | .mark .colon :: more =>
          some ⟨.omitted, .mark .colon :: more, by simp only [List.length_cons]; omega⟩
      | .mark .closeBracket :: more =>
          some ⟨.omitted, .mark .closeBracket :: more, by simp only [List.length_cons]; omega⟩
      | rest =>
          match single rest with
          | none => none
          | some ⟨tree, last, shorter⟩ => some ⟨tree, last, by simp only [List.length_cons]; omega⟩
  | tokens => some ⟨.omitted, tokens, by omega⟩
termination_by 8 * tokens.length + 5
decreasing_by all_goals ((try simp only [List.length_cons] at *); omega)

def arguments (tokens : List Token) : Option (Parsed tokens.length (List Argument)) :=
  match tokens with
  | .mark .closeParen :: rest => some ⟨[], rest, by simp⟩
  | tokens =>
      match argument tokens with
      | none => none
      | some ⟨first, rest, shorter⟩ =>
          match rest, shorter with
          | .mark .closeParen :: last, shorter =>
              some ⟨[first], last, by simp only [List.length_cons] at *; omega⟩
          | .mark .comma :: more, shorter =>
              match arguments more with
              | none => none
              | some ⟨others, last, fewer⟩ =>
                  some ⟨first :: others, last, by simp only [List.length_cons] at *; omega⟩
          | _, _ => none
termination_by 8 * tokens.length + 6
decreasing_by all_goals ((try simp only [List.length_cons] at *); omega)

def argument (tokens : List Token) : Option (Parsed tokens.length Argument) :=
  match tokens with
  | .mark .star :: rest =>
      match single rest with
      | none => none
      | some ⟨value, last, shorter⟩ =>
          some ⟨.spread value, last, by simp only [List.length_cons]; omega⟩
  | .mark .power :: rest =>
      match single rest with
      | none => none
      | some ⟨value, last, shorter⟩ =>
          some ⟨.spreadNamed value, last, by simp only [List.length_cons]; omega⟩
  | .name name :: .mark .assign :: rest =>
      match single rest with
      | none => none
      | some ⟨value, last, shorter⟩ =>
          some ⟨.named name value, last, by simp only [List.length_cons]; omega⟩
  | tokens =>
      match single tokens with
      | none => none
      | some ⟨value, last, shorter⟩ => some ⟨.positional value, last, shorter⟩
termination_by 8 * tokens.length + 5
decreasing_by all_goals ((try simp only [List.length_cons] at *); omega)

def primary (tokens : List Token) : Option (Parsed tokens.length Tree) :=
  match tokens with
  | .name name :: rest => some ⟨.name name, rest, by simp⟩
  | .integer value :: rest => some ⟨.integer value, rest, by simp⟩
  | .float value :: rest => some ⟨.float value, rest, by simp⟩
  | .string bytes :: rest => some ⟨.string bytes, rest, by simp⟩
  | .mark .openParen :: .mark .closeParen :: rest =>
      some ⟨.tuple [], rest, by simp only [List.length_cons]; omega⟩
  | .mark .openParen :: rest =>
      match expression true rest with
      | none => none
      | some ⟨tree, after, shorter⟩ =>
          match mark? .closeParen after with
          | none => none
          | some ⟨_, last, fewer⟩ => some ⟨tree, last, by simp only [List.length_cons]; omega⟩
  | .mark .openBracket :: .mark .closeBracket :: rest =>
      some ⟨.list [], rest, by simp only [List.length_cons]; omega⟩
  | .mark .openBracket :: rest =>
      match single rest with
      | none => none
      | some ⟨first, after, shorter⟩ =>
          match after, shorter with
          | .keyword .each :: more, shorter =>
              match clauses .closeBracket (.item first) (.keyword .each :: more) with
              | none => none
              | some ⟨found, last, fewer⟩ =>
                  some ⟨.listOf rest.length found, last, by
                    simp only [List.length_cons] at *; omega⟩
          | after, shorter =>
              match items true after with
              | none => none
              | some ⟨others, behind, fewer⟩ =>
                  match mark? .closeBracket behind with
                  | none => none
                  | some ⟨_, last, least⟩ =>
                      some ⟨.list (first :: others), last, by simp only [List.length_cons]; omega⟩
  | .mark .openBrace :: .mark .closeBrace :: rest =>
      some ⟨.dict [], rest, by simp only [List.length_cons]; omega⟩
  | .mark .openBrace :: rest =>
      match entry rest with
      | none => none
      | some ⟨.pair key value, after, shorter⟩ =>
          match after, shorter with
          | .keyword .each :: more, shorter =>
              match clauses .closeBrace (.entry key value) (.keyword .each :: more) with
              | none => none
              | some ⟨found, last, fewer⟩ =>
                  some ⟨.dictOf rest.length found, last, by
                    simp only [List.length_cons] at *; omega⟩
          | after, shorter =>
              match entries after with
              | none => none
              | some ⟨others, behind, fewer⟩ =>
                  match mark? .closeBrace behind with
                  | none => none
                  | some ⟨_, last, least⟩ =>
                      some ⟨.dict (.pair key value :: others), last, by
                        simp only [List.length_cons]; omega⟩
  | .mark mark :: rest =>
      match signOf mark with
      | none => none
      | some operator =>
          match operand rest with
          | none => none
          | some ⟨tree, last, shorter⟩ =>
              some ⟨.unary operator tree, last, by simp only [List.length_cons]; omega⟩
  | _ => none
termination_by 8 * tokens.length + 1
decreasing_by all_goals ((try simp only [List.length_cons] at *); omega)

def entry (tokens : List Token) : Option (Parsed tokens.length Entry) :=
  match single tokens with
  | none => none
  | some ⟨key, rest, shorter⟩ =>
      match rest, shorter with
      | .mark .colon :: more, shorter =>
          match single more with
          | none => none
          | some ⟨value, last, fewer⟩ =>
              some ⟨.pair key value, last, by simp only [List.length_cons] at *; omega⟩
      | _, _ => none
termination_by 8 * tokens.length + 5
decreasing_by all_goals ((try simp only [List.length_cons] at *); omega)

/-- Further entries, each behind a comma; a last comma may stand before the closing brace. -/
def entries (tokens : List Token) : Option (Parsed (tokens.length + 1) (List Entry)) :=
  match tokens with
  | .mark .comma :: .mark .closeBrace :: rest =>
      some ⟨[], .mark .closeBrace :: rest, by simp only [List.length_cons]; omega⟩
  | .mark .comma :: rest =>
      match entry rest with
      | none => none
      | some ⟨first, after, shorter⟩ =>
          match entries after with
          | none => none
          | some ⟨others, last, fewer⟩ =>
              some ⟨first :: others, last, by simp only [List.length_cons]; omega⟩
  | tokens => some ⟨[], tokens, by omega⟩
termination_by 8 * tokens.length
decreasing_by all_goals ((try simp only [List.length_cons] at *); omega)

/-- The clauses of a comprehension, up to the closing bracket. -/
def clauses (closing : Mark) (yielded : Clauses) (tokens : List Token) :
    Option (Parsed tokens.length Clauses) :=
  match tokens with
  | .keyword .each :: rest =>
      match targets rest with
      | none => none
      | some ⟨target, middle, shorter⟩ =>
          match middle, shorter with
          | .keyword .member :: more, shorter =>
              match binary 0 more with
              | none => none
              | some ⟨subject, after, fewer⟩ =>
                  match clauses closing yielded after with
                  | none => none
                  | some ⟨others, last, least⟩ =>
                      some ⟨.each target subject others, last, by
                        simp only [List.length_cons] at *; omega⟩
          | _, _ => none
  | .keyword .condition :: rest =>
      match binary 0 rest with
      | none => none
      | some ⟨condition, after, shorter⟩ =>
          match clauses closing yielded after with
          | none => none
          | some ⟨others, last, fewer⟩ =>
              some ⟨.filter condition others, last, by simp only [List.length_cons]; omega⟩
  | .mark mark :: rest => if mark = closing then some ⟨yielded, rest, by simp⟩ else none
  | _ => none
termination_by 8 * tokens.length
decreasing_by all_goals ((try simp only [List.length_cons] at *); omega)

def targets (tokens : List Token) : Option (Parsed tokens.length Tree) :=
  match operand tokens with
  | none => none
  | some ⟨first, rest, shorter⟩ =>
      match rest, shorter with
      | .mark .comma :: more, shorter =>
          match moreTargets (.mark .comma :: more) with
          | none => none
          | some ⟨others, last, fewer⟩ =>
              some ⟨.tuple (first :: others), last, by simp only [List.length_cons] at *; omega⟩
      | rest, shorter => some ⟨first, rest, shorter⟩
termination_by 8 * tokens.length + 3
decreasing_by all_goals ((try simp only [List.length_cons] at *); omega)

def moreTargets (tokens : List Token) : Option (Parsed (tokens.length + 1) (List Tree)) :=
  match tokens with
  | .mark .comma :: rest =>
      match operand rest with
      | none => none
      | some ⟨first, after, shorter⟩ =>
          match moreTargets after with
          | none => none
          | some ⟨others, last, fewer⟩ =>
              some ⟨first :: others, last, by simp only [List.length_cons]; omega⟩
  | tokens => some ⟨[], tokens, by omega⟩
termination_by 8 * tokens.length
decreasing_by all_goals ((try simp only [List.length_cons] at *); omega)

end

end Grammar

end Nibble.Expression
