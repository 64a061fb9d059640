import Nibble.Expression.Grammar

set_option autoImplicit false

/-! Scripts: the statements that a text consists of, one or more in a line. A statement with a body
has a block of further lines. -/

namespace Nibble.Expression

inductive Sentence where
  /-- Computes a value and drops it. -/
  | bare (value : Tree)
  | assign (target value : Tree)
  | augment (operator : BinaryOperator) (target value : Tree)
  /-- Takes names from elsewhere, each with the name that it gets here. -/
  | load (names : List (Text × Text))
  | pass
  /-- A statement that has no place outside functions, of which a script has none. -/
  | misplaced

namespace Grammar

def endsSentence : List Token → Bool
  | [] => true
  | .newline :: _ => true
  | .mark .semicolon :: _ => true
  | _ => false

def loadedNames (tokens : List Token) : Option (Parsed tokens.length (List (Text × Text))) :=
  match tokens with
  | .mark .closeParen :: rest => some ⟨[], rest, Nat.lt_succ_self _⟩
  | .mark .comma :: .mark .closeParen :: rest =>
      some ⟨[], rest, by simp only [List.length_cons]; omega⟩
  | .mark .comma :: .string name :: rest =>
      match loadedNames rest with
      | none => none
      | some ⟨others, last, shorter⟩ =>
          some ⟨(name, name) :: others, last, by simp only [List.length_cons]; omega⟩
  | .mark .comma :: .name here :: .mark .assign :: .string name :: rest =>
      match loadedNames rest with
      | none => none
      | some ⟨others, last, shorter⟩ =>
          some ⟨(name, here) :: others, last, by simp only [List.length_cons]; omega⟩
  | _ => none

/-- A load behind its keyword. It takes at least one name. -/
def loading (tokens : List Token) : Option (Parsed tokens.length Sentence) :=
  match tokens with
  | .mark .openParen :: .string _ :: rest =>
      match loadedNames rest with
      | none => none
      | some ⟨names, last, shorter⟩ =>
          if names.isEmpty then none
          else some ⟨.load names, last, by simp only [List.length_cons]; omega⟩
  | _ => none

def computing (tokens : List Token) : Option (Parsed tokens.length Sentence) :=
  match expression false tokens with
  | none => none
  | some ⟨left, rest, shorter⟩ =>
      match rest, shorter with
      | .mark .assign :: more, shorter =>
          match expression false more with
          | none => none
          | some ⟨right, last, fewer⟩ =>
              some ⟨.assign left right, last, by simp only [List.length_cons] at *; omega⟩
      | .mark (.augment operator) :: more, shorter =>
          match expression false more with
          | none => none
          | some ⟨right, last, fewer⟩ =>
              some ⟨.augment operator left right, last, by
                simp only [List.length_cons] at *; omega⟩
      | rest, shorter => some ⟨.bare left, rest, shorter⟩

/-- A statement without a body. -/
def sentence (tokens : List Token) : Option (Parsed tokens.length Sentence) :=
  match tokens with
  | .keyword .pass :: rest => some ⟨.pass, rest, Nat.lt_succ_self _⟩
  | .keyword .leave :: rest => some ⟨.misplaced, rest, Nat.lt_succ_self _⟩
  | .keyword .giveBack :: rest =>
      if endsSentence rest then some ⟨.misplaced, rest, Nat.lt_succ_self _⟩
      else
        match expression false rest with
        | none => none
        | some ⟨_, last, shorter⟩ =>
            some ⟨.misplaced, last, by simp only [List.length_cons]; omega⟩
  | .keyword .load :: rest =>
      match loading rest with
      | none => none
      | some ⟨found, last, shorter⟩ => some ⟨found, last, by simp only [List.length_cons]; omega⟩
  | tokens => computing tokens

/-- The statements of one line, divided by semicolons. -/
def line (tokens : List Token) : Option (Parsed tokens.length (List Sentence)) :=
  match sentence tokens with
  | none => none
  | some ⟨first, rest, shorter⟩ =>
      match rest, shorter with
      | [], shorter => some ⟨[first], [], shorter⟩
      | [.mark .semicolon], shorter =>
          some ⟨[first], [], Nat.lt_of_succ_lt shorter⟩
      | .newline :: last, shorter =>
          some ⟨[first], last, Nat.lt_of_succ_lt shorter⟩
      | .mark .semicolon :: .newline :: last, shorter =>
          some ⟨[first], last, Nat.lt_of_succ_lt (Nat.lt_of_succ_lt shorter)⟩
      | .mark .semicolon :: more, shorter =>
          match line more with
          | none => none
          | some ⟨others, last, fewer⟩ =>
              some ⟨first :: others, last, Nat.lt_trans fewer (Nat.lt_of_succ_lt shorter)⟩
      | _, _ => none
termination_by tokens.length
decreasing_by simp only [List.length_cons] at *; omega

mutual

/-- A line, or a statement with a body. No statement with a body has a place outside functions. -/
def statement (tokens : List Token) : Option (Parsed tokens.length (List Sentence)) :=
  match tokens with
  | .keyword .condition :: rest =>
      match guarded rest with
      | none => none
      | some ⟨_, last, shorter⟩ =>
          some ⟨[.misplaced], last, by simp only [List.length_cons]; omega⟩
  | .keyword .whilst :: rest =>
      match single rest with
      | none => none
      | some ⟨_, after, shorter⟩ =>
          match body after with
          | none => none
          | some ⟨_, last, fewer⟩ =>
              some ⟨[.misplaced], last, by simp only [List.length_cons]; omega⟩
  | .keyword .each :: rest =>
      match targets rest with
      | none => none
      | some ⟨_, middle, shorter⟩ =>
          match middle, shorter with
          | .keyword .member :: more, shorter =>
              match expression false more with
              | none => none
              | some ⟨_, after, fewer⟩ =>
                  match body after with
                  | none => none
                  | some ⟨_, last, least⟩ =>
                      some ⟨[.misplaced], last, by simp only [List.length_cons] at *; omega⟩
          | _, _ => none
  | tokens => line tokens
termination_by 4 * tokens.length
decreasing_by all_goals ((try simp only [List.length_cons] at *); omega)

def guarded (tokens : List Token) : Option (Parsed tokens.length Unit) :=
  match single tokens with
  | none => none
  | some ⟨_, middle, shorter⟩ =>
      match body middle with
      | none => none
      | some ⟨_, after, fewer⟩ =>
          match after, fewer with
          | .keyword .elseCondition :: rest, fewer =>
              match guarded rest with
              | none => none
              | some ⟨_, last, least⟩ =>
                  some ⟨(), last, by simp only [List.length_cons] at *; omega⟩
          | .keyword .otherwise :: rest, fewer =>
              match body rest with
              | none => none
              | some ⟨_, last, least⟩ =>
                  some ⟨(), last, by simp only [List.length_cons] at *; omega⟩
          | after, fewer => some ⟨(), after, by omega⟩
termination_by 4 * tokens.length
decreasing_by all_goals ((try simp only [List.length_cons] at *); omega)

/-- The body of a statement behind a colon: the rest of the line, or a block. -/
def body (tokens : List Token) : Option (Parsed tokens.length Unit) :=
  match tokens with
  | .mark .colon :: .newline :: .indent :: rest =>
      match block rest with
      | none => none
      | some ⟨_, last, shorter⟩ => some ⟨(), last, by simp only [List.length_cons]; omega⟩
  | .mark .colon :: rest =>
      match line rest with
      | none => none
      | some ⟨_, last, shorter⟩ => some ⟨(), last, by simp only [List.length_cons]; omega⟩
  | _ => none
termination_by 4 * tokens.length
decreasing_by all_goals ((try simp only [List.length_cons] at *); omega)

def block (tokens : List Token) : Option (Parsed tokens.length Unit) :=
  match tokens with
  | .outdent :: rest => some ⟨(), rest, Nat.lt_succ_self _⟩
  | tokens =>
      match statement tokens with
      | none => none
      | some ⟨_, rest, shorter⟩ =>
          match block rest with
          | none => none
          | some ⟨_, last, fewer⟩ => some ⟨(), last, by omega⟩
termination_by 4 * tokens.length + 1
decreasing_by all_goals omega

end

def script (tokens : List Token) : Option (List Sentence) :=
  match tokens with
  | [] => some []
  | .newline :: rest => script rest
  | tokens =>
      match statement tokens with
      | none => none
      | some ⟨first, rest, _⟩ =>
          match script rest with
          | none => none
          | some others => some (first ++ others)
termination_by tokens.length
decreasing_by all_goals ((try simp only [List.length_cons] at *); omega)

end Grammar

def Sentence.ofText (text : Text) : Option (List Sentence) :=
  (Token.ofText text).bind Grammar.script

end Nibble.Expression
