set_option autoImplicit false

/-! Sequences handed to a consumer one element at a time. A consumer has a state of its own and
says after every element whether it wants another one. -/

namespace Nibble

/-- The new state, and whether the consumer goes on. -/
abbrev Consumer (α σ : Type) := σ → α → σ × Bool

/-- Hands elements to consumers of every kind: the last state, and whether nothing was refused. -/
abbrev Iteration (α : Type) := (σ : Type) → Consumer α σ → σ → σ × Bool

/-- One iteration after the other; one that the consumer stops is the last. -/
def Iteration.chain {α : Type} : List (Iteration α) → Iteration α
  | [] => fun _ _ state => (state, true)
  | iterate :: rest => fun σ consume state =>
      match iterate σ consume state with
      | (after, true) => chain rest σ consume after
      | (after, false) => (after, false)

namespace Sequence

variable {α σ : Type}

/-- Hands over the elements in order, up to the first one that the consumer does not go on from. -/
def feed (consume : Consumer α σ) : σ → List α → σ × Bool
  | state, [] => (state, true)
  | state, element :: rest =>
      match consume state element with
      | (after, true) => feed consume after rest
      | (after, false) => (after, false)

def feedEach (consume : Consumer α σ) (state : σ) (sequences : List (List α)) : σ × Bool :=
  Iteration.chain (sequences.map fun sequence _ consume state => feed consume state sequence)
    σ consume state

/-- Collects elements, at most so many when there is a limit. -/
def collector (limit : Option Nat) : Consumer α (Array α) := fun collected element =>
  if limit.any (collected.size ≥ ·) then (collected, false) else (collected.push element, true)

end Sequence

end Nibble
