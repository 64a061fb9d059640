import Nibble.Proofs.Source.Rewriting
import Mathlib.Data.List.Basic

set_option autoImplicit false

/-! Lines that define no equate and invoke no macro. Such a line is its words with the equates
replaced: the labels at its front, and behind them what is carried out. -/

namespace Nibble.Assembly

def behindLabels (words : List Text) : List Text :=
  words.dropWhile fun word => (labelOf? word).isSome

theorem eq_behindLabels {assembly : Assembly} {words rest : List Text}
    (taken : (assembly.takeLabels words).2 = .ok rest) : rest = behindLabels words := by
  induction words generalizing assembly with
  | nil =>
      cases taken
      rfl
  | cons word others ih =>
      rw [takeLabels] at taken
      cases label : labelOf? word with
      | none =>
          rw [label] at taken
          cases taken
          exact (List.dropWhile_cons_of_neg (by simp [label])).symm
      | some name =>
          have dropped : behindLabels (word :: others) = behindLabels others :=
            List.dropWhile_cons_of_pos (by simp [label])
          rw [label] at taken
          dsimp only at taken
          split at taken
          · cases taken
          · rw [dropped]
            exact ih taken

theorem behindLabels_append {front : List Text} (named : behindLabels front ≠ [])
    (more : List Text) : behindLabels (front ++ more) = behindLabels front ++ more := by
  unfold behindLabels at named ⊢
  rw [List.dropWhile_append, if_neg]
  rwa [List.isEmpty_iff]

/-- Only the words in front of the first one that is no label are looked at for labels. -/
theorem takeLabels_append {assembly : Assembly} {front : List Text}
    (named : behindLabels front ≠ []) (more : List Text) :
    assembly.takeLabels (front ++ more) =
      ((assembly.takeLabels front).1, (assembly.takeLabels front).2.map (· ++ more)) := by
  induction front generalizing assembly with
  | nil => exact absurd rfl named
  | cons word others ih =>
      rw [List.cons_append, takeLabels, takeLabels]
      cases label : labelOf? word with
      | none => rfl
      | some name =>
          have dropped : behindLabels (word :: others) = behindLabels others :=
            List.dropWhile_cons_of_pos (by simp [label])
          rw [dropped] at named
          dsimp only
          split
          · rfl
          · exact ih named

def carryWords (assembly : Assembly) (number : Nat) (words : List Text) : Outcome :=
  match assembly.takeLabels words with
  | (labelled, .error failure) => labelled.fail failure
  | (labelled, .ok rest) =>
      if rest.head? = some equateWord then labelled.fail (.plain .equateForm)
      else labelled.emit number rest

theorem carryWords_append {assembly : Assembly} {front : List Text} (number : Nat)
    (named : behindLabels front ≠ []) (other : (behindLabels front).head? ≠ some equateWord)
    (more : List Text) :
    assembly.carryWords number (front ++ more) =
      match assembly.takeLabels front with
      | (labelled, .error failure) => labelled.fail failure
      | (labelled, .ok _) => labelled.emit number (behindLabels front ++ more) := by
  rw [carryWords, takeLabels_append named]
  rcases taken : assembly.takeLabels front with ⟨labelled, failure | rest⟩
  · rfl
  · have behind : rest = behindLabels front := eq_behindLabels (congrArg Prod.snd taken)
    have same : (behindLabels front ++ more).head? ≠ some equateWord := by
      rw [List.head?_append_of_ne_nil _ named]
      exact other
    rw [behind]
    exact if_neg same

/-- Words that define no equate and invoke no macro. -/
structure IsPlain (macros : Table Macro) (equates : Table Text) (words : List Text) : Prop where
  first : words.head? ≠ some equateWord
  named : ∀ name ∈ (behindLabels (substitute equates words)).head?, macros.find? name = none

theorem process_of_isPlain [Evaluator] {macros : Table Macro} {number : Nat} {line : Text}
    {assembly : Assembly} {words : List Text} (expanding : List Text)
    (read : Substitution.words (assembly.atLine number).equates line = .ok words)
    (plain : IsPlain macros (assembly.atLine number).equates words) :
    process macros expanding number line assembly =
      (assembly.atLine number).carryWords number
        (substitute (assembly.atLine number).equates words) := by
  rw [process]
  simp only [read]
  cases words with
  | nil => rfl
  | cons first operands =>
      have notEquate : first ≠ equateWord := fun same => plain.first (congrArg some same)
      dsimp only
      rw [if_neg notEquate, carryWords]
      rcases taken : (assembly.atLine number).takeLabels
          (substitute (assembly.atLine number).equates (first :: operands)) with
        ⟨labelled, failure | _ | ⟨name, arguments⟩⟩
      · rfl
      · rfl
      · have behind := eq_behindLabels (congrArg Prod.snd taken)
        have unknown : macros.find? name = none := by
          apply plain.named
          rw [← behind]
          rfl
        by_cases misplaced : name = equateWord
        · simp only [misplaced, if_true, List.head?_cons]
        · have proper : (name :: arguments).head? ≠ some equateWord :=
            fun same => misplaced (Option.some.inj same)
          simp only [if_neg misplaced, if_neg proper]
          split
          · rfl
          · next known =>
            rw [unknown] at known
            cases known

end Nibble.Assembly
