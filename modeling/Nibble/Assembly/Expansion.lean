import Nibble.Assembly.Basic
import Nibble.Source.Substitution

set_option autoImplicit false

/-! The lines of a source outside macro definitions, and the expansion of macros. A macro body is
a list of lines that are processed like any other, so expansions nest; a macro that is being
expanded cannot be expanded again, so the nesting is never deeper than there are macros. -/

namespace Nibble

open Text (ascii)

namespace Macro

/-- The macros that are not being expanded. -/
def available (macros : Table Macro) (expanding : List Text) : Nat :=
  (macros.filter fun entry => !expanding.contains entry.1).length

theorem available_lt (macros : Table Macro) (expanding : List Text) (name : Text) (found : Macro)
    (known : macros.find? name = some found) (fresh : expanding.contains name = false) :
    available macros (name :: expanding) < available macros expanding := by
  unfold available
  induction macros with
  | nil => simp [Table.find?] at known
  | cons entry rest ih =>
      obtain ⟨key, value⟩ := entry
      have monotone : ∀ entries : Table Macro,
          (entries.filter fun entry => !(name :: expanding).contains entry.1).length ≤
            (entries.filter fun entry => !expanding.contains entry.1).length := by
        intro entries
        rw [← List.countP_eq_length_filter, ← List.countP_eq_length_filter]
        apply List.countP_mono_left
        intro entry _
        simp only [List.contains_cons, Bool.not_eq_true', Bool.or_eq_false_iff]
        exact fun both => both.2
      by_cases same : key = name
      · subst same
        have shorter := monotone rest
        rw [List.filter_cons_of_neg (by simp), List.filter_cons_of_pos (by simpa using fresh)]
        simp only [List.length_cons]
        omega
      · simp only [Table.find?, if_neg same] at known
        have inner := ih known
        have unequal : (key == name) = false := by simpa using same
        simp only [List.filter_cons, List.contains_cons, unequal, Bool.false_or]
        split
        · simp only [List.length_cons]
          simp only [List.contains_cons] at inner
          omega
        · simpa only [List.contains_cons] using inner

/-- What stands for `@` in a body: the name of the macro and the line of its invocation. -/
def localMark (name : Text) (number : Nat) : Text :=
  name ++ ascii "_" ++ Numeral.decimal number ++ ascii "_"

end Macro

namespace Assembly

/-- Processes the lines of a body, numbered from a first line on. A failure is reported with the
macro and the line on which it arose. -/
def expandLines (process : Nat → Text → Assembly → Outcome) (name mark : Text) :
    Nat → List Text → Assembly → Outcome
  | _, [], assembly => assembly.done
  | number, line :: rest, assembly =>
      let outcome := process number (Text.replaceByte 64 mark line) assembly
      match outcome.failure with
      | none => expandLines process name mark (number + 1) rest outcome.assembly
      | some failure => outcome.assembly.fail (.inMacro name number failure)

/-- Processes one line. The macros that are being expanded are given by their names. -/
def process [Evaluator] (macros : Table Macro) (expanding : List Text) (number : Nat) (line : Text)
    (assembly : Assembly) : Outcome :=
  let current := assembly.atLine number
  match Substitution.words current.equates line with
  | .error failure => current.fail failure
  | .ok [] => current.done
  | .ok (first :: operands) =>
      if first = equateWord then current.define operands
      else
        match current.takeLabels (substitute current.equates (first :: operands)) with
        | (labelled, .error failure) => labelled.fail failure
        | (labelled, .ok []) => labelled.done
        | (labelled, .ok (name :: arguments)) =>
            if name = equateWord then labelled.fail (.plain .equateForm)
            else
              match known : macros.find? name with
              | none => labelled.emit number (name :: arguments)
              | some found =>
                  if fresh : expanding.contains name = false then
                    if arguments.length ≠ found.parameters.length then
                      labelled.fail (.plain .macroForm)
                    else
                      have := Macro.available_lt macros expanding name found known fresh
                      let bound :=
                        { labelled with
                          equates := labelled.equates.setAll (found.parameters.zip arguments) }
                      let outcome :=
                        expandLines (process macros (name :: expanding)) name
                          (Macro.localMark name number) found.line found.body bound
                      { outcome with
                        assembly := { outcome.assembly with equates := labelled.equates } }
                  else labelled.fail (.plain .macroRecursion)
termination_by Macro.available macros expanding

end Assembly

end Nibble
