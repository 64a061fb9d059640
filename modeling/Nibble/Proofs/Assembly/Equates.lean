import Nibble.Proofs.Assembly.Recursion
import Nibble.Proofs.Table
import Nibble.Standard

set_option autoImplicit false

/-! Equates. A line of the source gives the line number its new value, and an equate line that
succeeds adds its one name. Whatever else happens on a line, in expansions of any depth and up to a
failure anywhere in them, leaves no trace in the equates. -/

namespace Nibble

namespace Assembly

def definition? [Evaluator] (number : Nat) (line : Text) (assembly : Assembly) :
    Option (List Text) :=
  match Substitution.words (assembly.atLine number).equates line with
  | .ok (first :: operands) => if first = equateWord then some operands else none
  | _ => none

theorem equates_takeLabels (assembly : Assembly) (words : List Text) :
    (assembly.takeLabels words).1.equates = assembly.equates := by
  induction words generalizing assembly with
  | nil => rfl
  | cons word rest ih =>
      unfold takeLabels
      split
      · rfl
      · split
        · rfl
        · apply ih

theorem define_cases (assembly : Assembly) (operands : List Text) :
    (∃ failure, assembly.define operands = assembly.fail failure) ∨
      ∃ name value, operands = [name, value] ∧ assembly.equates.has name = false ∧
        assembly.define operands =
          done { assembly with equates := assembly.equates.set name value } := by
  unfold define
  split
  · next name value =>
    split
    · exact .inl ⟨_, rfl⟩
    · next unknown => exact .inr ⟨name, value, rfl, Bool.eq_false_iff.mpr unknown, rfl⟩
  · exact .inl ⟨_, rfl⟩

/-- A line that defines no equate has only given the line number its value when its labels are
done. -/
theorem equates_beginning [Evaluator] {macros : Table Macro} {expanding : List Text} {number : Nat}
    {line : Text} {assembly : Assembly} (other : assembly.definition? number line = none) :
    (assembly.replay (beginning macros expanding number line assembly).edits).equates =
      (assembly.atLine number).equates := by
  unfold definition? at other
  unfold beginning
  dsimp only
  split
  · rfl
  · rfl
  · next first operands read =>
    rw [read] at other
    dsimp only at other
    split
    · next equate =>
      rw [if_pos equate] at other
      cases other
    · have labels := takeLabels_reflects (assembly.atLine number)
        (substitute (assembly.atLine number).equates (first :: operands))
      change ((assembly.atLine number).replay _).equates = _
      rw [← labels.replayed]
      exact equates_takeLabels _ _

theorem equates_carryOut [Evaluator] (macros : Table Macro) (expanding : List Text) (number : Nat)
    (assembly : Assembly) (task : Task) :
    (carryOut macros expanding number assembly task).assembly.equates = assembly.equates := by
  cases task with
  | stop failure => rfl
  | emit words => exact equates_emit assembly number words
  | expand name found arguments => rfl

theorem process_definition [Evaluator] {macros : Table Macro} {expanding : List Text} {number : Nat}
    {line : Text} {assembly : Assembly} {operands : List Text}
    (defines : assembly.definition? number line = some operands) :
    process macros expanding number line assembly = (assembly.atLine number).define operands := by
  unfold definition? at defines
  rw [process]
  split at defines
  · next first rest read =>
    split at defines
    · next equate =>
      cases defines
      simp only [read, if_pos equate]
    · cases defines
  · cases defines

end Assembly

namespace Situation

open Assembly (lineName)

def definition? [Evaluator] (situation : Situation) : Option (List Text) :=
  situation.assembly.definition? situation.number situation.line

/-- Everything that a line can do to the equates, at whatever depth it stands: beside the line
number, it adds the name of an equate line that succeeds, and nothing else. -/
theorem equates_outcome [Evaluator] (situation : Situation) :
    ((situation.definition? = none ∨ situation.outcome.failure ≠ none) ∧
      situation.outcome.assembly.equates =
        situation.assembly.equates.set lineName (Numeral.decimal situation.number)) ∨
    ∃ name value, situation.definition? = some [name, value] ∧ situation.outcome.failure = none ∧
      (situation.assembly.equates.set lineName (Numeral.decimal situation.number)).has name =
        false ∧
      situation.outcome.assembly.equates =
        (situation.assembly.equates.set lineName (Numeral.decimal situation.number)).set name
          value := by
  cases defines : situation.definition? with
  | none =>
      refine .inl ⟨.inl rfl, ?_⟩
      unfold outcome
      rw [Assembly.process_eq, Assembly.equates_carryOut]
      exact Assembly.equates_beginning defines
  | some operands =>
      have same : situation.outcome =
          (situation.assembly.atLine situation.number).define operands :=
        Assembly.process_definition defines
      rcases Assembly.define_cases (situation.assembly.atLine situation.number) operands with
        ⟨failure, refused⟩ | ⟨name, value, rfl, unknown, defined⟩
      · rw [same, refused]
        exact .inl ⟨.inr (by rintro ⟨⟩), rfl⟩
      · rw [same, defined]
        exact .inr ⟨name, value, rfl, rfl, unknown, rfl⟩

theorem definition?_of_invoked? [Evaluator] {situation : Situation}
    (invokes : situation.invoked? ≠ none) :
    situation.definition? = none := by
  unfold invoked? Assembly.invoked? at invokes
  dsimp only at invokes
  unfold definition? Assembly.definition?
  split
  · next first operands read =>
    rw [read] at invokes
    split
    · next equate =>
      exact absurd (if_pos equate) invokes
    · rfl
  · rfl

theorem kept_outcome [Evaluator] (situation : Situation) :
    Table.Kept [lineName] situation.assembly.equates situation.outcome.assembly.equates := by
  have numbered := Table.Kept.set_apart (List.mem_singleton_self lineName)
    (Numeral.decimal situation.number) situation.assembly.equates
  rcases situation.equates_outcome with ⟨_, same⟩ | ⟨name, value, _, _, unknown, added⟩
  · rw [same]
    exact numbered
  · rw [added]
    exact numbered.trans (.set_absent unknown value)

end Situation

namespace Pass

open Assembly (lineName)

theorem kept_read [Evaluator] (pass : Pass) (text : Text) :
    Table.Kept [lineName] pass.assembly.equates (pass.read text).1.assembly.equates := by
  have result := pass.reads text
  generalize pass.read text = after at result
  cases result with
  | processed => exact (pass.situation text).kept_outcome
  | collected | begun | ended | refused => exact .refl _ _

theorem kept_readAll [Evaluator] (pass : Pass) (lines : List Text) :
    Table.Kept [lineName] pass.assembly.equates (pass.readAll lines).1.assembly.equates := by
  induction lines generalizing pass with
  | nil => exact .refl _ _
  | cons text rest ih =>
      have first := pass.kept_read text
      rw [readAll]
      rcases result : pass.read text with ⟨next, _ | failure⟩
      · rw [result] at first
        exact first.trans (ih next)
      · rw [result] at first
        exact first

end Pass

namespace Assembler

open Text (ascii)
open Assembly (lineName)

/-- Equates are written once, and what an expansion binds never leaks. A line of the source that
invokes a macro leaves the equates as they were, its own number apart, whether the expansion fails
or not; a successful equate line adds one new name, and every other line changes nothing but the
number. So a name keeps its value from any line to any later one, and to the end. -/
theorem equates_written_once [Evaluator] (assembler : Assembler) (text : Text) :
    (∀ before source after pass,
      (Source.ofText text).lines = before ++ source :: after →
      (Pass.start assembler.predefines).readAll before = (pass, none) →
      pass.processes source = true →
      let numbered := pass.assembly.equates.set lineName (Numeral.decimal (before.length + 1))
      let situation := pass.situation source
      let next := (pass.read source).1.assembly.equates
      (situation.invoked? ≠ none → next = numbered) ∧
      (situation.definition? ≠ none → (pass.read source).2 = none →
        ∃ name value, situation.definition? = some [name, value] ∧ name ≠ lineName ∧
          pass.assembly.equates.has name = false ∧ next = numbered.set name value) ∧
      (situation.definition? = none ∨ (pass.read source).2 ≠ none → next = numbered)) ∧
    ∀ before between after pass,
      (Source.ofText text).lines = before ++ (between ++ after) →
      (Pass.start assembler.predefines).readAll before = (pass, none) →
      pass.assembly.equates.Kept [lineName] (pass.readAll between).1.assembly.equates ∧
      pass.assembly.equates.Kept [lineName] (assembler.parse text).1.pass.assembly.equates := by
  constructor
  · intro before source after pass _ read plain
    have number : pass.number = before.length :=
      (Pass.number_readAll read).trans (Nat.zero_add _)
    dsimp only
    rw [Pass.read_of_processes plain, ← number]
    rcases (pass.situation source).equates_outcome with
      ⟨other, same⟩ | ⟨name, value, defines, succeeded, unknown, added⟩
    · refine ⟨fun _ => same, fun defines succeeded => ?_, fun _ => same⟩
      rcases other with undefined | failed
      · exact absurd undefined defines
      · exact absurd succeeded failed
    · have different : name ≠ lineName := by
        rintro rfl
        rw [Table.has, Table.find?_set_self] at unknown
        cases unknown
      rw [Table.has_set_of_ne different] at unknown
      refine ⟨fun invokes => ?_, fun _ _ => ⟨name, value, defines, different, unknown, added⟩,
        fun other => ?_⟩
      · rw [Situation.definition?_of_invoked? invokes] at defines
        cases defines
      · rcases other with undefined | failed
        · rw [undefined] at defines
          cases defines
        · exact absurd succeeded failed
  · intro before between after pass lines read
    refine ⟨pass.kept_readAll between, ?_⟩
    obtain ⟨statements, left⟩ := pass_of_parse assembler text
    rw [left, lines, Pass.readAll_append, read]
    exact pass.kept_readAll (between ++ after)

open Standard

/-- An expansion that fails two macros deep, with a parameter that hides an equate and another one
that is defined inside. -/
theorem equates_written_once_failing_expansion :
    let before := [ascii ".equ COUNT v3", ascii ".macro inner reg", ascii ".equ LOCAL 1",
      ascii "bad reg", ascii ".endm", ascii ".macro outer COUNT", ascii "inner COUNT",
      ascii ".endm"]
    let source := ascii "outer v5"
    let pass := ((Pass.start []).readAll before).1
    (pass.situation source).invoked? = some (ascii "outer", [ascii "v5"]) ∧
      (pass.read source).2 ≠ none ∧
      (pass.read source).1.assembly.equates =
        pass.assembly.equates.set lineName (Numeral.decimal 9) := by
  intro before source pass
  have invokes : (pass.situation source).invoked? = some (ascii "outer", [ascii "v5"]) := by
    decide +kernel
  have failed : (pass.read source).2 ≠ none := by
    decide +kernel
  have read : (Pass.start []).readAll before = (pass, none) :=
    Prod.ext rfl (by decide +kernel)
  have line := (equates_written_once {} (List.intercalate [10] (before ++ [source]))).1 before
    source [] pass (by decide +kernel) read (by decide +kernel)
  exact ⟨invokes, failed, line.1 (by rw [invokes]; exact Option.some_ne_none _)⟩

end Assembler

end Nibble
