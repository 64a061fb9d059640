import Nibble.Proofs.Assembly.Definitions
import Nibble.Standard

set_option autoImplicit false

/-! What a refused source is told. A failure is reported once at a line, and inside that once for
every expansion it arose in, with a line of the body of the macro. -/

namespace Nibble

open Text (ascii)

/-- A cause as it is seen from outside the given places in macro bodies, the outermost first. -/
def Failure.inMacros (places : List (Text × Nat)) (cause : Failure) : Failure :=
  places.foldr (fun place inner => .inMacro place.1 place.2 inner) cause

/-- A failure of a line is a cause inside macros that are known, each at a line of its body. -/
theorem Situation.exists_places [Evaluator] {situation : Situation} {failure : Failure}
    (failed : situation.outcome.failure = some failure) :
    ∃ places cause, failure = Failure.inMacros places cause ∧ cause.isCause = true ∧
      ∀ place ∈ places, ∃ found, situation.macros.find? place.1 = some found ∧
        found.line ≤ place.2 ∧ place.2 < found.line + found.body.length := by
  rcases Situation.outcome_failure_cases failed with
    cause | ⟨inner, name, cause, within, enclosed, failing, rfl⟩
  · refine ⟨[], failure, rfl, cause, ?_⟩
    intro place member
    cases member
  · -- The recursion is on the failure: from inside it is seen from one place fewer.
    obtain ⟨places, root, shape, seen, known⟩ := exists_places failing
    refine ⟨(name, inner.number) :: places, root, ?_, seen, ?_⟩
    · rw [shape]
      rfl
    · cases within with
      | @line invoked arguments found before after _ _ _ present _ _ body =>
          cases enclosed
          intro place member
          rcases List.mem_cons.mp member with rfl | later
          · refine ⟨found, present, Nat.le_add_right _ _, ?_⟩
            rw [body, List.length_append, List.length_cons]
            dsimp only
            omega
          · exact known place later
termination_by sizeOf failure

namespace Pass

theorem exists_places_of_read [Evaluator] {lines : List Text} {pass last : Pass} {text : Text}
    {failure : Failure} (collected : pass.Collected lines)
    (failed : pass.read text = (last, some failure)) :
    ∃ places cause, failure = Failure.inMacros places cause ∧ cause.isCause = true ∧
      ∀ place ∈ places, ∃ first final, Source.Defines lines place.1 first final ∧
        first < place.2 ∧ place.2 < final ∧ final ≤ lines.length := by
  cases plain : pass.processes text with
  | false =>
      have ordinary := ordinary_read plain (congrArg Prod.snd failed)
      refine ⟨[], failure, rfl, ordinary.cause, ?_⟩
      intro place member
      cases member
  | true =>
      have closed := defining_of_processes plain
      rw [read_of_processes plain] at failed
      obtain ⟨places, cause, shape, seen, known⟩ :=
        Situation.exists_places (congrArg Prod.snd failed)
      refine ⟨places, cause, shape, seen, ?_⟩
      intro place member
      obtain ⟨found, present, above, below⟩ := known place member
      obtain ⟨first, line, defines, inside⟩ := collected.defines closed present
      exact ⟨first, _, defines, by omega, below, inside⟩

end Pass

namespace Assembler

/-- A source whose lines are all read, so that its calls are linked. -/
def ReachesLinking [Evaluator] (assembler : Assembler) (text : Text) : Prop :=
  ∃ pass, (Pass.start assembler.predefines).readAll (Source.ofText text).lines = (pass, none) ∧
    (Source.ofText text).overlong = false ∧ pass.defining = none

/-- The failure of a source that is refused on a line: the line is the last one read, and the macros
named are defined before it. -/
theorem parse_reports_line [Evaluator] {assembler : Assembler} {text : Text}
    (fails : assembler.FailsOnLine text) :
    ∃ before source after places cause,
      (Source.ofText text).lines = before ++ source :: after ∧
      (assembler.parse text).1.pass.number = before.length + 1 ∧
      (assembler.parse text).2 = .error
        (.atLine (before.length + 1 : Nat) (Source.content source)
          (Failure.inMacros places cause)) ∧
      cause.isCause = true ∧
      ∀ place ∈ places, ∃ first last, Source.Defines (Source.ofText text).lines place.1 first last ∧
        first < place.2 ∧ place.2 < last ∧ last < before.length + 1 := by
  obtain ⟨before, source, after, pass, last, failure, lines, done, failed, _, number, reported⟩ :=
    exists_failing_line fails
  obtain ⟨places, cause, shape, seen, known⟩ :=
    Pass.exists_places_of_read (Pass.collected_of_read done) failed
  rw [reported]
  refine ⟨before, source, after, places, cause, lines, number, ?_, seen, ?_⟩
  · rw [shape]
  · intro place member
    obtain ⟨first, final, defines, below, above, inside⟩ := known place member
    rw [lines]
    exact ⟨first, final, defines.append _, below, above, Nat.lt_succ_of_le inside⟩

theorem parse_reports_link [Evaluator] {assembler : Assembler} {text : Text} {failure : Failure}
    (reaches : assembler.ReachesLinking text)
    (rejected : (assembler.parse text).2 = .error failure) :
    ∃ statement ∈ (assembler.parse text).1.pass.assembly.statements, ∃ cause,
      failure = .atLine statement.line (Text.spaced statement.words) cause ∧
      cause.isCause = true := by
  obtain ⟨pass, read, complete, closed⟩ := reaches
  rw [parse_of_read read complete closed] at rejected ⊢
  cases linked : Pass.link pass.assembly.labels pass.assembly.statements with
  | mk statements result =>
      rw [linked] at rejected
      cases result with
      | none => cases rejected
      | some found =>
          cases rejected
          obtain ⟨statement, member, cause, shape, ordinary⟩ := Pass.link_eq_failure linked
          exact ⟨statement, member, cause, shape, ordinary.cause⟩

/-- Whatever a source is refused for is reported at a line and inside any number of macros, around a
cause that is seen from nowhere else. If a line is refused, the report gives the number of the last
line read and what counts of that line, and every macro in it is defined by the lines before, with a
line of its body. If linking fails, there is no macro in it, and the line is that of a statement. -/
theorem parse_reports [Evaluator] {assembler : Assembler} {text : Text} {failure : Failure}
    (rejected : (assembler.parse text).2 = .error failure) :
    ∃ number line places cause,
      failure = .atLine number line (Failure.inMacros places cause) ∧ cause.isCause = true ∧
      (assembler.FailsOnLine text →
        ∃ before source after, (Source.ofText text).lines = before ++ source :: after ∧
          (assembler.parse text).1.pass.number = before.length + 1 ∧
          number = (before.length + 1 : Nat) ∧ line = Source.content source ∧
          ∀ place ∈ places, ∃ first last,
            Source.Defines (Source.ofText text).lines place.1 first last ∧
            first < place.2 ∧ place.2 < last ∧ last < before.length + 1) ∧
      (assembler.ReachesLinking text →
        places = [] ∧ ∃ statement ∈ (assembler.parse text).1.pass.assembly.statements,
          number = statement.line ∧ line = Text.spaced statement.words) := by
  by_cases fails : assembler.FailsOnLine text
  · obtain ⟨before, source, after, places, cause, lines, read, reported, seen, known⟩ :=
      parse_reports_line fails
    cases rejected.symm.trans reported
    refine ⟨_, _, places, cause, rfl, seen, ?_, ?_⟩
    · intro _
      exact ⟨before, source, after, lines, read, rfl, rfl, known⟩
    · rintro ⟨pass, done, _⟩
      unfold FailsOnLine at fails
      rw [done] at fails
      exact absurd rfl fails
  · by_cases reaches : assembler.ReachesLinking text
    · obtain ⟨statement, member, cause, rfl, seen⟩ := parse_reports_link reaches rejected
      refine ⟨_, _, [], cause, rfl, seen, fun failing => absurd failing fails, fun _ => ?_⟩
      exact ⟨rfl, statement, member, rfl, rfl⟩
    · obtain ⟨number, line, cause, shape, simple | ⟨situation, processed, outermost, failed⟩⟩ :=
        parse_eq_error rejected
      · exact ⟨number, line, [], cause, shape, simple.cause, fun failing => absurd failing fails,
          fun reaching => absurd reaching reaches⟩
      · obtain ⟨places, root, inner, seen, _⟩ := Situation.exists_places failed
        rw [inner] at shape
        exact ⟨number, line, places, root, shape, seen, fun failing => absurd failing fails,
          fun reaching => absurd reaching reaches⟩

open Standard

/-- A failure two macros deep. The inner macro is defined behind the outer one, and a comment and an
empty line count as lines of the body. -/
theorem parse_reports_two_deep :
    let source := ascii
      ".macro outer\n; comment\ninner v1 v2\n.endm\n.macro inner a b\n\nadd a 16\n.endm\nouter ; here"
    (parse {} source).2 = .error
      (.atLine 9 (ascii "outer")
        (Failure.inMacros [(ascii "outer", 3), (ascii "inner", 7)] (.valueRange 16 15))) ∧
    ∃ number line places cause,
      Failure.atLine 9 (ascii "outer")
        (Failure.inMacros [(ascii "outer", 3), (ascii "inner", 7)] (.valueRange 16 15)) =
        .atLine number line (Failure.inMacros places cause) ∧ cause.isCause = true ∧
      ∃ before text after, (Source.ofText source).lines = before ++ text :: after ∧
        number = (before.length + 1 : Nat) ∧ line = Source.content text ∧
        ∀ place ∈ places, ∃ first last,
          Source.Defines (Source.ofText source).lines place.1 first last ∧
          first < place.2 ∧ place.2 < last ∧ last < before.length + 1 := by
  intro source
  have rejected : (parse {} source).2 = .error
      (.atLine 9 (ascii "outer")
        (Failure.inMacros [(ascii "outer", 3), (ascii "inner", 7)] (.valueRange 16 15))) := by
    decide +kernel
  have fails : FailsOnLine {} source := by
    unfold FailsOnLine
    decide +kernel
  obtain ⟨number, line, places, cause, shape, seen, onLine, _⟩ := parse_reports rejected
  obtain ⟨before, text, after, lines, _, numbered, content, known⟩ := onLine fails
  exact ⟨rejected, number, line, places, cause, shape, seen, before, text, after, lines, numbered,
    content, known⟩

end Assembler

end Nibble
