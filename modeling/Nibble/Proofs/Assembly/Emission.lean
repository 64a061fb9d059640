import Nibble.Proofs.Assembly.Linking
import Nibble.Proofs.Assembly.Recursion
import Nibble.Standard

set_option autoImplicit false

/-! What a failure leaves. A line that fails by itself adds no statement, except for the one that
leads out of memory. So a source that is refused on a line leaves what the lines before it emitted
and, if the line invokes a macro, what the lines of bodies emitted that were completed before the
failure, through expansions of any depth. -/

namespace Nibble

open Text (ascii)

/-- What a failure leaves of the statements before it: all of them, which are inside memory, and
behind them the one that leads out of memory, if the failure is that. -/
structure Failure.Leaves (failure : Failure) (before left : List Statement) : Prop where
  inside : ∀ statement ∈ before, statement.limit ≤ 0x1000
  unchanged : failure.reason? ≠ some .programSize → left = before
  overflow : failure.reason? = some .programSize →
    ∃ statement, left = before ++ [statement] ∧ 0x1000 < statement.limit

namespace Assembly

/-- The statements, and where the next one will stand. -/
def placed (assembly : Assembly) : List Statement × Nat :=
  (assembly.statements, assembly.location)

/-- An assembly whose statements stand one behind the other inside memory. -/
structure Contained (assembly : Assembly) : Prop where
  laid : LaidOut assembly.location assembly.statements
  bounded : assembly.location ≤ Memory.size

namespace Contained

variable {assembly before : Assembly}

theorem within (contained : assembly.Contained) :
    ∀ statement ∈ assembly.statements, statement.limit ≤ 0x1000 := by
  intro statement present
  have inside := (contained.laid.inside statement present).2
  exact Int.le_trans inside (Int.ofNat_le.mpr contained.bounded)

theorem of_placed (contained : before.Contained) (same : assembly.placed = before.placed) :
    assembly.Contained := by
  have statements : assembly.statements = before.statements := congrArg Prod.fst same
  have location : assembly.location = before.location := congrArg Prod.snd same
  refine ⟨?_, ?_⟩
  · rw [statements, location]
    exact contained.laid
  · rw [location]
    exact contained.bounded

theorem reflects (contained : before.Contained) {edits : List Edit} {outcome : Outcome}
    (reflected : before.Reflects edits outcome) (succeeded : outcome.failure = none) :
    outcome.assembly.Contained := by
  refine ⟨?_, reflected.bounded succeeded contained.bounded⟩
  rw [reflected.replayed]
  exact laidOut_replay reflected.admitted contained.laid

/-- Words that cannot be carried out add nothing, unless they lead out of memory. -/
theorem emit (contained : assembly.Contained) {number : Nat} {words : List Text}
    {failure : Failure} (failed : (assembly.emit number words).failure = some failure) :
    failure.Leaves assembly.statements (assembly.emit number words).assembly.statements ∧
      (failure.reason? ≠ some .programSize →
        (assembly.emit number words).assembly.location = assembly.location) := by
  have result := assembly.emits number words
  generalize assembly.emit number words = outcome at result failed ⊢
  cases result with
  | idle | moved | added => cases failed
  | refused cause ordinary =>
      cases failed
      have other := ordinary.toSimple.reason?_ne_size
      exact ⟨⟨contained.within, fun _ => rfl, fun large => absurd large other⟩, fun _ => rfl⟩
  | overflowed statement place beyond =>
      cases failed
      refine ⟨⟨contained.within, fun other => absurd rfl other, fun _ => ?_⟩,
        fun other => absurd rfl other⟩
      refine ⟨statement, rfl, ?_⟩
      rw [statement.limit_eq, place]
      exact Int.ofNat_lt.mpr beyond

end Contained

theorem placed_labels (assembly : Assembly) (words : List Text) :
    (assembly.replay (assembly.labelEdits words)).placed = assembly.placed := by
  induction words generalizing assembly with
  | nil => rfl
  | cons word rest ih =>
      unfold labelEdits
      split
      · rfl
      · split
        · rfl
        · exact ih _

/-- The equate or the labels of a line add no statement and do not move the location. -/
theorem placed_beginning [Evaluator] (macros : Table Macro) (expanding : List Text) (number : Nat)
    (line : Text) (assembly : Assembly) :
    (assembly.replay (beginning macros expanding number line assembly).edits).placed =
      assembly.placed := by
  unfold beginning
  dsimp only
  split
  · rfl
  · rfl
  · split
    · rfl
    · exact placed_labels (assembly.atLine number) _

end Assembly

namespace Situation

open Assembly (expandLines)

variable [Evaluator]

theorem placed_ready (situation : Situation) :
    situation.ready.placed = situation.assembly.placed :=
  Assembly.placed_beginning _ _ _ _ _

theorem statements_ready (situation : Situation) :
    situation.ready.statements = situation.assembly.statements :=
  congrArg Prod.fst situation.placed_ready

def emitted (situation : Situation) : List Statement :=
  situation.outcome.assembly.statements.drop situation.assembly.statements.length

theorem statements_outcome (situation : Situation) :
    situation.outcome.assembly.statements =
      situation.assembly.statements ++ situation.emitted := by
  have reflected := Assembly.process_reflects situation.macros situation.enclosing
    situation.number situation.line situation.assembly
  have longer : situation.outcome.assembly.statements = _ :=
    (congrArg Assembly.statements reflected.replayed).trans (Assembly.statements_replay _ _)
  rw [emitted, longer, List.drop_left]

theorem contained_outcome {situation : Situation} (contained : situation.assembly.Contained)
    (succeeded : situation.outcome.failure = none) : situation.outcome.assembly.Contained :=
  contained.reflects (Assembly.process_reflects _ _ _ _ _) succeeded

theorem Inside.contained {outer inner : Situation} (within : outer.Inside inner)
    (contained : outer.assembly.Contained) : inner.assembly.Contained := by
  have ready := contained.of_placed outer.placed_ready
  cases within with
  | @line name arguments found before _ _ reached _ _ _ _ _ processed =>
      let bound : Assembly :=
        { outer.ready with
          equates := outer.ready.equates.setAll (found.parameters.zip arguments) }
      have start : bound.Contained := ready.of_placed rfl
      have body := Assembly.expandLines_reflects _ _ name (Macro.localMark name outer.number)
        (Assembly.process_reflects outer.macros (name :: outer.enclosing)) found.line before bound
      have inner := start.reflects body (congrArg Outcome.failure processed)
      have same : _ = reached := congrArg Outcome.assembly processed
      exact same ▸ inner

/-! ### Lines that are completed -/

/-- Lines that are processed one after the other without a failure, each of them where the one
before left off. -/
inductive Completes : Assembly → List Situation → Assembly → Prop where
  | nil {before after : Assembly} (same : after.placed = before.placed) :
      Completes before [] after
  | cons {before after : Assembly} {situation : Situation} {rest : List Situation}
      (start : situation.assembly.placed = before.placed)
      (succeeded : situation.outcome.failure = none)
      (later : Completes situation.outcome.assembly rest after) :
      Completes before (situation :: rest) after

namespace Completes

variable {before middle after : Assembly} {situations : List Situation}

theorem of_placed (completes : Completes middle situations after)
    (same : middle.placed = before.placed) : Completes before situations after := by
  cases completes with
  | nil unchanged => exact .nil (unchanged.trans same)
  | cons start succeeded later => exact .cons (start.trans same) succeeded later

theorem append {more : List Situation} (first : Completes before situations middle)
    (second : Completes middle more after) : Completes before (situations ++ more) after := by
  induction first with
  | nil same => exact second.of_placed same
  | cons start succeeded _ ih => exact .cons start succeeded (ih second)

theorem succeeded (completes : Completes before situations after) :
    ∀ situation ∈ situations, situation.outcome.failure = none := by
  induction completes with
  | nil =>
      intro situation member
      cases member
  | cons _ here _ ih =>
      intro situation member
      rcases List.mem_cons.mp member with rfl | later
      · exact here
      · exact ih situation later

theorem statements (completes : Completes before situations after) :
    after.statements = before.statements ++ situations.flatMap emitted := by
  induction completes with
  | nil same =>
      rw [List.flatMap_nil, List.append_nil]
      exact congrArg Prod.fst same
  | @cons before after situation rest start _ _ ih =>
      have same : situation.assembly.statements = before.statements := congrArg Prod.fst start
      rw [ih, statements_outcome, same, List.flatMap_cons, List.append_assoc]

theorem contained (completes : Completes before situations after) (start : before.Contained) :
    after.Contained := by
  induction completes with
  | nil same => exact start.of_placed same
  | cons same succeeded _ ih => exact ih (contained_outcome (start.of_placed same) succeeded)

end Completes

/-! ### Lines that fail -/

/-- The lines of a body as they are processed, numbered from a first line on, up to the first that
fails. -/
def bodyLines (macros : Table Macro) (enclosing : List Text) (mark : Text) :
    Nat → List Text → Assembly → List Situation
  | _, [], _ => []
  | number, line :: rest, assembly =>
      let situation : Situation :=
        { macros, enclosing, number, line := Text.replaceByte 64 mark line, assembly }
      situation ::
        match situation.outcome.failure with
        | none =>
            bodyLines macros enclosing mark (number + 1) rest situation.outcome.assembly
        | some _ => []

def body (situation : Situation) : List Situation :=
  match situation.task with
  | .stop _ => []
  | .emit _ => []
  | .expand name found arguments =>
      bodyLines situation.macros (name :: situation.enclosing)
        (Macro.localMark name situation.number) found.line found.body
        { situation.ready with
          equates := situation.ready.equates.setAll (found.parameters.zip arguments) }

/-- How far a line gets that fails: the lines that are completed in the bodies of the expansions it
begins, in their order, and the line that fails by itself. -/
inductive Stops : Situation → List Situation → Situation → Prop where
  | here {situation : Situation} {cause : Failure}
      (failed : situation.outcome.failure = some cause) (own : cause.isCause = true) :
      Stops situation [] situation
  | inside {situation inner last : Situation} {completed deeper : List Situation}
      (lines : situation.body = completed ++ [inner]) (stops : Stops inner deeper last) :
      Stops situation (completed ++ deeper) last

/-- A body that fails does so on the last of its lines that are processed. -/
theorem bodyLines_of_failure {macros : Table Macro} {enclosing : List Text} {name mark : Text}
    {number : Nat} {body : List Text} {assembly : Assembly} {failure : Failure}
    (failed : (expandLines (Assembly.process macros enclosing) name mark number body
      assembly).failure = some failure) :
    ∃ completed inner cause,
      bodyLines macros enclosing mark number body assembly = completed ++ [inner] ∧
      Completes assembly completed inner.assembly ∧ inner.outcome.failure = some cause ∧
      failure = .inMacro name inner.number cause ∧
      (expandLines (Assembly.process macros enclosing) name mark number body assembly).assembly =
        inner.outcome.assembly := by
  induction body generalizing number assembly with
  | nil => cases failed
  | cons line rest ih =>
      let current : Situation :=
        { macros, enclosing, number, line := Text.replaceByte 64 mark line, assembly }
      cases first : (Assembly.process macros enclosing number (Text.replaceByte 64 mark line)
          assembly).failure with
      | some cause =>
          simp only [expandLines, first] at failed ⊢
          cases failed
          refine ⟨[], current, cause, ?_, .nil rfl, first, rfl, rfl⟩
          simp only [bodyLines, outcome, first]
          rfl
      | none =>
          simp only [expandLines, first] at failed ⊢
          obtain ⟨completed, inner, cause, lines, completes, failing, shape, left⟩ := ih failed
          have more : Completes assembly (current :: completed) inner.assembly :=
            .cons rfl first completes
          refine ⟨current :: completed, inner, cause, ?_, more, failing, shape, left⟩
          simp only [bodyLines, outcome, first, lines]
          rfl

/-- A line that fails does so by itself, or on the last line of a body. -/
theorem outcome_failure_body {situation : Situation} {failure : Failure}
    (failed : situation.outcome.failure = some failure) :
    failure.isCause = true ∨
      ∃ completed inner name cause, situation.body = completed ++ [inner] ∧
        Completes situation.assembly completed inner.assembly ∧
        inner.outcome.failure = some cause ∧ failure = .inMacro name inner.number cause ∧
        situation.outcome.assembly.statements = inner.outcome.assembly.statements := by
  rcases isCause_or_expands failed with cause | ⟨name, found, arguments, expands⟩
  · exact .inl cause
  · rw [situation.outcome_eq, expands] at failed ⊢
    obtain ⟨completed, inner, cause, lines, completes, failing, shape, left⟩ :=
      bodyLines_of_failure failed
    have kept := congrArg Assembly.statements left
    refine .inr ⟨completed, inner, name, cause, ?_, ?_, failing, shape, kept⟩
    · rw [body, expands]
      exact lines
    · exact completes.of_placed situation.placed_ready

/-- A line that fails by itself adds nothing, unless it leads out of memory. -/
theorem leaves_of_isCause {situation : Situation} {failure : Failure}
    (contained : situation.assembly.Contained)
    (failed : situation.outcome.failure = some failure) (own : failure.isCause = true) :
    failure.Leaves situation.assembly.statements situation.outcome.assembly.statements := by
  have ready := contained.of_placed situation.placed_ready
  have start := situation.begins_task
  rw [situation.outcome_eq] at failed ⊢
  rw [← situation.statements_ready]
  generalize situation.task = task at start failed ⊢
  generalize situation.invoked? = invoked at start
  cases start with
  | stops _ simple =>
      have other := (simple _ failed).reason?_ne_size
      exact ⟨ready.within, fun _ => rfl, fun large => absurd large other⟩
  | emits words => exact (ready.emit failed).1
  | refuses | mismatches =>
      cases failed
      exact ⟨ready.within, fun _ => rfl, by rintro ⟨⟩⟩
  | expands =>
      -- A body fails inside its macro, so the failure is not that of the line itself.
      obtain ⟨_, _, _, _, _, _, _, _, shape⟩ := Assembly.expandLines_eq_failure failed
      rw [shape] at own
      cases own

/-- What a line leaves that fails: what the lines completed in bodies emitted, and the statement
that leads out of memory. -/
theorem leaves_of_failure {situation : Situation} {failure : Failure}
    (contained : situation.assembly.Contained)
    (failed : situation.outcome.failure = some failure) :
    ∃ completed last, situation.Stops completed last ∧
      Completes situation.assembly completed last.assembly ∧
      failure.Leaves last.assembly.statements situation.outcome.assembly.statements := by
  rcases outcome_failure_body failed with
    own | ⟨completed, inner, name, cause, lines, completes, failing, rfl, kept⟩
  · exact ⟨[], situation, .here failed own, .nil rfl, leaves_of_isCause contained failed own⟩
  · -- The recursion is on the failure: from inside it is seen from one place fewer.
    obtain ⟨deeper, last, stops, further, leaves⟩ :=
      leaves_of_failure (completes.contained contained) failing
    refine ⟨completed ++ deeper, last, .inside lines stops, completes.append further, ?_⟩
    rw [kept]
    exact ⟨leaves.inside, leaves.unchanged, leaves.overflow⟩
termination_by sizeOf failure

end Situation

namespace Pass

def situations [Evaluator] (pass : Pass) : List Text → List Situation
  | [] => []
  | text :: rest =>
      let later := (pass.read text).1.situations rest
      if pass.processes text then pass.situation text :: later else later

theorem completes_readAll [Evaluator] {pass last : Pass} {lines : List Text}
    (read : pass.readAll lines = (last, none)) :
    Situation.Completes pass.assembly (pass.situations lines) last.assembly := by
  induction lines generalizing pass with
  | nil =>
      cases read
      exact .nil rfl
  | cons text rest ih =>
      rw [readAll] at read
      rcases result : pass.read text with ⟨next, _ | failure⟩
      · rw [result] at read
        have later := ih read
        simp only [situations, result]
        cases plain : pass.processes text with
        | false =>
            have same := assembly_read plain
            rw [result] at same
            exact later.of_placed (congrArg Assembly.placed same)
        | true =>
            rw [read_of_processes plain] at result
            have succeeded : (pass.situation text).outcome.failure = none :=
              congrArg Prod.snd result
            have left : (pass.situation text).outcome.assembly = next.assembly :=
              congrArg (fun read => read.1.assembly) result
            rw [← left] at later
            exact .cons rfl succeeded later
      · rw [result] at read
        cases read

theorem contained_start (predefines : Table Text) : (start predefines).assembly.Contained :=
  ⟨laidOut_start predefines, Nat.zero_le _⟩

/-- How far a line of a source gets that fails. Only a line that is processed can complete others,
those in the body of the macro it invokes. -/
def Stops [Evaluator] (pass : Pass) (text : Text) (completed : List Situation) : Prop :=
  if pass.processes text then ∃ last, (pass.situation text).Stops completed last
  else completed = []

theorem leaves_of_read [Evaluator] {pass last : Pass} {text : Text} {failure : Failure}
    (contained : pass.assembly.Contained) (failed : pass.read text = (last, some failure)) :
    ∃ completed reached, pass.Stops text completed ∧
      Situation.Completes pass.assembly completed reached ∧
      failure.Leaves reached.statements last.assembly.statements := by
  cases plain : pass.processes text with
  | false =>
      have same := assembly_read plain
      have simple := (ordinary_read plain (congrArg Prod.snd failed)).toSimple
      rw [failed] at same
      refine ⟨[], pass.assembly, ?_, .nil rfl, ?_⟩
      · simp only [Stops, plain, Bool.false_eq_true, if_false]
      · rw [same]
        exact ⟨contained.within, fun _ => rfl, fun large => absurd large simple.reason?_ne_size⟩
  | true =>
      rw [read_of_processes plain] at failed
      have failing : (pass.situation text).outcome.failure = some failure :=
        congrArg Prod.snd failed
      have left : (pass.situation text).outcome.assembly = last.assembly :=
        congrArg (fun read => read.1.assembly) failed
      obtain ⟨completed, final, stops, completes, leaves⟩ :=
        Situation.leaves_of_failure contained failing
      rw [left] at leaves
      refine ⟨completed, final.assembly, ?_, completes, leaves⟩
      simp only [Stops, plain, if_true]
      exact ⟨final, stops⟩

end Pass

namespace Assembler

variable {assembler : Assembler} {text : Text}

theorem Processes.contained [Evaluator] {situation : Situation}
    (processed : Processes assembler text situation) : situation.assembly.Contained := by
  induction processed with
  | line _ read _ =>
      exact (Pass.completes_readAll read).contained (Pass.contained_start _)
  | inside _ within ih => exact within.contained ih

/-- The assemblies to which the words of a line are handed: what the labels of a line leave, and
what the expansion of a macro leaves, behind which there are no words. -/
inductive Hands [Evaluator] (assembler : Assembler) (text : Text) : Assembly → Prop where
  | labelled {situation : Situation} (processed : Processes assembler text situation) :
      Hands assembler text situation.ready
  | expanded {situation : Situation} (processed : Processes assembler text situation)
      (finished : situation.outcome.failure = none) :
      Hands assembler text situation.outcome.assembly

theorem Hands.contained [Evaluator] {assembly : Assembly} (handed : Hands assembler text assembly) :
    assembly.Contained := by
  cases handed with
  | @labelled situation processed => exact processed.contained.of_placed situation.placed_ready
  | expanded processed finished => exact Situation.contained_outcome processed.contained finished

/-- What failures leave. Words that cannot be carried out, on whatever line of a source and in
whatever expansion, add no statement and do not move the location, except that the statement that
leads out of memory is added, the only one to do so. So a source that is refused on a line leaves
the statements that the lines before it emitted, then those of the lines that were completed in the
bodies of the expansions in progress, and then the one that leads out of memory, if and only if the
line is refused for that. Nothing of this is linked. -/
theorem parse_leaves_completed [Evaluator] (assembler : Assembler) (text : Text) :
    (∀ assembly, assembler.Hands text assembly → ∀ number words failure,
      (assembly.emit number words).failure = some failure →
      failure.Leaves assembly.statements (assembly.emit number words).assembly.statements ∧
      (failure.reason? ≠ some .programSize →
        (assembly.emit number words).assembly.location = assembly.location)) ∧
    (assembler.FailsOnLine text →
      ∃ before source after pass failure completed,
        (Source.ofText text).lines = before ++ source :: after ∧
        (Pass.start assembler.predefines).readAll before = (pass, none) ∧
        (assembler.parse text).2 =
          .error (.atLine (before.length + 1 : Nat) (Source.content source) failure) ∧
        pass.Stops source completed ∧
        (∀ line ∈ completed, line.outcome.failure = none) ∧
        failure.Leaves
          (((Pass.start assembler.predefines).situations before ++ completed).flatMap
            Situation.emitted)
          (assembler.parse text).1.pass.assembly.statements ∧
        ∀ statement ∈ (assembler.parse text).1.pass.assembly.statements,
          statement.link ≠ none → statement.codes = [0x2000]) := by
  refine ⟨fun assembly handed number words failure failed => handed.contained.emit failed, ?_⟩
  intro fails
  obtain ⟨before, source, after, pass, last, failure, lines, done, failed, read, _, reported⟩ :=
    exists_failing_line fails
  have earlier := Pass.completes_readAll done
  have contained := earlier.contained (Pass.contained_start _)
  obtain ⟨completed, reached, stops, completes, leaves⟩ := Pass.leaves_of_read contained failed
  have emitted := (earlier.append completes).statements
  rw [emitted] at leaves
  rw [reported]
  refine ⟨before, source, after, pass, failure, completed, lines, done, rfl, stops,
    completes.succeeded, leaves, ?_⟩
  intro statement present waiting
  obtain ⟨label, waits⟩ := Option.ne_none_iff_exists'.mp waiting
  exact (single_of_read read present waits).2

open Standard

/-- A call of a label, and an expansion inside an expansion in which the second line leads out of
memory. A list of words that fails at its second word adds nothing, not even before the first
line. -/
theorem parse_leaves_completed_two_deep :
    let source := ascii
      ".org 0xff8\ncall x\n.macro b\nhalt\n.word 1 2\n.endm\n.macro a\nret\nb\n.endm\na"
    let ready := ((Pass.start []).situation (ascii ".org 0xff8")).ready
    let words := [ascii ".word", ascii "1", ascii "0x10000"]
    (ready.emit 1 words).failure = some (.valueRange 0x10000 0xFFFF) ∧
    (Failure.valueRange 0x10000 0xFFFF).Leaves ready.statements
      (ready.emit 1 words).assembly.statements ∧
    (parse {} source).1.pass.assembly.statements.map (fun statement =>
      (statement.line, statement.place, statement.codes)) =
        [(2, (0xFF8, 1), [0x2000]), (8, (0xFFA, 1), [0xEE]), (4, (0xFFC, 1), [0]),
          (5, (0xFFE, 2), [1, 2])] ∧
    ∃ before text after pass failure completed,
      (Source.ofText source).lines = before ++ text :: after ∧
      (Pass.start []).readAll before = (pass, none) ∧
      (parse {} source).2 =
        .error (.atLine (before.length + 1 : Nat) (Source.content text) failure) ∧
      pass.Stops text completed ∧
      failure.Leaves
        (((Pass.start []).situations before ++ completed).flatMap Situation.emitted)
        (parse {} source).1.pass.assembly.statements := by
  intro source ready words
  have refused : (ready.emit 1 words).failure = some (.valueRange 0x10000 0xFFFF) := by
    decide +kernel
  have fails : FailsOnLine {} source := by
    unfold FailsOnLine
    decide +kernel
  have lines : (Source.ofText source).lines =
      [] ++ ascii ".org 0xff8" :: (Source.ofText source).lines.tail := by
    decide +kernel
  have processed : Processes {} source ((Pass.start []).situation (ascii ".org 0xff8")) :=
    .line lines rfl (by decide +kernel)
  have result := parse_leaves_completed {} source
  obtain ⟨before, text, after, pass, failure, completed, split, read, reported, stops, _, leaves,
    _⟩ := result.2 fails
  refine ⟨refused, (result.1 ready (.labelled processed) 1 words _ refused).1, ?_, before, text,
    after, pass, failure, completed, split, read, reported, stops, leaves⟩
  decide +kernel

end Assembler

end Nibble
