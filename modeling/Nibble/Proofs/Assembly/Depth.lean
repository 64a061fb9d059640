import Nibble.Proofs.Assembly.Recursion
import Nibble.Standard

set_option autoImplicit false

/-! How deep expansions nest. The macros in progress are given here as a state, which an expansion
enters its macro into and takes it out of again, and the nesting has a limit. With the number of
macros as the limit every source is assembled as it is without one, and the state is empty at its
end, whether the source is accepted or not. -/

namespace Nibble

open Text (ascii)

namespace Assembly

/-- Processes the lines of a body in turn, each from the state that the line before it left. -/
def trackBody (track : Nat → Text → Assembly → List Text → Option (Outcome × List Text))
    (name mark : Text) :
    Nat → List Text → Assembly → List Text → Option (Outcome × List Text)
  | _, [], assembly, inProgress => some (assembly.done, inProgress)
  | number, line :: rest, assembly, inProgress =>
      match track number (Text.replaceByte 64 mark line) assembly inProgress with
      | none => none
      | some (outcome, left) =>
          match outcome.failure with
          | none => trackBody track name mark (number + 1) rest outcome.assembly left
          | some failure => some (outcome.assembly.fail (.inMacro name number failure), left)

/-- Processes one line with the macros in progress as a state. There is no result where expansions
would nest deeper than the limit. -/
def track [Evaluator] (macros : Table Macro) (limit number : Nat) (line : Text)
    (assembly : Assembly) (inProgress : List Text) : Option (Outcome × List Text) :=
  let start := beginning macros inProgress number line assembly
  let ready := assembly.replay start.edits
  match start.task, limit with
  | .stop failure, _ => some (⟨ready, failure⟩, inProgress)
  | .emit words, _ => some (ready.emit number words, inProgress)
  | .expand _ _ _, 0 => none
  | .expand name found arguments, limit + 1 =>
      let bound :=
        { ready with equates := ready.equates.setAll (found.parameters.zip arguments) }
      match trackBody (track macros limit) name (Macro.localMark name number) found.line found.body
          bound (name :: inProgress) with
      | none => none
      | some (outcome, left) =>
          some ({ outcome with assembly := { outcome.assembly with equates := ready.equates } },
            left.filter (· ≠ name))

theorem trackBody_eq {track : Nat → Text → Assembly → List Text → Option (Outcome × List Text)}
    {process : Nat → Text → Assembly → Outcome} {inProgress : List Text}
    (each : ∀ number line assembly,
      track number line assembly inProgress = some (process number line assembly, inProgress))
    (name mark : Text) (number : Nat) (body : List Text) (assembly : Assembly) :
    trackBody track name mark number body assembly inProgress =
      some (expandLines process name mark number body assembly, inProgress) := by
  induction body generalizing number assembly with
  | nil => rfl
  | cons line rest ih =>
      simp only [trackBody, expandLines, each]
      cases (process number (Text.replaceByte 64 mark line) assembly).failure with
      | none => exact ih _ _
      | some failure => rfl

/-- A limit that leaves room for all macros that are not in progress is never reached, and the
state is the same after a line as before it. -/
theorem track_eq [Evaluator] (macros : Table Macro) {limit : Nat} {inProgress : List Text}
    (enough : Macro.available macros inProgress ≤ limit) (number : Nat) (line : Text)
    (assembly : Assembly) :
    track macros limit number line assembly inProgress =
      some (process macros inProgress number line assembly, inProgress) := by
  rw [process_eq]
  cases remaining : (beginning macros inProgress number line assembly).task with
  | stop failure =>
      unfold track
      simp only [remaining]
      rfl
  | emit words =>
      unfold track
      simp only [remaining]
      rfl
  | expand name found arguments =>
      obtain ⟨known, fresh, _⟩ := beginning_eq_expand remaining
      have fewer := Macro.available_lt macros inProgress name found known fresh
      -- An expansion has a macro to expand, so the limit is not used up.
      cases limit with
      | zero => omega
      | succ limit =>
          have inside : Macro.available macros (name :: inProgress) ≤ limit := by omega
          have body := trackBody_eq (track_eq macros inside) name (Macro.localMark name number)
            found.line found.body
          have removed : (name :: inProgress).filter (· ≠ name) = inProgress := by
            have absent : name ∉ inProgress := by simpa using fresh
            rw [List.filter_cons_of_neg (by simp), List.filter_eq_self]
            intro other member
            exact decide_eq_true fun same => absent (same ▸ member)
          unfold track
          simp only [remaining, body, removed]
          rfl
termination_by limit

end Assembly

/-! ### Whole sources -/

namespace Pass

/-- Reads one line, with as many expansions inside one another as there are macros. -/
def track [Evaluator] (pass : Pass) (text : Text) (inProgress : List Text) :
    Option ((Pass × Option Failure) × List Text) :=
  if pass.processes text = true then
    match pass.assembly.track pass.macros pass.macros.length (pass.number + 1)
        (Source.content text) inProgress with
    | none => none
    | some (outcome, left) => some (pass.resumed text outcome, left)
  else some (pass.read text, inProgress)

def trackAll [Evaluator] (pass : Pass) :
    List Text → List Text → Option ((Pass × Option Failure) × List Text)
  | [], inProgress => some ((pass, none), inProgress)
  | text :: rest, inProgress =>
      match pass.track text inProgress with
      | none => none
      | some ((after, none), left) => after.trackAll rest left
      | some ((after, some failure), left) => some ((after, some failure), left)

theorem track_nil [Evaluator] (pass : Pass) (text : Text) :
    pass.track text [] = some (pass.read text, []) := by
  unfold track
  split
  · next plain =>
    have enough : Macro.available pass.macros [] ≤ pass.macros.length := List.length_filter_le _ _
    rw [Assembly.track_eq pass.macros enough, read_of_processes plain]
    rfl
  · rfl

theorem trackAll_nil [Evaluator] (pass : Pass) (lines : List Text) :
    pass.trackAll lines [] = some (pass.readAll lines, []) := by
  induction lines generalizing pass with
  | nil => rfl
  | cons text rest ih =>
      simp only [trackAll, readAll, track_nil]
      cases pass.read text with
      | mk after failure =>
          cases failure with
          | none => exact ih after
          | some failure => rfl

/-- What follows the lines of a source. -/
def conclude (overlong : Bool) : Pass × Option Failure → Pass × Option Failure
  | (pass, some failure) => (pass, some (pass.located failure))
  | (pass, none) => pass.finish overlong

end Pass

namespace Assembler

def answer (assembler : Assembler) :
    Pass × Option Failure → Assembler × Except Failure Program
  | (pass, some failure) => ({ assembler with pass }, .error failure)
  | (pass, none) => ({ assembler with pass }, .ok ⟨pass.assembly.statements⟩)

/-- Assembles a source with the macros in progress as a state, which is empty at the start. -/
def track [Evaluator] (assembler : Assembler) (text : Text) :
    Option ((Assembler × Except Failure Program) × List Text) :=
  match (Pass.start assembler.predefines).trackAll (Source.ofText text).lines [] with
  | none => none
  | some (read, left) =>
      some (assembler.answer (Pass.conclude (Source.ofText text).overlong read), left)

theorem track_eq [Evaluator] (assembler : Assembler) (text : Text) :
    assembler.track text = some (assembler.parse text, []) := by
  unfold track
  rw [Pass.trackAll_nil]
  rfl

/-- Expansions end, and a macro that would expand itself is refused. Assembling a source needs no
more expansions inside one another than there are macros, and none is in progress afterwards. On
every line that is processed the macros in progress are different ones, and the line is refused for
a recursion exactly where it invokes one of them. So the macros that a failure names are different
ones, and a recursion is reported from inside at least one. -/
theorem parse_nests [Evaluator] (assembler : Assembler) (text : Text) :
    assembler.track text = some (assembler.parse text, []) ∧
    (∀ situation, Processes assembler text situation →
      situation.enclosing.Nodup ∧
      (∀ name ∈ situation.enclosing, situation.macros.has name = true) ∧
      situation.enclosing.length ≤ situation.macros.length ∧
      (situation.outcome.failure = some (.plain .macroRecursion) ↔
        ∃ name arguments, situation.invoked? = some (name, arguments) ∧
          name ∈ situation.enclosing)) ∧
    ∀ failure, (assembler.parse text).2 = .error failure →
      failure.expansions.Nodup ∧
      (failure.reason? = some .macroRecursion → failure.expansions ≠ []) ∧
      (failure.expansions ≠ [] → ∃ situation, Processes assembler text situation ∧
        situation.enclosing = failure.expansions.reverse ∧
        situation.outcome.failure = some failure.root) := by
  refine ⟨track_eq assembler text, ?_, ?_⟩
  · intro situation processed
    have nested := processed.nested
    refine ⟨nested.distinct, nested.known, ?_, situation.outcome_recursion_iff⟩
    exact Nat.le_trans (Nat.le_add_right _ _) nested.fewer
  · intro failure rejected
    rcases exists_origin_of_parse rejected with
      ⟨outermost, other⟩ | ⟨origin, processed, stands, failed⟩
    · refine ⟨?_, fun recursion => absurd recursion other, fun deeper => absurd outermost deeper⟩
      rw [outermost]
      exact List.nodup_nil
    · refine ⟨?_, ?_, fun _ => ⟨origin, processed, stands, failed⟩⟩
      · have distinct := processed.nested.distinct
        rw [stands] at distinct
        exact (List.pairwise_reverse.mp distinct).imp Ne.symm
      · intro recursion outermost
        rw [Failure.root_of_reason? recursion] at failed
        obtain ⟨name, _, _, inProgress⟩ := origin.outcome_recursion_iff.mp failed
        rw [stands, outermost] at inProgress
        cases inProgress

open Standard

/-- A macro that gets back to itself through the parameter of another one. -/
theorem parse_nests_parameter :
    let source := ascii ".macro ping to\nto\n.endm\n.macro pong\nping pong\n.endm\npong"
    ∃ situation, Processes {} source situation ∧
      situation.enclosing = [ascii "ping", ascii "pong"] ∧
      ∃ name arguments, situation.invoked? = some (name, arguments) ∧
        name ∈ situation.enclosing := by
  intro source
  have rejected : (parse {} source).2 =
      .error (.atLine 7 (ascii "pong")
        (.inMacro (ascii "pong") 5 (.inMacro (ascii "ping") 2 (.plain .macroRecursion)))) := by
    decide +kernel
  obtain ⟨_, lines, failures⟩ := parse_nests {} source
  obtain ⟨_, _, origin⟩ := failures _ rejected
  obtain ⟨situation, processed, stands, refused⟩ := origin nofun
  obtain ⟨_, _, _, recursion⟩ := lines situation processed
  exact ⟨situation, processed, stands, recursion.mp refused⟩

end Assembler

end Nibble
