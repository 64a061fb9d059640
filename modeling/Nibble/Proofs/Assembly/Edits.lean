import Nibble.Assembly.Expansion
import Nibble.Proofs.Assembly.Directive

set_option autoImplicit false

/-! The history of an assembly. Whatever a line does, through expansions of any depth, it does by
a sequence of elementary edits: it replaces the equates, defines a label at the current location,
moves the location, or adds a statement there. This module defines the edits that a line makes, in
their order, and shows that replaying them gives what processing the line gives, that every one of
them is allowed where it is made, and that a line without a failure stays inside memory. -/

namespace Nibble

/-- An elementary change of an assembly. -/
inductive Edit where
  | equates (table : Table Text)
  | label (name : Text)
  | origin (address : Nat)
  | statement (statement : Statement)
deriving DecidableEq, Repr

namespace Edit

def apply (assembly : Assembly) : Edit → Assembly
  | .equates table => { assembly with equates := table }
  | .label name => { assembly with labels := assembly.labels.set name assembly.location }
  | .origin address => { assembly with location := address }
  | .statement added =>
      { assembly with
        statements := assembly.statements ++ [added]
        location := assembly.location + 2 * added.codes.length }

/-- Whether an edit can be made to an assembly. A label is new, the location never moves back, and
a statement has at least one word and stands at the location; one that waits for a label is a
single call. -/
def Allowed (assembly : Assembly) : Edit → Prop
  | .equates _ => True
  | .label name => assembly.labels.has name = false
  | .origin address => assembly.location ≤ address ∧ address < Memory.size
  | .statement added =>
      added.address = assembly.location ∧ added.codes ≠ [] ∧
        ∀ target, added.link = some target → target ≠ [] ∧ added.codes = [Word.call 0]

end Edit

namespace Assembly

def replay (assembly : Assembly) (edits : List Edit) : Assembly :=
  edits.foldl Edit.apply assembly

theorem replay_cons (assembly : Assembly) (edit : Edit) (rest : List Edit) :
    assembly.replay (edit :: rest) = (edit.apply assembly).replay rest := rfl

theorem replay_append (assembly : Assembly) (first second : List Edit) :
    assembly.replay (first ++ second) = (assembly.replay first).replay second :=
  List.foldl_append

/-- Whether every edit of a sequence can be made where its turn comes. -/
def Admits (assembly : Assembly) : List Edit → Prop
  | [] => True
  | edit :: rest => edit.Allowed assembly ∧ (edit.apply assembly).Admits rest

theorem admits_append (assembly : Assembly) (first second : List Edit) :
    assembly.Admits (first ++ second) ↔
      assembly.Admits first ∧ (assembly.replay first).Admits second := by
  induction first generalizing assembly with
  | nil => exact (true_and _).symm ▸ Iff.rfl
  | cons edit rest ih =>
      simp only [List.cons_append, Admits, replay_cons, ih, and_assoc]

/-- What holds of the edits of an outcome: they lead to it, each is allowed, and without a failure
they do not lead out of memory. -/
structure Reflects (before : Assembly) (edits : List Edit) (outcome : Outcome) : Prop where
  replayed : outcome.assembly = before.replay edits
  admitted : before.Admits edits
  bounded : outcome.failure = none → before.location ≤ Memory.size →
    outcome.assembly.location ≤ Memory.size

theorem Reflects.same {before after : Assembly} (failure : Option Failure)
    (unchanged : after = before) : Reflects before [] ⟨after, failure⟩ :=
  ⟨unchanged, trivial, fun _ inside => by rw [unchanged]; exact inside⟩

theorem Reflects.trans {before : Assembly} {first second : List Edit} {middle last : Outcome}
    (start : Reflects before first middle) (succeeded : middle.failure = none)
    (rest : Reflects middle.assembly second last) : Reflects before (first ++ second) last where
  replayed := by rw [replay_append, ← start.replayed, rest.replayed]
  admitted := by
    rw [admits_append, ← start.replayed]
    exact ⟨start.admitted, rest.admitted⟩
  bounded := fun finished inside => rest.bounded finished (start.bounded succeeded inside)

/-! ### Labels and directives -/

def labelEdits (assembly : Assembly) : List Text → List Edit
  | [] => []
  | word :: rest =>
      match labelOf? word with
      | none => []
      | some label =>
          if assembly.labels.has label then []
          else .label label :: ((Edit.label label).apply assembly).labelEdits rest

theorem takeLabels_reflects (assembly : Assembly) (words : List Text) :
    Reflects assembly (assembly.labelEdits words) (assembly.takeLabels words).1.done := by
  induction words generalizing assembly with
  | nil => exact .same none rfl
  | cons word rest ih =>
      cases found : labelOf? word with
      | none =>
          simp only [labelEdits, takeLabels, found]
          exact .same none rfl
      | some label =>
          by_cases known : assembly.labels.has label = true
          · simp only [labelEdits, takeLabels, found, if_pos known]
            exact .same none rfl
          · simp only [labelEdits, takeLabels, found, if_neg known]
            have later := ih ((Edit.label label).apply assembly)
            exact ⟨later.replayed, ⟨Bool.eq_false_iff.mpr known, later.admitted⟩, later.bounded⟩

def emitEdits (assembly : Assembly) (number : Nat) (words : List Text) : List Edit :=
  match words with
  | [] => []
  | first :: operands =>
      match Directive.ofWords first operands with
      | .error _ => []
      | .ok (.origin address) => if address < assembly.location then [] else [.origin address]
      | .ok (.codes codes link) =>
          [.statement
            { line := number, address := assembly.location, words := first :: operands, codes,
              link }]

theorem emit_reflects (assembly : Assembly) (number : Nat) (words : List Text) :
    Reflects assembly (assembly.emitEdits number words) (assembly.emit number words) := by
  cases words with
  | nil => exact .same none rfl
  | cons first operands =>
      cases read : Directive.ofWords first operands with
      | error failure =>
          simp only [emitEdits, emit, read]
          exact .same (some failure) rfl
      | ok directive =>
          have formed := Directive.wellFormed_ofWords read
          cases directive with
          | origin address =>
              by_cases backwards : address < assembly.location
              · simp only [emitEdits, emit, read, if_pos backwards]
                exact .same _ rfl
              · simp only [emitEdits, emit, read, if_neg backwards]
                exact ⟨rfl, ⟨⟨Nat.le_of_not_lt backwards, formed⟩, trivial⟩,
                  fun _ _ => Nat.le_of_lt formed⟩
          | codes codes link =>
              simp only [emitEdits, emit, read]
              -- The statement that leads out of memory is still added, so only the bound differs.
              split
              · exact ⟨rfl, ⟨⟨rfl, formed⟩, trivial⟩, by rintro ⟨⟩⟩
              · next inside =>
                exact ⟨rfl, ⟨⟨rfl, formed⟩, trivial⟩, fun _ _ => Nat.le_of_not_lt inside⟩

theorem emit_keeps (assembly : Assembly) (number : Nat) (words : List Text) :
    (assembly.emit number words).assembly.equates = assembly.equates ∧
      (assembly.emit number words).assembly.labels = assembly.labels := by
  unfold emit
  split
  · exact ⟨rfl, rfl⟩
  · split
    · exact ⟨rfl, rfl⟩
    · split
      · exact ⟨rfl, rfl⟩
      · exact ⟨rfl, rfl⟩
    · dsimp only
      split
      · exact ⟨rfl, rfl⟩
      · exact ⟨rfl, rfl⟩

theorem equates_emit (assembly : Assembly) (number : Nat) (words : List Text) :
    (assembly.emit number words).assembly.equates = assembly.equates :=
  (emit_keeps assembly number words).1

/-! ### A line before its expansion -/

/-- What is left of a line when its equate or its labels are done. -/
inductive Task where
  | stop (failure : Option Failure)
  | emit (words : List Text)
  | expand (name : Text) (found : Macro) (arguments : List Text)

/-- The beginning of a line: the edits it makes at once, and what is left of it. -/
structure Beginning where
  edits : List Edit
  task : Task

def task (macros : Table Macro) (expanding : List Text) : Except Failure (List Text) → Task
  | .error failure => .stop (some failure)
  | .ok [] => .stop none
  | .ok (name :: arguments) =>
      if name = equateWord then .stop (some (.plain .equateForm))
      else
        match macros.find? name with
        | none => .emit (name :: arguments)
        | some found =>
            if expanding.contains name = false then
              if arguments.length ≠ found.parameters.length then
                .stop (some (.plain .macroForm))
              else .expand name found arguments
            else .stop (some (.plain .macroRecursion))

def beginning [Evaluator] (macros : Table Macro) (expanding : List Text) (number : Nat)
    (line : Text) (assembly : Assembly) : Beginning :=
  let current := assembly.atLine number
  let here := Edit.equates current.equates
  match Substitution.words current.equates line with
  | .error failure => ⟨[here], .stop (some failure)⟩
  | .ok [] => ⟨[here], .stop none⟩
  | .ok (first :: operands) =>
      if first = equateWord then
        ⟨[here, .equates (current.define operands).assembly.equates],
          .stop (current.define operands).failure⟩
      else
        let words := substitute current.equates (first :: operands)
        ⟨here :: current.labelEdits words, task macros expanding (current.takeLabels words).2⟩

/-- A macro can only be expanded where it is known and not being expanded already, and with an
argument for every parameter. -/
theorem task_eq_expand {macros : Table Macro} {expanding : List Text}
    {words : Except Failure (List Text)} {name : Text} {found : Macro} {arguments : List Text}
    (expands : task macros expanding words = .expand name found arguments) :
    macros.find? name = some found ∧ expanding.contains name = false ∧
      arguments.length = found.parameters.length := by
  unfold task at expands
  split at expands
  · cases expands
  · cases expands
  · split at expands
    · cases expands
    · split at expands
      · cases expands
      · next known =>
        split at expands
        · next fresh =>
          split at expands
          · cases expands
          · next matching =>
            cases expands
            exact ⟨known, fresh, Decidable.not_not.mp matching⟩
        · cases expands

theorem beginning_reflects [Evaluator] (macros : Table Macro) (expanding : List Text) (number : Nat)
    (line : Text) (assembly : Assembly) :
    Reflects assembly (beginning macros expanding number line assembly).edits
      (assembly.replay (beginning macros expanding number line assembly).edits).done := by
  unfold beginning
  dsimp only
  split
  · exact ⟨rfl, ⟨trivial, trivial⟩, fun _ inside => inside⟩
  · exact ⟨rfl, ⟨trivial, trivial⟩, fun _ inside => inside⟩
  · next first operands _ =>
    split
    · exact ⟨rfl, ⟨trivial, trivial, trivial⟩, fun _ inside => inside⟩
    · have labels := takeLabels_reflects (assembly.atLine number)
        (substitute (assembly.atLine number).equates (first :: operands))
      refine ⟨rfl, ⟨trivial, labels.admitted⟩, fun finished inside => ?_⟩
      change ((assembly.atLine number).replay _).location ≤ Memory.size
      rw [← labels.replayed]
      exact labels.bounded finished inside

/-- The expansion of a macro at a line: the parameters hold while the body is processed. -/
def invoke [Evaluator] (macros : Table Macro) (expanding : List Text) (number : Nat) (name : Text)
    (found : Macro) (arguments : List Text) (assembly : Assembly) : Outcome :=
  let outcome :=
    expandLines (process macros (name :: expanding)) name (Macro.localMark name number)
      found.line found.body
      { assembly with equates := assembly.equates.setAll (found.parameters.zip arguments) }
  { outcome with assembly := { outcome.assembly with equates := assembly.equates } }

def carryOut [Evaluator] (macros : Table Macro) (expanding : List Text) (number : Nat)
    (assembly : Assembly) :
    Task → Outcome
  | .stop failure => ⟨assembly, failure⟩
  | .emit words => assembly.emit number words
  | .expand name found arguments =>
      invoke macros expanding number name found arguments assembly

theorem define_assembly (assembly : Assembly) (operands : List Text) :
    (assembly.define operands).assembly =
      { assembly with equates := (assembly.define operands).assembly.equates } := by
  unfold define
  split
  · split <;> rfl
  · rfl

/-- A line makes the edits of its beginning and then carries out what is left. -/
theorem process_eq [Evaluator] (macros : Table Macro) (expanding : List Text) (number : Nat)
    (line : Text) (assembly : Assembly) :
    process macros expanding number line assembly =
      carryOut macros expanding number
        (assembly.replay (beginning macros expanding number line assembly).edits)
        (beginning macros expanding number line assembly).task := by
  rw [process]
  cases read : Substitution.words (assembly.atLine number).equates line with
  | error failure => simp only [beginning, read]; rfl
  | ok words =>
      cases words with
      | nil => simp only [beginning, read]; rfl
      | cons first operands =>
          by_cases equate : first = equateWord
          · simp only [beginning, read, if_pos equate]
            exact congrArg (Outcome.mk · _) (define_assembly _ _)
          · have labels := (takeLabels_reflects (assembly.atLine number)
              (substitute (assembly.atLine number).equates (first :: operands))).replayed
            simp only [beginning, read, if_neg equate]
            -- Both sides go on from the assembly that the labels leave.
            cases taken : (assembly.atLine number).takeLabels
                (substitute (assembly.atLine number).equates (first :: operands)) with
            | mk labelled rest =>
                rw [taken] at labels
                change labelled = (assembly.atLine number).replay _ at labels
                change _ = carryOut macros expanding number ((assembly.atLine number).replay _) _
                rw [← labels]
                cases rest with
                | error failure => rfl
                | ok remaining =>
                    cases remaining with
                    | nil => rfl
                    | cons name arguments =>
                        by_cases misplaced : name = equateWord
                        · simp only [task, if_pos misplaced]
                          rfl
                        · simp only [task, if_neg misplaced]
                          split
                          · next absent => simp only [absent]; rfl
                          · next known =>
                            simp only [known]
                            split
                            · split
                              · rfl
                              · rfl
                            · rfl

/-! ### All edits of a line -/

def bodyEdits (process : Nat → Text → Assembly → Outcome)
    (edits : Nat → Text → Assembly → List Edit) (mark : Text) :
    Nat → List Text → Assembly → List Edit
  | _, [], _ => []
  | number, line :: rest, assembly =>
      let outcome := process number (Text.replaceByte 64 mark line) assembly
      edits number (Text.replaceByte 64 mark line) assembly ++
        match outcome.failure with
        | none => bodyEdits process edits mark (number + 1) rest outcome.assembly
        | some _ => []

theorem beginning_eq_expand [Evaluator] {macros : Table Macro} {expanding : List Text}
    {number : Nat} {line : Text} {assembly : Assembly} {name : Text} {found : Macro}
    {arguments : List Text}
    (expands :
      (beginning macros expanding number line assembly).task = .expand name found arguments) :
    macros.find? name = some found ∧ expanding.contains name = false ∧
      arguments.length = found.parameters.length := by
  unfold beginning at expands
  dsimp only at expands
  split at expands
  · cases expands
  · cases expands
  · split at expands
    · cases expands
    · exact task_eq_expand expands

/-- The edits that a line makes, those of all expansions in it included. The equates from before
an expansion are put back at its end, whether it fails or not. -/
def edits [Evaluator] (macros : Table Macro) (expanding : List Text) (number : Nat) (line : Text)
    (assembly : Assembly) : List Edit :=
  let ready := assembly.replay (beginning macros expanding number line assembly).edits
  (beginning macros expanding number line assembly).edits ++
    match expands : (beginning macros expanding number line assembly).task with
    | .stop _ => []
    | .emit words => ready.emitEdits number words
    | .expand name found arguments =>
        have := Macro.available_lt macros expanding name found (beginning_eq_expand expands).1
          (beginning_eq_expand expands).2.1
        let bound := ready.equates.setAll (found.parameters.zip arguments)
        .equates bound ::
          bodyEdits (process macros (name :: expanding)) (edits macros (name :: expanding))
            (Macro.localMark name number) found.line found.body { ready with equates := bound } ++
          [.equates ready.equates]
termination_by Macro.available macros expanding

theorem expandLines_reflects (process : Nat → Text → Assembly → Outcome)
    (edits : Nat → Text → Assembly → List Edit) (name mark : Text)
    (each : ∀ number line assembly,
      Reflects assembly (edits number line assembly) (process number line assembly))
    (number : Nat) (body : List Text) (assembly : Assembly) :
    Reflects assembly (bodyEdits process edits mark number body assembly)
      (expandLines process name mark number body assembly) := by
  induction body generalizing number assembly with
  | nil => exact .same none rfl
  | cons line rest ih =>
      have first := each number (Text.replaceByte 64 mark line) assembly
      simp only [bodyEdits, expandLines]
      cases failed : (process number (Text.replaceByte 64 mark line) assembly).failure with
      | none => exact first.trans failed (ih _ _)
      | some failure =>
          simp only [List.append_nil]
          exact ⟨first.replayed, first.admitted, fun impossible => nomatch impossible⟩

theorem invoke_reflects [Evaluator] (macros : Table Macro) (expanding : List Text) (number : Nat)
    (name : Text) (found : Macro) (arguments : List Text) (assembly : Assembly)
    (each : ∀ number line assembly,
      Reflects assembly (edits macros (name :: expanding) number line assembly)
        (process macros (name :: expanding) number line assembly)) :
    Reflects assembly
      (.equates (assembly.equates.setAll (found.parameters.zip arguments)) ::
        bodyEdits (process macros (name :: expanding)) (edits macros (name :: expanding))
          (Macro.localMark name number) found.line found.body
          { assembly with equates := assembly.equates.setAll (found.parameters.zip arguments) } ++
        [.equates assembly.equates])
      (invoke macros expanding number name found arguments assembly) := by
  have body := expandLines_reflects _ _ name (Macro.localMark name number) each found.line
    found.body
    { assembly with equates := assembly.equates.setAll (found.parameters.zip arguments) }
  refine ⟨?_, ⟨trivial, ?_⟩, body.bounded⟩
  · rw [List.cons_append, replay_cons, replay_append]
    exact congrArg (fun final : Assembly => { final with equates := assembly.equates })
      body.replayed
  · exact (admits_append _ _ _).mpr ⟨body.admitted, trivial, trivial⟩

theorem process_reflects [Evaluator] (macros : Table Macro) (expanding : List Text) (number : Nat)
    (line : Text) (assembly : Assembly) :
    Reflects assembly (edits macros expanding number line assembly)
      (process macros expanding number line assembly) := by
  -- The body of a macro is processed with one fewer macro that is not being expanded.
  induction left : Macro.available macros expanding using Nat.strongRecOn
    generalizing expanding number line assembly with
  | ind left ih =>
      subst left
      rw [process_eq, edits]
      have start := beginning_reflects macros expanding number line assembly
      refine start.trans rfl ?_
      split
      · next stops =>
        rw [stops]
        exact .same _ rfl
      · next emits =>
        rw [emits]
        exact emit_reflects _ _ _
      · next expands =>
        dsimp only
        rw [expands]
        have known := beginning_eq_expand expands
        have fewer := Macro.available_lt _ _ _ _ known.1 known.2.1
        exact invoke_reflects _ _ _ _ _ _ _ fun number line assembly =>
          ih _ fewer _ number line assembly rfl

end Assembly

end Nibble
