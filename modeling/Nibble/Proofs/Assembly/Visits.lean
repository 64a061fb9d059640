import Mathlib.Data.List.Pairwise
import Nibble.Proofs.Assembly.Attribution

set_option autoImplicit false

/-! The lines that are visited. A source is gone through in the order of its lines, and where a line
invokes a macro, through the lines of the body before the next one. A visit is told from all others
by the number of its line and the invocations in whose expansions it stands, and what is processed
is the line of the source with this number, with the mark of the expansion for every `@`. -/

namespace Nibble

/-- A line when it is processed: the macros in whose expansions it stands, each with the line that
invokes it, the innermost first; its number; and the labels it tries to define. -/
structure Visit where
  path : List (Text × Nat)
  number : Nat
  labels : List Text
deriving DecidableEq, Repr

def pathNames (path : List (Text × Nat)) : List Text :=
  path.map Prod.fst

/-- A line as it is processed along a path: in an expansion, with its mark for every `@`. -/
def marked : List (Text × Nat) → Text → Text
  | [], line => line
  | (name, number) :: _, line => Text.replaceByte 64 (Macro.localMark name number) line

namespace Visit

def place (visit : Visit) : List (Text × Nat) × Nat :=
  (visit.path, visit.number)

/-- Whether a visit is that of a line, given by its place, or one in the expansion of the macro that
this line invokes. -/
def Below (visit : Visit) (path : List (Text × Nat)) (number : Nat) : Prop :=
  visit.place = (path, number) ∨ ∃ name, (name, number) :: path <:+ visit.path

theorem Below.suffix {visit : Visit} {path : List (Text × Nat)} {number : Nat}
    (below : visit.Below path number) : path <:+ visit.path := by
  rcases below with same | ⟨name, deeper⟩
  · have equal : visit.path = path := congrArg Prod.fst same
    exact ⟨[], equal.symm⟩
  · exact (List.suffix_cons _ _).trans deeper

theorem Below.exists_deeper {visit : Visit} {path rest : List (Text × Nat)} {number line : Nat}
    {name : Text} (below : visit.Below path number) (inside : (name, line) :: rest <:+ visit.path)
    (long : path.length ≤ rest.length) :
    ∃ invoked, (invoked, number) :: path <:+ (name, line) :: rest := by
  rcases below with here | ⟨invoked, deeper⟩
  · have length := inside.length_le
    rw [show visit.path = path from congrArg Prod.fst here, List.length_cons] at length
    omega
  · exact ⟨invoked, List.suffix_of_suffix_length_le deeper inside (Nat.succ_le_succ long)⟩

theorem not_cons_suffix {entry : Text × Nat} {path : List (Text × Nat)} :
    ¬ entry :: path <:+ path := by
  intro longer
  have length := longer.length_le
  rw [List.length_cons] at length
  omega

theorem invoked_of_suffix {name invoked : Text} {number line : Nat}
    {path whole : List (Text × Nat)} (first : (name, number) :: path <:+ whole)
    (second : (invoked, line) :: path <:+ whole) : name = invoked ∧ number = line := by
  have longer := List.suffix_of_suffix_length_le first second (Nat.le_refl (path.length + 1))
  have equal := longer.eq_of_length rfl
  cases equal
  exact ⟨rfl, rfl⟩

/-- Where two visits stand in the expansion that one line begins along one path, it is an expansion
of one macro. -/
def Agrees (one other : Visit) : Prop :=
  ∀ name invoked number path, (name, number) :: path <:+ one.path →
    (invoked, number) :: path <:+ other.path → name = invoked

instance : Std.Symm Agrees where
  symm _ _ agrees name invoked number path first second :=
    (agrees invoked name number path second first).symm

theorem agrees_self (visit : Visit) : visit.Agrees visit := by
  intro name invoked number path first second
  exact (invoked_of_suffix first second).1

/-- Two visits of one run. -/
structure Apart (one other : Visit) : Prop where
  places : one.place ≠ other.place
  agrees : one.Agrees other

theorem agrees_of_mem {visits : List Visit} (apart : visits.Pairwise Apart) {one other : Visit}
    (member : one ∈ visits) (otherMember : other ∈ visits) : one.Agrees other :=
  (apart.imp Apart.agrees).forall_of_forall (fun visit _ => visit.agrees_self) member otherMember

/-- A visit and those in the expansion that it begins. -/
theorem apart_of_suffix {one other : Visit} {name : Text} {number : Nat}
    (deeper : (name, number) :: one.path <:+ other.path) : one.Apart other := by
  constructor
  · intro same
    rw [show one.path = other.path from congrArg Prod.fst same] at deeper
    exact not_cons_suffix deeper
  · intro first second line path here there
    have short := here.length_le
    have within := List.suffix_of_suffix_length_le there ((List.suffix_cons _ _).trans deeper)
      (show _ ≤ one.path.length from short)
    exact (invoked_of_suffix here within).1

/-- Visits in the expansions that two lines begin. -/
theorem Below.apart {one other : Visit} {path : List (Text × Nat)} {number line : Nat}
    (below : one.Below path number) (otherBelow : other.Below path line)
    (different : number ≠ line) : one.Apart other := by
  constructor
  · intro same
    have paths : one.path = other.path := congrArg Prod.fst same
    rcases below with here | ⟨name, deeper⟩
    · rcases otherBelow with there | ⟨name, deeper⟩
      · exact different (congrArg Prod.snd (here.symm.trans (same.trans there)))
      · rw [← paths, show one.path = path from congrArg Prod.fst here] at deeper
        exact not_cons_suffix deeper
    · rcases otherBelow with there | ⟨invoked, otherDeeper⟩
      · rw [paths, show other.path = path from congrArg Prod.fst there] at deeper
        exact not_cons_suffix deeper
      · -- Both are ends of one path, and equally long.
        rw [← paths] at otherDeeper
        exact different (invoked_of_suffix deeper otherDeeper).2
  · intro name invoked place rest first second
    by_cases short : rest.length < path.length
    · have inside := List.suffix_of_suffix_length_le first below.suffix short
      have otherInside := List.suffix_of_suffix_length_le second otherBelow.suffix short
      exact (invoked_of_suffix inside otherInside).1
    · -- The longer ends hold the lines themselves, whose numbers differ.
      have long : path.length ≤ rest.length := Nat.le_of_not_lt short
      obtain ⟨outer, deeper⟩ := below.exists_deeper first long
      obtain ⟨otherOuter, otherDeeper⟩ := otherBelow.exists_deeper second long
      rcases List.suffix_cons_iff.mp deeper with top | inner
      · cases top
        rcases List.suffix_cons_iff.mp otherDeeper with otherTop | otherInner
        · cases otherTop
          exact absurd rfl different
        · exact absurd otherInner not_cons_suffix
      · rcases List.suffix_cons_iff.mp otherDeeper with otherTop | otherInner
        · cases otherTop
          exact absurd inner not_cons_suffix
        · exact absurd (invoked_of_suffix inner otherInner).2 different

end Visit

namespace Assembly

/-! ### The visits of a line -/

/-- The labels that the words at the front of a line ask for, up to the first that is there
already. -/
def labelsTried (assembly : Assembly) : List Text → List Text
  | [] => []
  | word :: rest =>
      match labelOf? word with
      | none => []
      | some label =>
          if assembly.labels.has label then [label]
          else label :: ((Edit.label label).apply assembly).labelsTried rest

def lineLabels [Evaluator] (number : Nat) (line : Text) (assembly : Assembly) : List Text :=
  let current := assembly.atLine number
  match Substitution.words current.equates line with
  | .ok (first :: operands) =>
      if first = equateWord then []
      else current.labelsTried (substitute current.equates (first :: operands))
  | _ => []

def bodyVisits (process : Nat → Text → Assembly → Outcome)
    (visits : Nat → Text → Assembly → List Visit) (mark : Text) :
    Nat → List Text → Assembly → List Visit
  | _, [], _ => []
  | number, line :: rest, assembly =>
      let outcome := process number (Text.replaceByte 64 mark line) assembly
      visits number (Text.replaceByte 64 mark line) assembly ++
        match outcome.failure with
        | none => bodyVisits process visits mark (number + 1) rest outcome.assembly
        | some _ => []

/-- The visit of a line, and those of all lines in the expansion of the macro it invokes. -/
def visits [Evaluator] (macros : Table Macro) (path : List (Text × Nat)) (number : Nat)
    (line : Text) (assembly : Assembly) : List Visit :=
  let expanding := pathNames path
  let ready := assembly.replay (beginning macros expanding number line assembly).edits
  { path, number, labels := assembly.lineLabels number line } ::
    match expands : (beginning macros expanding number line assembly).task with
    | .stop _ => []
    | .emit _ => []
    | .expand name found arguments =>
        have := Macro.available_lt macros expanding name found (beginning_eq_expand expands).1
          (beginning_eq_expand expands).2.1
        bodyVisits (process macros (name :: expanding)) (visits macros ((name, number) :: path))
          (Macro.localMark name number) found.line found.body
          { ready with equates := ready.equates.setAll (found.parameters.zip arguments) }
termination_by Macro.available macros (pathNames path)

def innerVisits [Evaluator] (macros : Table Macro) (path : List (Text × Nat)) (number : Nat)
    (assembly : Assembly) : Task → List Visit
  | .stop _ => []
  | .emit _ => []
  | .expand name found arguments =>
      bodyVisits (process macros (name :: pathNames path))
        (visits macros ((name, number) :: path)) (Macro.localMark name number) found.line found.body
        { assembly with equates := assembly.equates.setAll (found.parameters.zip arguments) }

theorem visits_eq [Evaluator] (macros : Table Macro) (path : List (Text × Nat)) (number : Nat)
    (line : Text) (assembly : Assembly) :
    assembly.visits macros path number line =
      { path, number, labels := assembly.lineLabels number line } ::
        innerVisits macros path number
          (assembly.replay (beginning macros (pathNames path) number line assembly).edits)
          (beginning macros (pathNames path) number line assembly).task := by
  rw [visits]
  congr 1
  split
  · next stops => rw [stops, innerVisits]
  · next emits => rw [emits, innerVisits]
  · next expands =>
    dsimp only
    rw [expands, innerVisits]

/-- What holds of a line if it holds of every line in the macro that it invokes holds of all
lines. -/
theorem visits_induction [Evaluator] (macros : Table Macro)
    {motive : List (Text × Nat) → Nat → Text → Assembly → Prop}
    (step : ∀ path number line assembly,
      (∀ name found arguments,
        (beginning macros (pathNames path) number line assembly).task =
          .expand name found arguments →
        ∀ inner text reached, motive ((name, number) :: path) inner text reached) →
      motive path number line assembly)
    (path : List (Text × Nat)) (number : Nat) (line : Text) (assembly : Assembly) :
    motive path number line assembly := by
  induction left : Macro.available macros (pathNames path) using Nat.strongRecOn
    generalizing path number line assembly with
  | ind left ih =>
      subst left
      apply step
      intro name found arguments expands inner text reached
      have known := beginning_eq_expand expands
      exact ih _ (Macro.available_lt _ _ _ _ known.1 known.2.1) _ inner text reached rfl

variable {process : Nat → Text → Assembly → Outcome} {each : Nat → Text → Assembly → List Visit}

theorem exists_of_mem_bodyVisits {mark : Text} {number : Nat} {body : List Text}
    {assembly : Assembly} {visit : Visit}
    (member : visit ∈ bodyVisits process each mark number body assembly) :
    ∃ index text reached, body[index]? = some text ∧
      visit ∈ each (number + index) (Text.replaceByte 64 mark text) reached := by
  induction body generalizing number assembly with
  | nil => cases member
  | cons text rest ih =>
      simp only [bodyVisits] at member
      rcases List.mem_append.mp member with here | later
      · exact ⟨0, text, assembly, rfl, here⟩
      · split at later
        · obtain ⟨index, line, reached, found, present⟩ := ih later
          rw [Nat.add_assoc, Nat.add_comm 1 index] at present
          exact ⟨index + 1, line, reached, found, present⟩
        · cases later

theorem mem_visits [Evaluator] {macros : Table Macro} {path : List (Text × Nat)} {number : Nat}
    {line : Text} {assembly : Assembly} {visit : Visit}
    (member : visit ∈ assembly.visits macros path number line) :
    visit = { path, number, labels := assembly.lineLabels number line } ∨
      ∃ name found arguments,
        (beginning macros (pathNames path) number line assembly).task =
          .expand name found arguments ∧
        ∃ index text reached, found.body[index]? = some text ∧
          visit ∈ visits macros ((name, number) :: path) (found.line + index)
            (Text.replaceByte 64 (Macro.localMark name number) text) reached := by
  rw [visits_eq] at member
  rcases List.mem_cons.mp member with first | later
  · exact .inl first
  · cases task : (beginning macros (pathNames path) number line assembly).task with
    | stop failure | emit words =>
        rw [task] at later
        cases later
    | expand name found arguments =>
        rw [task] at later
        exact .inr ⟨name, found, arguments, rfl, exists_of_mem_bodyVisits later⟩

theorem visits_below [Evaluator] (macros : Table Macro) (path : List (Text × Nat)) (number : Nat)
    (line : Text) (assembly : Assembly) :
    ∀ visit ∈ assembly.visits macros path number line, visit.Below path number := by
  induction path, number, line, assembly using visits_induction macros with
  | step path number line assembly inner =>
      intro visit member
      rcases mem_visits member with rfl | ⟨name, _, _, expands, _, _, reached, _, present⟩
      · exact .inl rfl
      · have deeper := inner name _ _ expands _ _ reached visit present
        exact .inr ⟨name, deeper.suffix⟩

theorem bodyVisits_pairwise {path : List (Text × Nat)}
    (apart : ∀ number text assembly, (each number text assembly).Pairwise Visit.Apart)
    (below : ∀ number text assembly, ∀ visit ∈ each number text assembly, visit.Below path number)
    (mark : Text) (number : Nat) (body : List Text) (assembly : Assembly) :
    (bodyVisits process each mark number body assembly).Pairwise Visit.Apart := by
  induction body generalizing number assembly with
  | nil => exact .nil
  | cons text rest ih =>
      rw [bodyVisits]
      refine List.pairwise_append.mpr ⟨apart _ _ _, ?_, ?_⟩
      · split
        · exact ih _ _
        · exact .nil
      · -- Visits of two lines of a body are below lines with different numbers.
        intro one first other later
        split at later
        · obtain ⟨index, _, reached, _, present⟩ := exists_of_mem_bodyVisits later
          exact (below _ _ _ one first).apart (below _ _ _ other present) (by omega)
        · cases later

theorem visits_pairwise [Evaluator] (macros : Table Macro) (path : List (Text × Nat)) (number : Nat)
    (line : Text) (assembly : Assembly) :
    (assembly.visits macros path number line).Pairwise Visit.Apart := by
  induction path, number, line, assembly using visits_induction macros with
  | step path number line assembly inner =>
      rw [visits_eq]
      cases task : (beginning macros (pathNames path) number line assembly).task with
      | stop failure | emit words => exact List.pairwise_singleton _ _
      | expand name found arguments =>
          refine List.pairwise_cons.mpr ⟨?_, ?_⟩
          · intro visit later
            obtain ⟨_, _, reached, _, present⟩ := exists_of_mem_bodyVisits later
            exact Visit.apart_of_suffix (visits_below _ _ _ _ _ visit present).suffix
          · exact bodyVisits_pairwise (inner name found arguments task)
              (fun number text assembly => visits_below macros _ number text assembly) _ _ _ _

end Assembly

/-! ### The visits of a source -/

namespace Pass

def lineVisits [Evaluator] (pass : Pass) (text : Text) : List Visit :=
  if pass.processes text then
    pass.assembly.visits pass.macros [] (pass.number + 1) (Source.content text)
  else []

def visits [Evaluator] (pass : Pass) : List Text → List Visit
  | [] => []
  | text :: rest =>
      pass.lineVisits text ++
        match pass.read text with
        | (after, none) => after.visits rest
        | (_, some _) => []

theorem exists_of_mem_visits [Evaluator] {pass : Pass} {lines : List Text} {visit : Visit}
    (member : visit ∈ pass.visits lines) :
    ∃ before text after middle, lines = before ++ text :: after ∧
      pass.readAll before = (middle, none) ∧ middle.processes text = true ∧
      visit ∈
        middle.assembly.visits middle.macros [] (middle.number + 1) (Source.content text) := by
  induction lines generalizing pass with
  | nil => cases member
  | cons text rest ih =>
      rw [visits] at member
      rcases List.mem_append.mp member with here | later
      · unfold lineVisits at here
        split at here
        · next plain => exact ⟨[], text, rest, pass, rfl, rfl, plain, here⟩
        · cases here
      · rcases step : pass.read text with ⟨next, _ | failure⟩
        · rw [step] at later
          obtain ⟨before, line, after, middle, rfl, read, plain, found⟩ := ih later
          refine ⟨text :: before, line, after, middle, rfl, ?_, plain, found⟩
          rw [readAll, step]
          exact read
        · rw [step] at later
          cases later

theorem visits_pairwise [Evaluator] (pass : Pass) (lines : List Text) :
    (pass.visits lines).Pairwise Visit.Apart := by
  induction lines generalizing pass with
  | nil => exact .nil
  | cons text rest ih =>
      rw [visits]
      refine List.pairwise_append.mpr ⟨?_, ?_, ?_⟩
      · unfold lineVisits
        split
        · exact Assembly.visits_pairwise _ _ _ _ _
        · exact .nil
      · split
        · exact ih _
        · exact .nil
      · intro one first other later
        unfold lineVisits at first
        split at first
        · have here := Assembly.visits_below _ _ _ _ _ one first
          rcases step : pass.read text with ⟨next, _ | failure⟩
          · rw [step] at later
            obtain ⟨before, _, _, middle, _, read, _, present⟩ := exists_of_mem_visits later
            have there := Assembly.visits_below _ _ _ _ _ other present
            have counted := number_readAll read
            have position := congrArg Prod.fst (pass.read_position text)
            rw [step] at position
            change next.number = pass.number + 1 at position
            exact here.apart there (by omega)
          · rw [step] at later
            cases later
        · cases first

end Pass

/-! ### Where visited lines stand -/

/-- Whether a line of a source can be visited along a path: it stands in the body of the innermost
macro, which is invoked on a line that can be visited along the rest of the path. Along no path it
stands outside all bodies. -/
def Source.Reaches (lines : List Text) : List (Text × Nat) → Nat → Prop
  | [], number => ∀ name first last, Defines lines name first last → first < number → last ≤ number
  | (name, invocation) :: rest, number =>
      (∃ first last, Defines lines name first last ∧ first < number ∧ number < last) ∧
        Reaches lines rest invocation

/-- A line stands in the same body along all paths. -/
theorem Source.Reaches.same_body {lines : List Text} {path other : List (Text × Nat)} {number : Nat}
    (reaches : Reaches lines path number) (otherReaches : Reaches lines other number) :
    path = [] ∧ other = [] ∨
      ∃ name here there rest others,
        path = (name, here) :: rest ∧ other = (name, there) :: others := by
  cases path with
  | nil =>
      cases other with
      | nil => exact .inl ⟨rfl, rfl⟩
      | cons place others =>
          obtain ⟨⟨first, last, defines, above, below⟩, _⟩ := otherReaches
          have outside := reaches _ first last defines above
          omega
  | cons place rest =>
      obtain ⟨⟨first, last, defines, above, below⟩, _⟩ := reaches
      cases other with
      | nil =>
          have outside := otherReaches _ first last defines above
          omega
      | cons otherPlace others =>
          obtain ⟨⟨start, final, otherDefines, behind, before⟩, _⟩ := otherReaches
          obtain ⟨name, here⟩ := place
          obtain ⟨invoked, there⟩ := otherPlace
          have same : name = invoked := defines.unique above below otherDefines behind before
          subst same
          exact .inr ⟨name, here, there, rest, others, rfl, rfl⟩

theorem Assembly.reaches_of_mem_visits [Evaluator] {lines : List Text} {macros : Table Macro}
    (known : ∀ name found, macros.find? name = some found →
      ∃ first, found.line = first + 1 ∧
        Source.Defines lines name first (found.line + found.body.length))
    (path : List (Text × Nat)) (number : Nat) (line : Text) (assembly : Assembly)
    (reaches : Source.Reaches lines path number) :
    ∀ visit ∈ assembly.visits macros path number line,
      Source.Reaches lines visit.path visit.number := by
  induction path, number, line, assembly using visits_induction macros with
  | step path number line assembly inner =>
      intro visit member
      rcases mem_visits member with
        rfl | ⟨name, found, arguments, expands, index, _, reached, written, present⟩
      · exact reaches
      · obtain ⟨first, begins, defines⟩ := known name found (beginning_eq_expand expands).1
        have below := (List.getElem?_eq_some_iff.mp written).1
        refine inner name found arguments expands _ _ reached ⟨?_, reaches⟩ visit present
        exact ⟨first, _, defines, by omega, by omega⟩

theorem Pass.reaches_of_mem_visits [Evaluator] {predefines : Table Text} {lines : List Text}
    {visit : Visit} (member : visit ∈ (start predefines).visits lines) :
    Source.Reaches lines visit.path visit.number := by
  obtain ⟨before, text, after, pass, rfl, read, plain, present⟩ := exists_of_mem_visits member
  have closed := defining_of_processes plain
  have counted : pass.number = before.length := (number_readAll read).trans (Nat.zero_add _)
  refine Assembly.reaches_of_mem_visits ?_ _ _ _ _ ?_ visit present
  · intro name found known
    obtain ⟨first, begins, defines, _⟩ := (collected_of_read read).defines closed known
    exact ⟨first, begins, defines.append _⟩
  · intro name first last defines above
    rw [counted] at above ⊢
    exact not_defines_of_closed read closed defines above

/-! ### What visited lines read -/

/-- The labels of a visit are asked for by the line of the source with its number, as it is
processed along the path. -/
def Visit.Reads [Evaluator] (lines : List Text) (visit : Visit) : Prop :=
  ∃ source assembly, Source.lineAt? lines visit.number = some source ∧
    visit.labels =
      Assembly.lineLabels visit.number (marked visit.path (Source.content source)) assembly

theorem Assembly.reads_of_mem_visits [Evaluator] {lines : List Text} {macros : Table Macro}
    (known : ∀ name found, macros.find? name = some found → found.Written lines name)
    (path : List (Text × Nat)) (number : Nat) (line : Text) (assembly : Assembly) {source : Text}
    (stands : Source.lineAt? lines number = some source)
    (same : line = marked path (Source.content source)) :
    ∀ visit ∈ assembly.visits macros path number line, visit.Reads lines := by
  induction path, number, line, assembly using visits_induction macros generalizing source with
  | step path number line assembly inner =>
      intro visit member
      rcases mem_visits member with
        rfl | ⟨name, found, arguments, expands, index, text, reached, written, present⟩
      · exact ⟨source, assembly, stands, by rw [same]⟩
      · have below := (List.getElem?_eq_some_iff.mp written).1
        obtain ⟨other, standing, content, _⟩ :=
          (known name found (beginning_eq_expand expands).1).body index below
        cases written.symm.trans content
        exact inner name found arguments expands _ _ reached standing rfl visit present

theorem Pass.reads_of_mem_visits [Evaluator] {predefines : Table Text} {lines : List Text}
    {visit : Visit} (member : visit ∈ (start predefines).visits lines) : visit.Reads lines := by
  obtain ⟨before, text, after, pass, rfl, read, plain, present⟩ := exists_of_mem_visits member
  have counted : pass.number = before.length := (number_readAll read).trans (Nat.zero_add _)
  refine Assembly.reads_of_mem_visits ?_ [] _ _ _ ?_ rfl visit present
  · intro name found known
    exact (collected_of_read read).written
      (fun inside => absurd (defining_of_processes plain) inside) known
  · rw [counted, Source.lineAt?, List.getElem?_append_right (Nat.le_refl _), Nat.sub_self]
    rfl

end Nibble
