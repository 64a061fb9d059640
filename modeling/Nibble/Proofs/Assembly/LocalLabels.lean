import Nibble.Proofs.Assembly.Visits
import Nibble.Proofs.Number
import Nibble.Proofs.Table
import Nibble.Standard

set_option autoImplicit false

/-! Local labels. A source is refused for a label where some visited line tries a label that was
tried before, and only there. A label that is written with `@` holds the mark of its expansion,
which tells the macro and the number of the line that invokes it, and no more. So the same label can
be tried in another expansion: where a body invokes a macro and is itself expanded twice, and where
what stands before the number of one label goes on like the mark of another. Where neither happens,
such labels do not repeat. -/

namespace Nibble

open Text (ascii)

namespace Assembly

/-! ### Labels that are tried -/

/-- What labels that are tried behind others come to: they are new and defined in their order, or
one of them is there already, and this is the failure. -/
inductive Tallies (before tried : List Text) (outcome : Outcome) : Prop where
  | fresh (other : outcome.failure.bind Failure.reason? ≠ some .labelDuplicate)
      (names : outcome.assembly.labels.names = before ++ tried)
      (distinct : before.Nodup → (before ++ tried).Nodup) : Tallies before tried outcome
  | repeated (reason : outcome.failure.bind Failure.reason? = some .labelDuplicate)
      (again : ¬ (before ++ tried).Nodup) : Tallies before tried outcome

namespace Tallies

variable {before tried : List Text}

theorem same {after : Assembly} {failure : Option Failure} (names : after.labels.names = before)
    (other : ∀ cause, failure = some cause → cause.reason? ≠ some .labelDuplicate) :
    Tallies before [] ⟨after, failure⟩ := by
  refine .fresh ?_ ?_ ?_
  · cases failure with
    | none => rintro ⟨⟩
    | some cause => exact other cause rfl
  · rw [List.append_nil]
    exact names
  · rw [List.append_nil]
    exact id

theorem trans {first second : List Text} {middle last : Outcome}
    (start : Tallies before first middle) (succeeded : middle.failure = none)
    (rest : Tallies middle.assembly.labels.names second last) :
    Tallies before (first ++ second) last := by
  cases start with
  | repeated reason =>
      rw [succeeded] at reason
      cases reason
  | fresh _ names distinct =>
      rw [names] at rest
      cases rest with
      | fresh other later apart =>
          rw [List.append_assoc] at later apart
          exact .fresh other later fun start => apart (distinct start)
      | repeated reason again =>
          rw [List.append_assoc] at again
          exact .repeated reason again

theorem seen {outcome seen : Outcome} (tallies : Tallies before tried outcome)
    (labels : seen.assembly.labels = outcome.assembly.labels)
    (reason : seen.failure.bind Failure.reason? = some .labelDuplicate ↔
      outcome.failure.bind Failure.reason? = some .labelDuplicate) :
    Tallies before tried seen := by
  cases tallies with
  | fresh other names distinct =>
      rw [← labels] at names
      exact .fresh (fun repeated => other (reason.mp repeated)) names distinct
  | repeated why again => exact .repeated (reason.mpr why) again

end Tallies

def failureOf {α : Type} : Except Failure α → Option Failure
  | .error failure => some failure
  | .ok _ => none

theorem takeLabels_tallies (assembly : Assembly) (words : List Text) :
    Tallies assembly.labels.names (assembly.labelsTried words)
      ⟨(assembly.takeLabels words).1, failureOf (assembly.takeLabels words).2⟩ := by
  induction words generalizing assembly with
  | nil => exact .same rfl (by rintro _ ⟨⟩)
  | cons word rest ih =>
      cases found : labelOf? word with
      | none =>
          simp only [takeLabels, labelsTried, found]
          exact .same rfl (by rintro _ ⟨⟩)
      | some label =>
          by_cases known : assembly.labels.has label = true
          · simp only [takeLabels, labelsTried, found, if_pos known]
            refine .repeated rfl ?_
            intro distinct
            have absent := (List.nodup_append.mp distinct).2.2 label (Table.mem_names_iff.mpr known)
            exact absent label List.mem_cons_self rfl
          · simp only [takeLabels, labelsTried, found, if_neg known]
            have new : assembly.labels.has label = false := Bool.eq_false_iff.mpr known
            have here : Tallies assembly.labels.names [label]
                ((Edit.label label).apply assembly).done := by
              refine .fresh (by rintro ⟨⟩) (Table.names_set_absent new assembly.location) ?_
              intro distinct
              refine List.nodup_append.mpr ⟨distinct, List.pairwise_singleton _ _, ?_⟩
              rintro earlier member _ last rfl
              rw [List.mem_singleton.mp last] at member
              exact known (Table.mem_names_iff.mp member)
            exact here.trans rfl (ih ((Edit.label label).apply assembly))

def Task.failure : Task → Option Failure
  | .stop failure => failure
  | .emit _ => none
  | .expand _ _ _ => none

theorem repeated_task_iff (macros : Table Macro) (expanding : List Text)
    (words : Except Failure (List Text)) :
    (task macros expanding words).failure.bind Failure.reason? = some .labelDuplicate ↔
      (failureOf words).bind Failure.reason? = some .labelDuplicate := by
  rcases words with failure | _ | ⟨name, arguments⟩
  case error => exact Iff.rfl
  case ok.nil => exact Iff.rfl
  case ok.cons =>
      constructor
      · intro repeated
        simp only [task] at repeated
        split at repeated
        · cases repeated
        · split at repeated
          · cases repeated
          · split at repeated
            · split at repeated
              · cases repeated
              · cases repeated
            · cases repeated
      · rintro ⟨⟩

theorem beginning_tallies [Evaluator] (macros : Table Macro) (expanding : List Text) (number : Nat)
    (line : Text) (assembly : Assembly) :
    Tallies assembly.labels.names (assembly.lineLabels number line)
      ⟨assembly.replay (beginning macros expanding number line assembly).edits,
        (beginning macros expanding number line assembly).task.failure⟩ := by
  have ordinary := Substitution.ordinary_words (assembly.atLine number).equates line
  cases read : Substitution.words (assembly.atLine number).equates line with
  | error failure =>
      simp only [beginning, lineLabels, read]
      refine .same rfl ?_
      rintro _ ⟨⟩
      exact (ordinary failure read).reason?_ne
  | ok words =>
      cases words with
      | nil =>
          simp only [beginning, lineLabels, read]
          exact .same rfl (by rintro _ ⟨⟩)
      | cons first operands =>
          by_cases equate : first = equateWord
          · simp only [beginning, lineLabels, read, if_pos equate]
            exact .same rfl fun _ failed => (ordinary_define _ _ failed).reason?_ne
          · simp only [beginning, lineLabels, read, if_neg equate]
            have taken := takeLabels_tallies (assembly.atLine number)
              (substitute (assembly.atLine number).equates (first :: operands))
            have labels := (takeLabels_reflects (assembly.atLine number)
              (substitute (assembly.atLine number).equates (first :: operands))).replayed
            exact taken.seen (congrArg Assembly.labels labels.symm) (repeated_task_iff _ _ _)

theorem expandLines_tallies {process : Nat → Text → Assembly → Outcome}
    {visits : Nat → Text → Assembly → List Visit}
    (each : ∀ number line assembly,
      Tallies assembly.labels.names ((visits number line assembly).flatMap Visit.labels)
        (process number line assembly))
    (name mark : Text) (number : Nat) (body : List Text) (assembly : Assembly) :
    Tallies assembly.labels.names
      ((bodyVisits process visits mark number body assembly).flatMap Visit.labels)
      (expandLines process name mark number body assembly) := by
  induction body generalizing number assembly with
  | nil => exact .same rfl (by rintro _ ⟨⟩)
  | cons line rest ih =>
      have first := each number (Text.replaceByte 64 mark line) assembly
      simp only [bodyVisits, expandLines, List.flatMap_append]
      cases failed : (process number (Text.replaceByte 64 mark line) assembly).failure with
      | none => exact first.trans failed (ih _ _)
      | some failure =>
          simp only [List.flatMap_nil, List.append_nil]
          refine first.seen rfl ?_
          rw [failed]
          rfl

theorem process_tallies [Evaluator] (macros : Table Macro) (path : List (Text × Nat)) (number : Nat)
    (line : Text) (assembly : Assembly) :
    Tallies assembly.labels.names
      ((assembly.visits macros path number line).flatMap Visit.labels)
      (process macros (pathNames path) number line assembly) := by
  induction path, number, line, assembly using visits_induction macros with
  | step path number line assembly inner =>
      -- The labels of the line itself come first, and then those of the body, if there is one.
      have start := beginning_tallies macros (pathNames path) number line assembly
      rw [process_eq, visits_eq, List.flatMap_cons]
      generalize assembly.replay (beginning macros (pathNames path) number line assembly).edits =
        ready at start ⊢
      cases task : (beginning macros (pathNames path) number line assembly).task with
      | stop failure =>
          rw [task] at start
          rw [innerVisits, List.flatMap_nil, List.append_nil]
          exact start
      | emit words =>
          rw [task] at start
          have labels := congrArg Table.names (emit_keeps ready number words).2
          refine start.trans rfl (.same labels fun cause failed => ?_)
          rcases emit_failure_cases failed with ordinary | rfl
          · exact ordinary.reason?_ne
          · rintro ⟨⟩
      | expand name found arguments =>
          rw [task] at start
          refine start.trans rfl ?_
          have body := expandLines_tallies (inner name found arguments task) name
            (Macro.localMark name number) found.line found.body
            { ready with equates := ready.equates.setAll (found.parameters.zip arguments) }
          exact body.seen rfl Iff.rfl

end Assembly

namespace Pass

open Assembly (Tallies)

theorem read_tallies [Evaluator] (pass : Pass) (text : Text) :
    Tallies pass.assembly.labels.names ((pass.lineVisits text).flatMap Visit.labels)
      ⟨(pass.read text).1.assembly, (pass.read text).2⟩ := by
  unfold lineVisits
  split
  · next plain =>
    rw [read_of_processes plain]
    exact Assembly.process_tallies pass.macros [] _ _ _
  · next other =>
    have plain : pass.processes text = false := Bool.eq_false_iff.mpr other
    refine .same ?_ fun _ failed => (ordinary_read plain failed).reason?_ne
    rw [assembly_read plain]

theorem readAll_tallies [Evaluator] (pass : Pass) (lines : List Text) :
    Tallies pass.assembly.labels.names ((pass.visits lines).flatMap Visit.labels)
      ⟨(pass.readAll lines).1.assembly, (pass.readAll lines).2⟩ := by
  induction lines generalizing pass with
  | nil => exact .same rfl (by rintro _ ⟨⟩)
  | cons text rest ih =>
      have first := pass.read_tallies text
      rw [visits, readAll, List.flatMap_append]
      rcases step : pass.read text with ⟨next, _ | failure⟩
      · rw [step] at first
        exact first.trans rfl (ih next)
      · rw [step] at first
        rw [List.flatMap_nil, List.append_nil]
        exact first

end Pass

/-! ### Marks -/

theorem Text.split_last_underscore {front other back rest : Text}
    (absent : Number.underscore ∉ back) (missing : Number.underscore ∉ rest)
    (same : front ++ Number.underscore :: back = other ++ Number.underscore :: rest) :
    front = other ∧ back = rest := by
  rcases List.append_eq_append_iff.mp same with ⟨gap, other_eq, back_eq⟩ | ⟨gap, front_eq, rest_eq⟩
  · cases gap with
    | nil => exact ⟨by rw [other_eq, List.append_nil], (List.cons.inj back_eq).2⟩
    | cons first more =>
        rw [(List.cons.inj back_eq).2] at absent
        exact absurd (List.mem_append_right _ List.mem_cons_self) absent
  · cases gap with
    | nil => exact ⟨by rw [front_eq, List.append_nil], (List.cons.inj rest_eq).2.symm⟩
    | cons first more =>
        rw [(List.cons.inj rest_eq).2] at missing
        exact absurd (List.mem_append_right _ List.mem_cons_self) missing

namespace Macro

/-- The mark of an expansion without its last underscore. -/
def stem (name : Text) (number : Nat) : Text :=
  name ++ Number.underscore :: Numeral.decimal number

theorem localMark_eq (name : Text) (number : Nat) :
    localMark name number = stem name number ++ [Number.underscore] := by
  have written : ascii "_" = [Number.underscore] := by decide
  rw [localMark, stem, written, List.append_assoc name]
  rfl

theorem stem_injective {name other : Text} {number line : Nat}
    (same : stem name number = stem other line) : name = other ∧ number = line := by
  have parts := Text.split_last_underscore (Number.underscore_not_mem_decimal number)
    (Number.underscore_not_mem_decimal line) same
  exact ⟨parts.1, Number.decimal_injective parts.2⟩

theorem localMark_eq_append (name : Text) (number : Nat) :
    localMark name number =
      name ++ Number.underscore :: (Numeral.decimal number ++ [Number.underscore]) := by
  rw [localMark_eq, stem, List.append_assoc]
  rfl

theorem digits_eq_of_append {number : Nat} {digits tail : Text}
    (same : Numeral.decimal number ++ [Number.underscore] = digits ++ Number.underscore :: tail) :
    digits = Numeral.decimal number := by
  rcases List.append_eq_append_iff.mp same with ⟨gap, longer, ending⟩ | ⟨gap, shorter, ending⟩
  · cases gap with
    | nil => rw [longer, List.append_nil]
    | cons byte rest =>
        have length := congrArg List.length ending
        simp only [List.length_cons, List.length_append, List.length_nil] at length
        omega
  · cases gap with
    | nil => rw [shorter, List.append_nil]
    | cons byte rest =>
        have digit : byte ∈ Numeral.decimal number := by
          rw [shorter]
          exact List.mem_append_right _ List.mem_cons_self
        rw [← (List.cons.inj ending).1] at digit
        exact absurd digit (Number.underscore_not_mem_decimal number)

/-- Whether the name of a macro begins with the mark of an expansion, or with all of it but the last
underscore. -/
def ContinuesMark (name : Text) (number : Nat) (longer : Text) : Prop :=
  stem name number = longer ∨ localMark name number <+: longer

instance (name : Text) (number : Nat) (longer : Text) :
    Decidable (ContinuesMark name number longer) :=
  inferInstanceAs (Decidable (_ ∨ _))

/-- A mark begins with another one if both are of the same macro and line, or if the name of its
macro begins like the other mark. -/
theorem prefix_localMark_iff {name other : Text} {number line : Nat} :
    localMark name number <+: localMark other line ↔
      name = other ∧ number = line ∨ ContinuesMark name number other := by
  constructor
  · rintro ⟨tail, same⟩
    rw [localMark_eq_append other, localMark_eq, List.append_assoc, List.singleton_append] at same
    rcases List.append_eq_append_iff.mp same with ⟨gap, other_eq, rest_eq⟩ | ⟨gap, stem_eq, rest_eq⟩
    · cases gap with
      | nil => exact .inr (.inl (by rw [other_eq, List.append_nil]))
      | cons first more =>
          obtain ⟨rfl, _⟩ := List.cons.inj rest_eq
          refine .inr (.inr ⟨more, ?_⟩)
          rw [localMark_eq, other_eq, List.append_assoc, List.singleton_append]
    · cases gap with
      | nil => exact .inr (.inl (by rw [stem_eq, List.append_nil]))
      | cons first digits =>
          -- Digits hold no underscore, so the next one is the last of both marks.
          obtain ⟨rfl, digits_eq⟩ := List.cons.inj rest_eq
          rw [digits_eq_of_append digits_eq] at stem_eq
          exact .inl (stem_injective stem_eq)
  · rintro (⟨rfl, rfl⟩ | rfl | longer)
    · exact List.prefix_refl _
    · refine ⟨Numeral.decimal line ++ [Number.underscore], ?_⟩
      rw [localMark_eq_append (stem name number), localMark_eq, List.append_assoc,
        List.singleton_append]
    · rw [localMark_eq_append other]
      exact longer.trans (List.prefix_append _ _)

end Macro

/-! ### Labels that are written with `@` -/

/-- A label that a body writes with `@`, in an expansion: the macro and the line that invokes it,
and what is written in front of the first `@` and behind it. -/
structure LocalLabel where
  name : Text
  number : Nat
  front : Text
  back : Text
deriving DecidableEq, Repr

namespace LocalLabel

def written (label : LocalLabel) : Text :=
  label.front ++ 64 :: label.back

/-- What the label is called in the expansion. -/
def text (label : LocalLabel) : Text :=
  Text.replaceByte 64 (Macro.localMark label.name label.number) label.written

/-- What the label is called up to the underscore in front of the first line number. -/
def head (label : LocalLabel) : Text :=
  label.front ++ label.name

/-- Whether the first mark of one label begins with that of the other. -/
def Clashes (one other : LocalLabel) : Prop :=
  one.head = other.head ∧ one.number = other.number ∨
    Macro.ContinuesMark one.head one.number other.head ∨
    Macro.ContinuesMark other.head other.number one.head

theorem text_eq {label : LocalLabel} (first : 64 ∉ label.front) :
    label.text =
      Macro.localMark label.head label.number ++
        Text.replaceByte 64 (Macro.localMark label.name label.number) label.back := by
  have behind : ∀ mark : Text, Text.replaceByte 64 mark (64 :: label.back) =
      mark ++ Text.replaceByte 64 mark label.back := fun mark => List.flatMap_cons
  rw [text, written, Text.replaceByte_append, Text.replaceByte_of_not_mem _ first, behind,
    ← List.append_assoc]
  simp only [Macro.localMark, head, List.append_assoc]

theorem clashes_of_text_eq {one other : LocalLabel} (first : 64 ∉ one.front)
    (otherFirst : 64 ∉ other.front) (same : one.text = other.text) : one.Clashes other := by
  have marked := text_eq first
  have otherMarked := text_eq otherFirst
  rw [← same] at otherMarked
  -- The text begins with both marks, so that one of them begins with the other.
  rcases List.prefix_or_prefix_of_prefix ⟨_, marked.symm⟩ ⟨_, otherMarked.symm⟩ with short | long
  · exact (Macro.prefix_localMark_iff.mp short).imp_right .inl
  · rcases Macro.prefix_localMark_iff.mp long with ⟨heads, numbers⟩ | continued
    · exact .inl ⟨heads.symm, numbers.symm⟩
    · exact .inr (.inr continued)

theorem not_mem_localMark {head : Text} (absent : 64 ∉ head) (number : Nat) :
    64 ∉ Macro.localMark head number := by
  have digits : 64 ∉ Numeral.decimal number := Numeral.not_mem_decimal number (by decide)
  have other : (64 : UInt8) ≠ Number.underscore := by decide
  simp [Macro.localMark_eq_append, absent, digits, other]

theorem text_with_back {label : LocalLabel} (absent : 64 ∉ label.head) {back : Text}
    (plain : 64 ∉ back) :
    { label with back := back }.text = Macro.localMark label.head label.number ++ back := by
  have first : 64 ∉ label.front := fun member => absent (List.mem_append_left _ member)
  rw [@text_eq { label with back := back } first, Text.replaceByte_of_not_mem _ plain]
  rfl

theorem exists_back_of_continues {one other : LocalLabel} (absent : 64 ∉ one.head)
    (otherAbsent : 64 ∉ other.head)
    (continued : Macro.ContinuesMark one.head one.number other.head) :
    ∃ back, { one with back := back }.text = { other with back := [] }.text := by
  obtain ⟨tail, longer⟩ := Macro.prefix_localMark_iff.mpr (.inr continued : _ ∨ _)
  have plain : 64 ∉ tail := by
    intro member
    apply not_mem_localMark otherAbsent other.number
    rw [← longer]
    exact List.mem_append_right _ member
  refine ⟨tail, ?_⟩
  rw [text_with_back absent plain, text_with_back otherAbsent List.not_mem_nil, List.append_nil]
  exact longer

/-- Labels that clash are called the same for a suitable text behind the first `@`. -/
theorem exists_back_of_clashes {one other : LocalLabel} (absent : 64 ∉ one.head)
    (otherAbsent : 64 ∉ other.head) (clashes : one.Clashes other) :
    ∃ back otherBack, { one with back := back }.text = { other with back := otherBack }.text := by
  rcases clashes with ⟨heads, numbers⟩ | continued | continued
  · refine ⟨[], [], ?_⟩
    rw [text_with_back absent List.not_mem_nil, text_with_back otherAbsent List.not_mem_nil, heads,
      numbers]
  · obtain ⟨back, same⟩ := exists_back_of_continues absent otherAbsent continued
    exact ⟨back, [], same⟩
  · obtain ⟨back, same⟩ := exists_back_of_continues otherAbsent absent continued
    exact ⟨[], back, same.symm⟩

/-- Whether two expansions are begun by the same line of one body, in two expansions of it. -/
def SharesInvocation (path other : List (Text × Nat)) : Prop :=
  ∃ name invoked number outer here there rest others,
    path = (name, number) :: (outer, here) :: rest ∧
    other = (invoked, number) :: (outer, there) :: others

/-- Whether labels of two expansions can be called the same: the expansions are begun by the same
line of a body and the labels have one head, or the head of one label goes on like the mark of the
other. -/
def Shares (one other : LocalLabel) (path otherPath : List (Text × Nat)) : Prop :=
  one.head = other.head ∧ SharesInvocation path otherPath ∨
    Macro.ContinuesMark one.head one.number other.head ∨
    Macro.ContinuesMark other.head other.number one.head

end LocalLabel

/-! ### Attempts -/

/-- A label when it is tried: the visit of its line, and its place among the labels of the line. -/
structure Attempt where
  visit : Visit
  index : Nat
  label : Text
deriving DecidableEq, Repr

def Visit.attempts (visit : Visit) : List Attempt :=
  visit.labels.zipIdx.map fun entry => { visit, index := entry.2, label := entry.1 }

def Source.wordAt? (lines : List Text) (number index : Nat) : Option Text :=
  (lineAt? lines number).bind fun source => (Text.wordsOf (content source))[index]?

namespace Attempt

/-- The label as the body of the innermost expansion writes it, if it is written there with `@`. A
label outside all expansions is not, nor is one that an equate or an expression puts in place of the
word. -/
def localLabel? (lines : List Text) (attempt : Attempt) : Option LocalLabel :=
  match attempt.visit.path,
      (Source.wordAt? lines attempt.visit.number attempt.index).bind Assembly.labelOf? with
  | (name, number) :: _, some written =>
      let label : LocalLabel :=
        { name, number, front := Text.before 64 written,
          back := (written.dropWhile (· != 64)).tail }
      if label.written = written ∧ label.text = attempt.label then some label else none
  | _, _ => none

/-- What is known of a label that is written with `@`. -/
structure Writes (attempt : Attempt) (label : LocalLabel) : Prop where
  path : ∃ outer, attempt.visit.path = (label.name, label.number) :: outer
  first : 64 ∉ label.front
  called : attempt.label = label.text

theorem writes_of_localLabel? {lines : List Text} {attempt : Attempt} {label : LocalLabel}
    (found : label ∈ attempt.localLabel? lines) : attempt.Writes label := by
  unfold localLabel? at found
  split at found
  · next name number outer written path _ =>
    dsimp only at found
    split at found
    · next same =>
      cases found
      refine ⟨⟨outer, path⟩, ?_, same.2.symm⟩
      intro member
      have other := List.mem_takeWhile_imp member
      cases other
    · cases found
  · cases found

theorem clashes_of_shares {one other : Attempt} {label otherLabel : LocalLabel}
    (writes : one.Writes label) (otherWrites : other.Writes otherLabel)
    (shares : label.Shares otherLabel one.visit.path other.visit.path) :
    label.Clashes otherLabel := by
  obtain ⟨outer, path⟩ := writes.path
  obtain ⟨otherOuter, otherPath⟩ := otherWrites.path
  refine shares.imp_left ?_
  rintro ⟨heads, name, invoked, number, _, _, _, _, _, here, there⟩
  have first := congrArg Prod.snd (List.cons.inj (path.symm.trans here)).1
  have second := congrArg Prod.snd (List.cons.inj (otherPath.symm.trans there)).1
  exact ⟨heads, first.trans second.symm⟩

end Attempt

/-- What keeps labels that are written with `@` apart from each other and from all others. -/
structure Separated (lines : List Text) (attempts : List Attempt) : Prop where
  /-- No line begins two expansions that try such labels. -/
  invocations : ∀ one ∈ attempts, ∀ other ∈ attempts, ∀ label ∈ one.localLabel? lines,
    ∀ otherLabel ∈ other.localLabel? lines, label.number = otherLabel.number →
      one.visit.path = other.visit.path
  /-- No head goes on like the mark of an expansion. -/
  marks : ∀ one ∈ attempts, ∀ other ∈ attempts, ∀ label ∈ one.localLabel? lines,
    ∀ otherLabel ∈ other.localLabel? lines,
      ¬ Macro.ContinuesMark label.head label.number otherLabel.head
  /-- There is one `@` in a label. -/
  single : ∀ one ∈ attempts, ∀ label ∈ one.localLabel? lines, 64 ∉ label.back
  /-- A macro writes a label in one place. -/
  once : ∀ one ∈ attempts, ∀ other ∈ attempts, ∀ label ∈ one.localLabel? lines,
    ∀ otherLabel ∈ other.localLabel? lines, label.name = otherLabel.name →
      label.written = otherLabel.written →
        one.visit.number = other.visit.number ∧ one.index = other.index
  /-- No other label holds the mark of an expansion. -/
  ordinary : ∀ one ∈ attempts, one.localLabel? lines = none → ∀ other ∈ attempts,
    ∀ label ∈ other.localLabel? lines,
      ¬ Macro.localMark label.name label.number <:+: one.label

namespace Separated

variable {lines : List Text} {attempts : List Attempt} {one other : Attempt}

theorem ordinary_of_same_label (separated : Separated lines attempts) (member : one ∈ attempts)
    (otherMember : other ∈ attempts) (same : one.label = other.label)
    (plain : one.localLabel? lines = none) : other.localLabel? lines = none := by
  cases found : other.localLabel? lines with
  | none => rfl
  | some label =>
      have writes := Attempt.writes_of_localLabel? (Option.mem_def.mpr found)
      apply absurd _ (separated.ordinary one member plain other otherMember label found)
      rw [same, writes.called, LocalLabel.text, LocalLabel.written, Text.replaceByte_append]
      refine List.IsInfix.trans ?_ (List.suffix_append _ _).isInfix
      exact ⟨[], _, rfl⟩

theorem places_of_same_label (separated : Separated lines attempts) (member : one ∈ attempts)
    (otherMember : other ∈ attempts) (same : one.label = other.label)
    {label otherLabel : LocalLabel} (found : label ∈ one.localLabel? lines)
    (otherFound : otherLabel ∈ other.localLabel? lines) :
    (one.visit.place, one.index) = (other.visit.place, other.index) := by
  have writes := Attempt.writes_of_localLabel? found
  have otherWrites := Attempt.writes_of_localLabel? otherFound
  rw [writes.called, otherWrites.called] at same
  rcases LocalLabel.clashes_of_text_eq writes.first otherWrites.first same with
    ⟨heads, numbers⟩ | continued | continued
  · have paths := separated.invocations one member other otherMember label found otherLabel
      otherFound numbers
    obtain ⟨outer, path⟩ := writes.path
    obtain ⟨otherOuter, otherPath⟩ := otherWrites.path
    have names : label.name = otherLabel.name := by
      have top := path.symm.trans (paths.trans otherPath)
      exact congrArg Prod.fst (List.cons.inj top).1
    have fronts : label.front = otherLabel.front := by
      rw [LocalLabel.head, LocalLabel.head, names] at heads
      exact List.append_cancel_right heads
    have backs : label.back = otherLabel.back := by
      rw [LocalLabel.text_eq writes.first, LocalLabel.text_eq otherWrites.first, heads, numbers,
        Text.replaceByte_of_not_mem _ (separated.single one member label found),
        Text.replaceByte_of_not_mem _ (separated.single other otherMember otherLabel otherFound)]
        at same
      exact List.append_cancel_left same
    have written : label.written = otherLabel.written := by
      rw [LocalLabel.written, LocalLabel.written, fronts, backs]
    obtain ⟨line, index⟩ := separated.once one member other otherMember label found otherLabel
      otherFound names written
    rw [Visit.place, Visit.place, paths, line, index]
  · exact absurd continued
      (separated.marks one member other otherMember label found otherLabel otherFound)
  · exact absurd continued
      (separated.marks other otherMember one member otherLabel otherFound label found)

end Separated

namespace Visit

theorem visit_of_mem_attempts {visit : Visit} {attempt : Attempt}
    (member : attempt ∈ visit.attempts) : attempt.visit = visit := by
  obtain ⟨entry, _, rfl⟩ := List.mem_map.mp member
  rfl

theorem mem_of_mem_attempts {visits : List Visit} {attempt : Attempt}
    (member : attempt ∈ visits.flatMap attempts) : attempt.visit ∈ visits := by
  obtain ⟨visit, present, inside⟩ := List.mem_flatMap.mp member
  rw [visit_of_mem_attempts inside]
  exact present

theorem label_attempts (visits : List Visit) :
    (visits.flatMap attempts).map Attempt.label = visits.flatMap labels := by
  have each : ∀ visit : Visit, visit.attempts.map Attempt.label = visit.labels := by
    intro visit
    rw [attempts, List.map_map]
    exact List.zipIdx_map_fst 0 visit.labels
  rw [List.map_flatMap]
  exact congrArg (fun labels => visits.flatMap labels) (funext each)

theorem attempts_pairwise {visits : List Visit} (apart : visits.Pairwise Apart) :
    (visits.flatMap attempts).Pairwise fun one other =>
      (one.visit.place, one.index) ≠ (other.visit.place, other.index) := by
  refine List.pairwise_flatMap.mpr ⟨?_, apart.imp ?_⟩
  · intro visit _
    rw [List.pairwise_iff_getElem]
    intro first second inside otherInside order same
    have indexes := congrArg Prod.snd same
    simp only [attempts, List.getElem_map, List.getElem_zipIdx] at indexes
    omega
  · intro visit other different one member another otherMember same
    apply different.places
    rw [← visit_of_mem_attempts member, ← visit_of_mem_attempts otherMember]
    exact congrArg Prod.fst same

end Visit

theorem Separated.pairwise {lines : List Text} {attempts : List Attempt}
    (separated : Separated lines attempts)
    (different : attempts.Pairwise fun one other =>
      (one.visit.place, one.index) ≠ (other.visit.place, other.index)) :
    attempts.Pairwise fun one other => one.label = other.label →
      one.localLabel? lines = none ∧ other.localLabel? lines = none := by
  refine different.imp_of_mem ?_
  intro one other member otherMember places same
  cases found : one.localLabel? lines with
  | none => exact ⟨rfl, separated.ordinary_of_same_label member otherMember same found⟩
  | some label =>
      cases otherFound : other.localLabel? lines with
      | none =>
          have plain := separated.ordinary_of_same_label otherMember member same.symm otherFound
          rw [found] at plain
          cases plain
      | some otherLabel =>
          exact absurd (separated.places_of_same_label member otherMember same found otherFound)
            places

/-- Where the labels written with `@` are apart, only the others can repeat. -/
theorem Attempt.nodup_label_iff {lines : List Text} {attempts : List Attempt}
    (alone : attempts.Pairwise fun one other => one.label = other.label →
      one.localLabel? lines = none ∧ other.localLabel? lines = none) :
    (attempts.map Attempt.label).Nodup ↔
      ((attempts.filter fun attempt => (attempt.localLabel? lines).isNone).map
        Attempt.label).Nodup := by
  rw [List.nodup_iff_pairwise_ne, List.nodup_iff_pairwise_ne, List.pairwise_map,
    List.pairwise_map, List.pairwise_filter]
  constructor
  · exact List.Pairwise.imp fun distinct _ _ => distinct
  · intro ordinary
    refine (alone.and ordinary).imp ?_
    rintro one other ⟨both, distinct⟩ same
    obtain ⟨plain, otherPlain⟩ := both same
    rw [plain, otherPlain] at distinct
    exact distinct rfl rfl same

namespace Pass

open LocalLabel (SharesInvocation)

/-- Two expansions that one line begins are expansions of one macro outside all bodies, and else
they stand in expansions of one macro. -/
theorem sharesInvocation_of_mem_visits [Evaluator] {predefines : Table Text} {lines : List Text}
    {one other : Visit} (member : one ∈ (start predefines).visits lines)
    (otherMember : other ∈ (start predefines).visits lines) (different : one.path ≠ other.path)
    {name invoked : Text} {number : Nat} {outer otherOuter : List (Text × Nat)}
    (path : one.path = (name, number) :: outer)
    (otherPath : other.path = (invoked, number) :: otherOuter) :
    SharesInvocation one.path other.path := by
  have reaches := reaches_of_mem_visits member
  have otherReaches := reaches_of_mem_visits otherMember
  rw [path] at reaches
  rw [otherPath] at otherReaches
  rcases reaches.2.same_body otherReaches.2 with
    ⟨rfl, rfl⟩ | ⟨around, here, there, rest, others, rfl, rfl⟩
  · have names := Visit.agrees_of_mem (visits_pairwise _ _) member otherMember name invoked number
      [] ⟨[], path.symm⟩ ⟨[], otherPath.symm⟩
    rw [path, otherPath, names] at different
    exact absurd rfl different
  · exact ⟨name, invoked, number, around, here, there, rest, others, path, otherPath⟩

theorem shares_of_label_eq [Evaluator] {predefines : Table Text} {lines : List Text}
    {one other : Attempt} (member : one.visit ∈ (start predefines).visits lines)
    (otherMember : other.visit ∈ (start predefines).visits lines)
    (different : one.visit.path ≠ other.visit.path) {label otherLabel : LocalLabel}
    (writes : one.Writes label) (otherWrites : other.Writes otherLabel)
    (same : one.label = other.label) :
    label.Shares otherLabel one.visit.path other.visit.path := by
  obtain ⟨outer, path⟩ := writes.path
  obtain ⟨otherOuter, otherPath⟩ := otherWrites.path
  rw [writes.called, otherWrites.called] at same
  rcases LocalLabel.clashes_of_text_eq writes.first otherWrites.first same with
    ⟨heads, numbers⟩ | continued
  · rw [← numbers] at otherPath
    have invocation :=
      sharesInvocation_of_mem_visits member otherMember different path otherPath
    exact .inl ⟨heads, invocation⟩
  · exact .inr continued

end Pass

namespace Assembler

def visits [Evaluator] (assembler : Assembler) (text : Text) : List Visit :=
  (Pass.start assembler.predefines).visits (Source.ofText text).lines

/-- Whether a source is refused for a label that is there already. -/
def RepeatsLabel [Evaluator] (assembler : Assembler) (text : Text) : Prop :=
  ∃ failure, (assembler.parse text).2 = .error failure ∧ failure.reason? = some .labelDuplicate

theorem repeatsLabel_iff [Evaluator] (assembler : Assembler) (text : Text) :
    assembler.RepeatsLabel text ↔ ¬ ((assembler.visits text).flatMap Visit.labels).Nodup := by
  have tally := (Pass.start assembler.predefines).readAll_tallies (Source.ofText text).lines
  cases read : (Pass.start assembler.predefines).readAll (Source.ofText text).lines with
  | mk pass result =>
      rw [read] at tally
      cases result with
      | some failure =>
          have rejected := parse_of_failure read
          constructor
          · rintro ⟨seen, refused, reason⟩
            rw [rejected] at refused
            cases refused
            cases tally with
            | fresh other => exact absurd reason other
            | repeated _ again => exact again
          · intro again
            refine ⟨_, congrArg Prod.snd rejected, ?_⟩
            cases tally with
            | fresh _ _ distinct => exact absurd (distinct List.nodup_nil) again
            | repeated reason => exact reason
      | none =>
          constructor
          · rintro ⟨seen, refused, reason⟩
            rw [parse_eq, Pass.run] at refused
            rw [read] at refused
            dsimp only at refused
            rcases ending : pass.finish (Source.ofText text).overlong with ⟨last, _ | failure⟩
            · rw [ending] at refused
              cases refused
            · rw [ending] at refused
              cases refused
              obtain ⟨number, line, cause, rfl, ordinary⟩ :=
                Pass.ordinary_finish (congrArg Prod.snd ending)
              exact absurd reason ordinary.reason?_ne
          · intro again
            cases tally with
            | fresh _ _ distinct => exact absurd (distinct List.nodup_nil) again
            | repeated reason => cases reason

open Standard

-- Another case: `m` on line 7 and `pm_7` on line 8 both have the label `pm_7_8_z`.
example : (visits {} (ascii
      ".macro m\np@8_z: halt\n.endm\n.macro pm_7\n@z: halt\n.endm\nm\npm_7")).filter
    (fun visit => visit.labels ≠ []) =
      [⟨[(ascii "m", 7)], 2, [ascii "pm_7_8_z"]⟩,
        ⟨[(ascii "pm_7", 8)], 5, [ascii "pm_7_8_z"]⟩] := by
  decide +kernel

end Assembler

end Nibble
