import Nibble.Assembler
import Nibble.Proofs.Assembly.Edits

set_option autoImplicit false

/-! The history of a whole pass, and what its end does. The edits of all lines that are read lead
from the start of the pass to the assembly that is linked, and linking changes nothing but the
words of the statements that wait for a label. -/

namespace Nibble

open Text (ascii)
open Assembly (Reflects)

instance decidableEqExcept {ε α : Type} [DecidableEq ε] [DecidableEq α] :
    DecidableEq (Except ε α)
  | .error one, .error other => decidable_of_iff (one = other) ⟨congrArg _, Except.error.inj⟩
  | .ok one, .ok other => decidable_of_iff (one = other) ⟨congrArg _, Except.ok.inj⟩
  | .error _, .ok _ => isFalse nofun
  | .ok _, .error _ => isFalse nofun

/-- Why a statement that waits for a label cannot be linked: the label is not defined, or its
address has more than twelve bits. -/
inductive Statement.Unlinkable (labels : Table Nat) (statement : Statement) : Failure → Prop where
  | missing (label : Text) (waits : statement.link = some label)
      (undefined : labels.find? label = none) : Unlinkable labels statement (.labelMissing label)
  | range (label : Text) (address : Nat) (waits : statement.link = some label)
      (defined : labels.find? label = some address) (beyond : 0xFFF < address) :
      Unlinkable labels statement (.valueRange address 0xFFF)

/-- Where a statement stands, and how many words it has. -/
def Statement.place (statement : Statement) : Int × Nat :=
  (statement.address, statement.codes.length)

namespace Pass

/-- The edits of a line that begins or ends no macro: none while a body is being read. -/
def plainEdits [Evaluator] (pass : Pass) : List Edit :=
  match pass.defining with
  | some _ => []
  | none => pass.assembly.edits pass.macros [] pass.number pass.line

def entered (pass : Pass) (text : Text) : Pass :=
  { pass with number := pass.number + 1, line := Source.content text }

def lineEdits [Evaluator] (pass : Pass) (text : Text) : List Edit :=
  match Text.fields (Source.content text) with
  | [] => (pass.entered text).plainEdits
  | first :: _ =>
      if first = ascii ".macro" then []
      else if first = ascii ".endm" then []
      else (pass.entered text).plainEdits

def history [Evaluator] (pass : Pass) : List Text → List Edit
  | [] => []
  | text :: rest =>
      pass.lineEdits text ++
        match pass.read text with
        | (after, none) => after.history rest
        | (_, some _) => []

theorem beginMacro_assembly (pass : Pass) (operands : List Text) :
    (pass.beginMacro operands).1.assembly = pass.assembly := by
  unfold beginMacro
  split
  · rfl
  · split
    · rfl
    · split <;> rfl

theorem endMacro_assembly (pass : Pass) : pass.endMacro.1.assembly = pass.assembly := by
  unfold endMacro
  split <;> rfl

def position (pass : Pass) : Nat × Text :=
  (pass.number, pass.line)

theorem readAll_append [Evaluator] (pass : Pass) (first second : List Text) :
    pass.readAll (first ++ second) =
      match pass.readAll first with
      | (middle, none) => middle.readAll second
      | (last, some failure) => (last, some failure) := by
  induction first generalizing pass with
  | nil => rfl
  | cons text rest ih =>
      rw [List.cons_append, readAll, readAll]
      rcases pass.read text with ⟨next, _ | failure⟩
      · exact ih next
      · rfl

theorem readPlain_reflects [Evaluator] (pass : Pass) :
    Reflects pass.assembly pass.plainEdits ⟨pass.readPlain.1.assembly, pass.readPlain.2⟩ := by
  cases defining : pass.defining with
  | none =>
      simp only [plainEdits, readPlain, defining]
      exact Assembly.process_reflects _ _ _ _ _
  | some opened =>
      simp only [plainEdits, readPlain, defining]
      exact Reflects.same none rfl

theorem read_reflects [Evaluator] (pass : Pass) (text : Text) :
    Reflects pass.assembly (pass.lineEdits text)
      ⟨(pass.read text).1.assembly, (pass.read text).2⟩ := by
  cases words : Text.fields (Source.content text) with
  | nil =>
      simp only [lineEdits, read, words]
      exact readPlain_reflects (pass.entered text)
  | cons first operands =>
      by_cases begins : first = ascii ".macro"
      · simp only [lineEdits, read, words, if_pos begins]
        exact Reflects.same _ (beginMacro_assembly _ _)
      · by_cases ends : first = ascii ".endm"
        · simp only [lineEdits, read, words, if_neg begins, if_pos ends]
          exact Reflects.same _ (endMacro_assembly _)
        · simp only [lineEdits, read, words, if_neg begins, if_neg ends]
          exact readPlain_reflects (pass.entered text)

theorem readAll_reflects [Evaluator] (pass : Pass) (lines : List Text) :
    Reflects pass.assembly (pass.history lines)
      ⟨(pass.readAll lines).1.assembly, (pass.readAll lines).2⟩ := by
  induction lines generalizing pass with
  | nil => exact Reflects.same none rfl
  | cons text rest ih =>
      have first := read_reflects pass text
      cases result : pass.read text with
      | mk after failure =>
          rw [result] at first
          cases failure with
          | none =>
              simp only [history, readAll, result]
              exact first.trans rfl (ih after)
          | some failure =>
              simp only [history, readAll, result, List.append_nil]
              exact first

/-! ### Linking -/

theorem linkStatement_eq_error {labels : Table Nat} {statement : Statement} {failure : Failure}
    (failed : linkStatement labels statement = .error failure) :
    statement.Unlinkable labels failure := by
  unfold linkStatement at failed
  split at failed
  · cases failed
  · next label waits =>
    split at failed
    · next undefined =>
      cases failed
      exact .missing label waits undefined
    · next address defined =>
      split at failed
      · next beyond =>
        cases failed
        exact .range label address waits defined beyond
      · cases failed

theorem not_unlinkable_of_ok {labels : Table Nat} {statement linked : Statement}
    (succeeded : linkStatement labels statement = .ok linked) :
    ¬ ∃ failure, statement.Unlinkable labels failure := by
  rintro ⟨_, unlinkable⟩
  cases unlinkable with
  | missing label waits undefined => simp [linkStatement, waits, undefined] at succeeded
  | range label address waits defined beyond =>
      simp [linkStatement, waits, defined, beyond] at succeeded

/-- A linked statement differs from the one before at most in its last word, which is then a call
of the address of its label. -/
theorem linkStatement_eq_ok {labels : Table Nat} {statement linked : Statement}
    (succeeded : linkStatement labels statement = .ok linked) :
    statement.link = none ∧ linked = statement ∨
      ∃ label address, statement.link = some label ∧ labels.find? label = some address ∧
        address ≤ 0xFFF ∧
        linked = { statement with
          codes := statement.codes.dropLast ++ [Word.call (UInt16.ofNat address)] } := by
  unfold linkStatement at succeeded
  split at succeeded
  · next free =>
    cases succeeded
    exact .inl ⟨free, rfl⟩
  · next label waits =>
    split at succeeded
    · cases succeeded
    · next address defined =>
      split at succeeded
      · cases succeeded
      · next within =>
        cases succeeded
        exact .inr ⟨label, address, waits, defined, Nat.le_of_not_lt within, rfl⟩

theorem exists_of_mem_link {labels : Table Nat} {statements linked : List Statement}
    (succeeded : link labels statements = (linked, none)) {after : Statement}
    (member : after ∈ linked) : ∃ before ∈ statements, linkStatement labels before = .ok after := by
  induction statements generalizing linked with
  | nil =>
      cases succeeded
      cases member
  | cons statement rest ih =>
      simp only [link] at succeeded
      cases result : linkStatement labels statement with
      | error failure =>
          simp only [result] at succeeded
          cases succeeded
      | ok first =>
          simp only [result] at succeeded
          cases tail : link labels rest with
          | mk others failure =>
              rw [tail] at succeeded
              cases succeeded
              rcases List.mem_cons.mp member with rfl | later
              · exact ⟨statement, List.mem_cons_self, result⟩
              · obtain ⟨before, present, found⟩ := ih tail later
                exact ⟨before, List.mem_cons_of_mem _ present, found⟩

/-- Whether linking is accomplished or not, it leaves statements as they were or linked. -/
theorem mem_link {labels : Table Nat} {statements : List Statement} {after : Statement}
    (member : after ∈ (link labels statements).1) :
    ∃ before ∈ statements, after = before ∨ linkStatement labels before = .ok after := by
  induction statements with
  | nil => cases member
  | cons statement rest ih =>
      cases result : linkStatement labels statement with
      | error failure =>
          simp only [link, result] at member
          exact ⟨after, member, .inl rfl⟩
      | ok linked =>
          simp only [link, result] at member
          rcases List.mem_cons.mp member with rfl | later
          · exact ⟨statement, List.mem_cons_self, .inr result⟩
          · obtain ⟨before, present, found⟩ := ih later
            exact ⟨before, List.mem_cons_of_mem _ present, found⟩

/-- Linking moves no statement and keeps the number of its words. -/
theorem places_link (labels : Table Nat) (statements : List Statement)
    (nonempty : ∀ statement ∈ statements, statement.codes ≠ []) :
    (link labels statements).1.map Statement.place = statements.map Statement.place := by
  induction statements with
  | nil => rfl
  | cons statement rest ih =>
      have tail := ih fun later member => nonempty later (List.mem_cons_of_mem _ member)
      cases result : linkStatement labels statement with
      | error failure => simp only [link, result]
      | ok linked =>
          simp only [link, result, List.map_cons, tail]
          rcases linkStatement_eq_ok result with ⟨_, rfl⟩ | ⟨label, address, _, _, _, rfl⟩
          · rfl
          · have positive :=
              List.length_pos_iff.mpr (nonempty statement List.mem_cons_self)
            have length : (statement.codes.dropLast ++ [Word.call (UInt16.ofNat address)]).length =
                statement.codes.length := by
              rw [List.length_append, List.length_dropLast, List.length_singleton]
              omega
            simp only [Statement.place, length]

/-- Linking fails at the first statement that cannot be linked, and the failure is reported with
the line and the words of that statement. -/
theorem link_fails {labels : Table Nat} {statements : List Statement}
    (exist : ∃ statement ∈ statements, ∃ failure, statement.Unlinkable labels failure) :
    ∃ before statement after cause, statements = before ++ statement :: after ∧
      (∀ earlier ∈ before, ¬ ∃ failure, earlier.Unlinkable labels failure) ∧
      statement.Unlinkable labels cause ∧
      (link labels statements).2 =
        some (.atLine statement.line (Text.spaced statement.words) cause) := by
  induction statements with
  | nil =>
      obtain ⟨_, member, _⟩ := exist
      cases member
  | cons first rest ih =>
      cases result : linkStatement labels first with
      | error cause =>
          refine ⟨[], first, rest, cause, rfl, ?_, linkStatement_eq_error result, ?_⟩
          · intro earlier member
            cases member
          · simp only [link, result]
      | ok linked =>
          have fine := not_unlinkable_of_ok result
          obtain ⟨statement, member, unlinkable⟩ := exist
          have later : statement ∈ rest := by
            rcases List.mem_cons.mp member with same | later
            · subst same
              exact absurd unlinkable fine
            · exact later
          obtain ⟨before, failing, after, cause, shape, earlier, why, reported⟩ :=
            ih ⟨statement, later, unlinkable⟩
          refine ⟨first :: before, failing, after, cause, ?_, ?_, why, ?_⟩
          · rw [shape, List.cons_append]
          · intro candidate present
            rcases List.mem_cons.mp present with same | inside
            · subst same
              exact fine
            · exact earlier candidate inside
          · simp only [link, result]
            exact reported

end Pass

namespace Assembler

variable [Evaluator]

/-- Whether a source is refused on one of its lines: not at its end for a line that is too long, for
a macro that is left open or for a call that cannot be linked. -/
def FailsOnLine (assembler : Assembler) (text : Text) : Prop :=
  ((Pass.start assembler.predefines).readAll (Source.ofText text).lines).2 ≠ none

theorem parse_of_failure {assembler : Assembler} {text : Text} {pass : Pass} {failure : Failure}
    (read : (Pass.start assembler.predefines).readAll (Source.ofText text).lines =
      (pass, some failure)) :
    assembler.parse text = ({ assembler with pass }, .error (pass.located failure)) := by
  rw [parse_eq, Pass.run]
  rw [read]

/-- A source that is read to its end without a failure is linked. -/
theorem parse_of_read {assembler : Assembler} {text : Text} {pass : Pass}
    (read : (Pass.start assembler.predefines).readAll (Source.ofText text).lines = (pass, none))
    (complete : (Source.ofText text).overlong = false) (closed : pass.defining = none) :
    assembler.parse text =
      let linked := Pass.link pass.assembly.labels pass.assembly.statements
      ({ assembler with
          pass := { pass with assembly := { pass.assembly with statements := linked.1 } } },
        match linked.2 with
        | none => .ok ⟨linked.1⟩
        | some failure => .error failure) := by
  rw [parse_eq, Pass.run]
  simp only [read, Pass.finish, complete, closed]
  cases result : Pass.link pass.assembly.labels pass.assembly.statements with
  | mk statements failure =>
      cases failure with
      | none => rfl
      | some failure => rfl

theorem pass_eq_run (assembler : Assembler) (text : Text) :
    (assembler.parse text).1.pass =
      ((Pass.start assembler.predefines).run (Source.ofText text)).1 := by
  rw [parse_eq]
  rcases (Pass.start assembler.predefines).run (Source.ofText text) with ⟨pass, _ | failure⟩
  · rfl
  · rfl

/-- Linking is all that happens behind the lines that are read, and it changes statements only. -/
theorem pass_of_parse (assembler : Assembler) (text : Text) :
    let read := ((Pass.start assembler.predefines).readAll (Source.ofText text).lines).1
    ∃ statements, (assembler.parse text).1.pass =
      { read with assembly := { read.assembly with statements } } := by
  rw [pass_eq_run]
  unfold Pass.run
  rcases (Pass.start assembler.predefines).readAll (Source.ofText text).lines with
    ⟨read, _ | failure⟩
  · dsimp only
    unfold Pass.finish
    split
    · exact ⟨read.assembly.statements, rfl⟩
    · split
      · exact ⟨read.assembly.statements, rfl⟩
      · exact ⟨(Pass.link read.assembly.labels read.assembly.statements).1, rfl⟩
  · exact ⟨read.assembly.statements, rfl⟩

/-- What a source that is accepted has gone through. -/
theorem exists_read_of_parse {assembler : Assembler} {text : Text} {program : Program}
    (accepted : (assembler.parse text).2 = .ok program) :
    ∃ pass, (Pass.start assembler.predefines).readAll (Source.ofText text).lines = (pass, none) ∧
      (Source.ofText text).overlong = false ∧ pass.defining = none ∧
      Pass.link pass.assembly.labels pass.assembly.statements = (program.statements, none) := by
  cases read : (Pass.start assembler.predefines).readAll (Source.ofText text).lines with
  | mk pass failure =>
      cases failure with
      | some failure =>
          simp only [parse_eq, Pass.run, read] at accepted
          cases accepted
      | none =>
          cases overlong : (Source.ofText text).overlong with
          | true =>
              simp only [parse_eq, Pass.run, read, Pass.finish, overlong] at accepted
              cases accepted
          | false =>
              cases defining : pass.defining with
              | some name =>
                  simp only [parse_eq, Pass.run, read, Pass.finish, overlong, defining] at accepted
                  cases accepted
              | none =>
                  refine ⟨pass, rfl, rfl, defining, ?_⟩
                  rw [parse_of_read read overlong defining] at accepted
                  cases result : Pass.link pass.assembly.labels pass.assembly.statements with
                  | mk statements failure =>
                      rw [result] at accepted
                      cases failure with
                      | none =>
                          cases accepted
                          rfl
                      | some failure => cases accepted

end Assembler

end Nibble
