import Nibble.Proofs.Assembly.Layout
import Nibble.Proofs.Table
import Nibble.Standard

set_option autoImplicit false

/-! Labels and links. A label keeps the location at which it was defined, whatever is processed
afterwards, so that a call that is linked at the end of the pass leads to the place of its label;
and a call that cannot be linked is reported at the first statement for which this holds. -/

namespace Nibble

namespace Edit

def moves : Edit → Bool
  | .origin _ => true
  | .statement _ => true
  | .equates _ => false
  | .label _ => false

def added? : Edit → Option Statement
  | .statement added => some added
  | _ => none

end Edit

namespace Assembly

theorem statements_replay (assembly : Assembly) (edits : List Edit) :
    (assembly.replay edits).statements = assembly.statements ++ edits.filterMap Edit.added? := by
  induction edits generalizing assembly with
  | nil => exact (List.append_nil _).symm
  | cons edit rest ih =>
      rw [replay_cons, ih]
      cases edit with
      | equates table => rfl
      | label name => rfl
      | origin address => rfl
      | statement added =>
          change (assembly.statements ++ [added]) ++ _ = _
          rw [List.append_assoc]
          rfl

theorem location_replay {assembly : Assembly} {edits : List Edit}
    (still : ∀ edit ∈ edits, edit.moves = false) :
    (assembly.replay edits).location = assembly.location := by
  induction edits generalizing assembly with
  | nil => rfl
  | cons edit rest ih =>
      rw [replay_cons, ih fun later member => still later (List.mem_cons_of_mem _ member)]
      have here := still edit List.mem_cons_self
      cases edit with
      | equates table => rfl
      | label name => rfl
      | origin address => cases here
      | statement added => cases here

/-! ### Labels stay -/

theorem find?_labels_apply {assembly : Assembly} {edit : Edit} (allowed : edit.Allowed assembly)
    {name : Text} {address : Nat} (defined : assembly.labels.find? name = some address) :
    (edit.apply assembly).labels.find? name = some address := by
  cases edit with
  | equates table => exact defined
  | origin location => exact defined
  | statement added => exact defined
  | label other =>
      have different : name ≠ other := by
        rintro rfl
        rw [Table.find?_of_absent allowed] at defined
        cases defined
      exact (Table.find?_set_of_ne _ _ _ _ different).trans defined

theorem find?_labels_replay {assembly : Assembly} {edits : List Edit}
    (admitted : assembly.Admits edits) {name : Text} {address : Nat}
    (defined : assembly.labels.find? name = some address) :
    (assembly.replay edits).labels.find? name = some address := by
  induction edits generalizing assembly with
  | nil => exact defined
  | cons edit rest ih => exact ih admitted.2 (find?_labels_apply admitted.1 defined)

theorem exists_of_find?_labels {assembly : Assembly} {edits : List Edit} {name : Text}
    {address : Nat} (defined : (assembly.replay edits).labels.find? name = some address) :
    assembly.labels.find? name = some address ∨
      ∃ before later, edits = before ++ .label name :: later ∧
        (assembly.replay before).location = address := by
  induction edits generalizing assembly with
  | nil => exact .inl defined
  | cons edit rest ih =>
      rcases ih defined with earlier | ⟨before, later, shape, location⟩
      · cases edit with
        | equates table => exact .inl earlier
        | origin location => exact .inl earlier
        | statement added => exact .inl earlier
        | label other =>
            by_cases same : name = other
            · subst same
              have here := (Table.find?_set_self name assembly.location assembly.labels).symm.trans
                earlier
              exact .inr ⟨[], rest, rfl, Option.some.inj here⟩
            · exact .inl ((Table.find?_set_of_ne _ _ _ _ same).symm.trans earlier)
      · refine .inr ⟨edit :: before, later, ?_, location⟩
        rw [shape, List.cons_append]

/-- A label is in the table exactly with the location of the moment at which it was defined. -/
theorem find?_labels_iff {assembly : Assembly} {edits : List Edit}
    (admitted : assembly.Admits edits) (fresh : assembly.labels = []) {name : Text}
    {address : Nat} :
    (assembly.replay edits).labels.find? name = some address ↔
      ∃ before later, edits = before ++ .label name :: later ∧
        (assembly.replay before).location = address := by
  constructor
  · intro defined
    rcases exists_of_find?_labels defined with earlier | here
    · rw [fresh] at earlier
      cases earlier
    · exact here
  · rintro ⟨before, later, rfl, rfl⟩
    obtain ⟨_, _, admittedLater⟩ := (admits_append _ _ _).mp admitted
    rw [replay_append, replay_cons]
    exact find?_labels_replay admittedLater (Table.find?_set_self _ _ _)

/-- The next statement behind a label stands where the label was defined, unless the location is
moved in between. -/
theorem address_of_next {assembly : Assembly} {before between rest : List Edit} {name : Text}
    {added : Statement}
    (admitted : assembly.Admits
      (before ++ .label name :: (between ++ .statement added :: rest)))
    (still : ∀ edit ∈ between, edit.moves = false) :
    added.address = (assembly.replay before).location := by
  obtain ⟨_, _, admittedLater⟩ := (admits_append _ _ _).mp admitted
  obtain ⟨_, allowed, _⟩ := (admits_append _ _ _).mp admittedLater
  rw [allowed.1, location_replay still]
  rfl

end Assembly

namespace Assembler

open Text (ascii)

def history [Evaluator] (assembler : Assembler) (text : Text) : List Edit :=
  (Pass.start assembler.predefines).history (Source.ofText text).lines

def start (assembler : Assembler) : Assembly :=
  (Pass.start assembler.predefines).assembly

theorem history_reflects [Evaluator] (assembler : Assembler) (text : Text) :
    assembler.start.Reflects (assembler.history text)
      ⟨((Pass.start assembler.predefines).readAll (Source.ofText text).lines).1.assembly,
        ((Pass.start assembler.predefines).readAll (Source.ofText text).lines).2⟩ :=
  Pass.readAll_reflects _ _

/-- What a source leaves, whether it is accepted or not: the labels of its history, and the
statements of its history at their places. -/
theorem parse_leaves [Evaluator] (assembler : Assembler) (text : Text) :
    (assembler.parse text).1.pass.assembly.labels =
      (assembler.start.replay (assembler.history text)).labels ∧
    (assembler.parse text).1.pass.assembly.statements.map Statement.place =
      ((assembler.history text).filterMap Edit.added?).map Statement.place := by
  have leads := (history_reflects assembler text).replayed
  have laid := laidOut_readAll assembler.predefines (Source.ofText text).lines
  have added := Assembly.statements_replay assembler.start (assembler.history text)
  change _ = [] ++ _ at added
  rw [List.nil_append] at added
  rw [← added, ← leads]
  -- Only a source that is read to its end is linked; what any other leaves is not touched again.
  cases read : (Pass.start assembler.predefines).readAll (Source.ofText text).lines with
  | mk pass failure =>
      rw [read] at laid
      cases failure with
      | some failure =>
          have same : (assembler.parse text).1.pass = pass := by
            simp only [parse_eq, Pass.run, read]
          rw [same]
          exact ⟨rfl, rfl⟩
      | none =>
          cases overlong : (Source.ofText text).overlong with
          | true =>
              have same : (assembler.parse text).1.pass = pass := by
                simp only [parse_eq, Pass.run, read, Pass.finish, overlong, if_true]
              rw [same]
              exact ⟨rfl, rfl⟩
          | false =>
              cases defining : pass.defining with
              | some name =>
                  have same : (assembler.parse text).1.pass = pass := by
                    simp only [parse_eq, Pass.run, read, Pass.finish, overlong, defining]
                    rfl
                  rw [same]
                  exact ⟨rfl, rfl⟩
              | none =>
                  rw [parse_of_read read overlong defining]
                  exact ⟨rfl, Pass.places_link _ _ laid.nonempty⟩

theorem call_eq_or {address : Nat} (small : address ≤ 0xFFF) :
    Word.call (UInt16.ofNat address) = UInt16.ofNat (0x2000 ||| address) := by
  have joined : 0x2000 ||| address = 0x2000 + address :=
    (Nat.two_pow_add_eq_or_of_lt (i := 12) (by omega) 2).symm
  unfold Word.call
  rw [joined, UInt16.toNat_ofNat', Nat.mod_eq_of_lt (by omega), Nat.mod_eq_of_lt (by omega)]

/-- A statement of the history that waits for a label is a single call. -/
theorem single_of_waiting {assembly : Assembly} {edits : List Edit}
    (admitted : assembly.Admits edits) {statement : Statement}
    (member : statement ∈ edits.filterMap Edit.added?) {label : Text}
    (waits : statement.link = some label) :
    label ≠ [] ∧ statement.codes = [Word.call 0] := by
  induction edits generalizing assembly with
  | nil => cases member
  | cons edit rest ih =>
      rw [List.filterMap_cons] at member
      cases edit with
      | equates table => exact ih admitted.2 member
      | label name => exact ih admitted.2 member
      | origin address => exact ih admitted.2 member
      | statement added =>
          rcases List.mem_cons.mp member with rfl | later
          · exact admitted.1.2.2 label waits
          · exact ih admitted.2 later

/-- Where the lines of a source have been read, whether they fail or not, every statement that waits
for a label is a single call. -/
theorem single_of_read [Evaluator] {assembler : Assembler} {text : Text} {pass : Pass}
    {failure : Option Failure}
    (read : (Pass.start assembler.predefines).readAll (Source.ofText text).lines = (pass, failure))
    {statement : Statement} (present : statement ∈ pass.assembly.statements) {label : Text}
    (waits : statement.link = some label) : label ≠ [] ∧ statement.codes = [Word.call 0] := by
  have reflected := history_reflects assembler text
  have added := Assembly.statements_replay assembler.start (assembler.history text)
  change _ = [] ++ _ at added
  rw [← reflected.replayed, read, List.nil_append] at added
  rw [added] at present
  exact single_of_waiting reflected.admitted present waits

/-- In an accepted source every statement that waited for a label has become a call of the address
of the label. -/
theorem linked_of_parse [Evaluator] {assembler : Assembler} {text : Text} {program : Program}
    (accepted : (assembler.parse text).2 = .ok program) :
    program.statements = (assembler.parse text).1.pass.assembly.statements ∧
    ∀ statement ∈ program.statements, ∀ label, statement.link = some label →
      label ≠ [] ∧
      ∃ address, (assembler.parse text).1.pass.assembly.labels.find? label = some address ∧
        address ≤ 0xFFF ∧ statement.codes = [UInt16.ofNat (0x2000 ||| address)] := by
  obtain ⟨pass, read, complete, closed, linked⟩ := exists_read_of_parse accepted
  rw [parse_of_read read complete closed, linked]
  refine ⟨rfl, fun statement member label waits => ?_⟩
  obtain ⟨before, present, result⟩ := Pass.exists_of_mem_link linked member
  rcases Pass.linkStatement_eq_ok result with
    ⟨free, rfl⟩ | ⟨target, address, waiting, found, small, rfl⟩
  · rw [free] at waits
    cases waits
  · have same : target = label := Option.some.inj (waiting.symm.trans waits)
    subst same
    obtain ⟨linked, single⟩ := single_of_read read present waiting
    refine ⟨linked, address, found, small, ?_⟩
    rw [single, ← call_eq_or small]
    rfl

theorem exists_next_statement [Evaluator] {assembler : Assembler} {text name : Text}
    {before between rest : List Edit} {added : Statement}
    (shape : assembler.history text =
      before ++ .label name :: (between ++ .statement added :: rest))
    (still : ∀ edit ∈ between, edit.moves = false) :
    ∃ statement, (assembler.parse text).1.pass.assembly.statements[
        (before.filterMap Edit.added?).length]? = some statement ∧
      statement.address = (assembler.start.replay before).location := by
  have places := (parse_leaves assembler text).2
  have admitted := (history_reflects assembler text).admitted
  rw [shape] at admitted
  have address := Assembly.address_of_next admitted still
  have unadded : between.filterMap Edit.added? = [] := by
    rw [List.filterMap_eq_nil_iff]
    intro edit member
    have fixed := still edit member
    cases edit with
    | equates table => rfl
    | label other => rfl
    | origin location => cases fixed
    | statement other => cases fixed
  have order : (assembler.history text).filterMap Edit.added? =
      before.filterMap Edit.added? ++ added :: rest.filterMap Edit.added? := by
    rw [shape, List.filterMap_append, List.filterMap_cons, List.filterMap_append, unadded]
    rfl
  have place := congrArg (fun places => places[(before.filterMap Edit.added?).length]?) places
  simp only [order, List.getElem?_map, List.getElem?_append_right (Nat.le_refl _), Nat.sub_self,
    List.getElem?_cons_zero, Option.map_some] at place
  obtain ⟨statement, found, same⟩ := Option.map_eq_some_iff.mp place
  exact ⟨statement, found, (congrArg Prod.fst same).trans address⟩

/-- Linking. In an accepted source every statement that names a label is one call of the address of
that label. The history of any source leads to what reading its lines leaves, and the labels are
those that it defines, each with the location at its definition, which is the address of the next
statement unless the location is moved in between.
A source that is read to its end, with no macro left open, and that has a statement which cannot be
linked is refused at the first such statement, on the line of that statement. -/
theorem parse_links [Evaluator] (assembler : Assembler) (text : Text) :
    (∀ program, (assembler.parse text).2 = .ok program →
      program.statements = (assembler.parse text).1.pass.assembly.statements ∧
      ∀ statement ∈ program.statements, ∀ label, statement.link = some label →
        label ≠ [] ∧
        ∃ address, (assembler.parse text).1.pass.assembly.labels.find? label = some address ∧
          address ≤ 0xFFF ∧ statement.codes = [UInt16.ofNat (0x2000 ||| address)]) ∧
    assembler.start.Reflects (assembler.history text)
      ⟨((Pass.start assembler.predefines).readAll (Source.ofText text).lines).1.assembly,
        ((Pass.start assembler.predefines).readAll (Source.ofText text).lines).2⟩ ∧
    (∀ name address,
      (assembler.parse text).1.pass.assembly.labels.find? name = some address ↔
        ∃ before later, assembler.history text = before ++ .label name :: later ∧
          (assembler.start.replay before).location = address) ∧
    (∀ before name between added rest,
      assembler.history text = before ++ .label name :: (between ++ .statement added :: rest) →
      (∀ edit ∈ between, edit.moves = false) →
      ∃ statement : Statement, (assembler.parse text).1.pass.assembly.statements[
          (before.filterMap Edit.added?).length]? = some statement ∧
        statement.address = (assembler.start.replay before).location) ∧
    (∀ pass,
      (Pass.start assembler.predefines).readAll (Source.ofText text).lines = (pass, none) →
      (Source.ofText text).overlong = false → pass.defining = none →
      (∃ statement ∈ pass.assembly.statements, ∃ failure,
        statement.Unlinkable pass.assembly.labels failure) →
      ∃ before statement after cause,
        pass.assembly.statements = before ++ statement :: after ∧
        (∀ earlier ∈ before, ¬ ∃ failure, earlier.Unlinkable pass.assembly.labels failure) ∧
        statement.Unlinkable pass.assembly.labels cause ∧
        (assembler.parse text).2 =
          .error (.atLine statement.line (Text.spaced statement.words) cause)) := by
  refine ⟨fun program accepted => linked_of_parse accepted, history_reflects assembler text, ?_, ?_,
    ?_⟩
  · intro name address
    rw [(parse_leaves assembler text).1]
    exact Assembly.find?_labels_iff (history_reflects assembler text).admitted rfl
  · intro before name between added rest shape still
    exact exists_next_statement shape still
  · intro pass read complete closed exist
    obtain ⟨before, statement, after, cause, shape, earlier, why, reported⟩ :=
      Pass.link_fails exist
    refine ⟨before, statement, after, cause, shape, earlier, why, ?_⟩
    rw [parse_of_read read complete closed]
    simp only [reported]

open Standard

/-- A call of a label behind it and a call of a label before it, with an expansion in between that
defines a label of its own. -/
theorem parse_links_both_ways :
    let source := ascii ".macro m\n@x: call @x\n.endm\ncall end\nm\nend: call end"
    ∃ program, (parse {} source).2 = .ok program ∧ program.statements.length = 3 ∧
      ∀ statement ∈ program.statements, ∀ label, statement.link = some label →
        label ≠ [] ∧
        ∃ address, (parse {} source).1.pass.assembly.labels.find? label = some address ∧
          address ≤ 0xFFF ∧ statement.codes = [UInt16.ofNat (0x2000 ||| address)] := by
  intro source
  have accepted : (parse {} source).2 =
      .ok ⟨[{ line := 4, address := 0, words := [ascii "call", ascii "end"], codes := [0x2004],
              link := some (ascii "end") },
            { line := 2, address := 2, words := [ascii "call", ascii "m_5_x"], codes := [0x2002],
              link := some (ascii "m_5_x") },
            { line := 6, address := 4, words := [ascii "call", ascii "end"], codes := [0x2004],
              link := some (ascii "end") }]⟩ := by
    decide +kernel
  exact ⟨_, accepted, rfl, ((parse_links {} source).1 _ accepted).2⟩

/-- An open macro is reported before anything is linked, so the lines of a source can all be read
without a failure, and one of its calls name an undefined label, and still the failure is not that
of the call. -/
theorem open_macro_hides_missing_label :
    ¬ ∀ (assembler : Assembler) (text : Text) (pass : Pass),
      (Pass.start assembler.predefines).readAll (Source.ofText text).lines = (pass, none) →
      (Source.ofText text).overlong = false →
      (∃ statement ∈ pass.assembly.statements, ∃ failure,
        statement.Unlinkable pass.assembly.labels failure) →
      ∃ before statement after cause,
        pass.assembly.statements = before ++ statement :: after ∧
        (∀ earlier ∈ before, ¬ ∃ failure, earlier.Unlinkable pass.assembly.labels failure) ∧
        statement.Unlinkable pass.assembly.labels cause ∧
        (assembler.parse text).2 =
          .error (.atLine statement.line (Text.spaced statement.words) cause) := by
  intro always
  let source := ascii "call foo\n.macro m"
  let read := (Pass.start []).readAll (Source.ofText source).lines
  have reported : (parse {} source).2 =
      .error (.atLine 2 (ascii ".macro m") (.plain .macroUnclosed)) := by
    decide +kernel
  have unfailing : read.2 = none := by
    decide +kernel
  have waiting : read.1.assembly.statements =
      [{ line := 1, address := 0, words := [ascii "call", ascii "foo"], codes := [0x2000],
         link := some (ascii "foo") }] := by
    decide +kernel
  have undefined : read.1.assembly.labels.find? (ascii "foo") = none := by
    decide +kernel
  obtain ⟨_, statement, _, cause, _, _, why, error⟩ :=
    always {} source read.1 (Prod.ext rfl unfailing) (by decide +kernel)
      ⟨_, by rw [waiting]; exact List.mem_singleton_self _, _, .missing _ rfl undefined⟩
  rw [reported, Except.error.injEq, Failure.atLine.injEq] at error
  rw [← error.2.2] at why
  cases why

end Assembler

end Nibble
