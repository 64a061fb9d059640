import Nibble.Proofs.Assembly.Equates
import Nibble.Proofs.Assembly.Linking
import Nibble.Proofs.Source.Lines
import Nibble.Standard

set_option autoImplicit false

/-! A source and its continuations. A pass never goes back: what stands behind a source changes
neither its statements nor anything it has defined, and a line that fails does so whatever is
written behind it. -/

namespace Nibble

open Text (ascii)

namespace Pass

/-- A pass that keeps the entries of a table of macros: the macro whose body is being read is none
of them. -/
structure Spares (older : Table Macro) (pass : Pass) : Prop where
  kept : older.Kept [] pass.macros
  fresh : ∀ name opened, pass.defining = some (name, opened) → older.find? name = none

theorem spares_read [Evaluator] {older : Table Macro} {pass : Pass} (spares : pass.Spares older)
    (text : Text) : (pass.read text).1.Spares older := by
  have result := pass.reads text
  generalize pass.read text = after at result
  cases result with
  | processed | refused => exact ⟨spares.kept, spares.fresh⟩
  | ended => exact ⟨spares.kept, by rintro _ _ ⟨⟩⟩
  | collected name opened longer inside =>
      have fresh := spares.fresh name opened inside
      refine ⟨?_, by rintro _ _ ⟨⟩; exact fresh⟩
      intro other outside value present
      have different : other ≠ name := by
        rintro rfl
        rw [fresh] at present
        cases present
      exact (Table.find?_set_of_ne _ _ _ _ different).trans
        (spares.kept other outside value present)
  | begun name opened _ _ _ _ absent =>
      refine ⟨spares.kept.trans (.set_absent absent _), ?_⟩
      rintro _ _ ⟨⟩
      cases found : older.find? name with
      | none => rfl
      | some value =>
          have present := spares.kept name List.not_mem_nil value found
          rw [Table.find?_of_absent absent] at present
          cases present

theorem spares_readAll [Evaluator] {older : Table Macro} {pass : Pass} (spares : pass.Spares older)
    (lines : List Text) : (pass.readAll lines).1.Spares older := by
  induction lines generalizing pass with
  | nil => exact spares
  | cons text rest ih =>
      have next := spares_read spares text
      rw [readAll]
      rcases result : pass.read text with ⟨after, _ | failure⟩
      · rw [result] at next
        exact ih next
      · rw [result] at next
        exact next

/-- What further lines leave of a pass between two macros. -/
structure Grown (older newer : Pass) : Prop where
  statements : older.assembly.statements <+: newer.assembly.statements
  labels : older.assembly.labels.Kept [] newer.assembly.labels
  macros : older.macros.Kept [] newer.macros
  equates : older.assembly.equates.Kept [Assembly.lineName] newer.assembly.equates

theorem grown_readAll [Evaluator] {pass : Pass} (closed : pass.defining = none)
    (lines : List Text) :
    Grown pass (pass.readAll lines).1 := by
  have history := readAll_reflects pass lines
  have left : (pass.readAll lines).1.assembly = pass.assembly.replay (pass.history lines) :=
    history.replayed
  have spares : pass.Spares pass.macros := by
    refine ⟨.refl _ _, ?_⟩
    intro name opened defining
    rw [closed] at defining
    cases defining
  constructor
  · rw [left, Assembly.statements_replay]
    exact List.prefix_append _ _
  · rw [left]
    intro name _ address defined
    exact Assembly.find?_labels_replay history.admitted defined
  · exact (spares_readAll spares lines).kept
  · exact pass.kept_readAll lines

/-! ### Linking a longer source -/

theorem linkStatement_of_kept {labels longer : Table Nat} (kept : labels.Kept [] longer)
    {statement linked : Statement} (succeeded : linkStatement labels statement = .ok linked) :
    linkStatement longer statement = .ok linked := by
  rcases linkStatement_eq_ok succeeded with
    ⟨free, rfl⟩ | ⟨label, address, waits, defined, within, rfl⟩
  · unfold linkStatement
    rw [free]
  · have later := kept label List.not_mem_nil address defined
    unfold linkStatement
    simp only [waits, later, if_neg (Nat.not_lt_of_le within)]

theorem link_append {labels longer : Table Nat} (kept : labels.Kept [] longer)
    {statements linked : List Statement} (succeeded : link labels statements = (linked, none))
    (more : List Statement) : linked <+: (link longer (statements ++ more)).1 := by
  induction statements generalizing linked with
  | nil =>
      cases succeeded
      exact List.nil_prefix
  | cons statement rest ih =>
      simp only [link] at succeeded
      cases result : linkStatement labels statement with
      | error failure =>
          rw [result] at succeeded
          cases succeeded
      | ok first =>
          rw [result] at succeeded
          cases tail : link labels rest with
          | mk others failure =>
              rw [tail] at succeeded
              cases succeeded
              have later := ih tail
              rw [List.cons_append, link, linkStatement_of_kept kept result]
              exact (List.prefix_cons_inj _).mpr later

end Pass

namespace Assembler

/-- A source is read in one pass. If a source and a continuation of it are both accepted, the
statements of the source, as they are after linking, begin those of the longer one, and all its
labels, its macros and its equates apart from the line number have the values they had. If the
source is refused on one of its lines, the longer one is refused for the same failure, on the same
line. -/
theorem parse_continued [Evaluator] (assembler : Assembler) (source more : Text) :
    (∀ program longer, (assembler.parse source).2 = .ok program →
      (assembler.parse (source ++ 10 :: more)).2 = .ok longer →
      program.statements <+: longer.statements ∧
      (assembler.parse source).1.pass.assembly.labels.Kept []
        (assembler.parse (source ++ 10 :: more)).1.pass.assembly.labels ∧
      (assembler.parse source).1.pass.macros.Kept []
        (assembler.parse (source ++ 10 :: more)).1.pass.macros ∧
      (assembler.parse source).1.pass.assembly.equates.Kept [Assembly.lineName]
        (assembler.parse (source ++ 10 :: more)).1.pass.assembly.equates) ∧
    (assembler.FailsOnLine source →
      ∃ failure, (assembler.parse source).2 = .error failure ∧
        (assembler.parse (source ++ 10 :: more)).2 = .error failure) := by
  obtain ⟨behind, lines⟩ := Source.lines_prefix source more
  constructor
  · intro program longer accepted acceptedLonger
    obtain ⟨pass, read, _, closed, linked⟩ := exists_read_of_parse accepted
    obtain ⟨last, readLonger, _, _, linkedLonger⟩ := exists_read_of_parse acceptedLonger
    obtain ⟨_, left⟩ := pass_of_parse assembler source
    obtain ⟨_, leftLonger⟩ := pass_of_parse assembler (source ++ 10 :: more)
    rw [left, leftLonger, readLonger, read]
    rw [← lines, Pass.readAll_append, read] at readLonger
    change pass.readAll behind = (last, none) at readLonger
    have grown := Pass.grown_readAll closed behind
    rw [readLonger] at grown
    refine ⟨?_, grown.labels, grown.macros, grown.equates⟩
    obtain ⟨added, longerStatements⟩ := grown.statements
    have begun := Pass.link_append grown.labels linked added
    rw [longerStatements, linkedLonger] at begun
    exact begun
  · intro fails
    cases read : (Pass.start assembler.predefines).readAll (Source.ofText source).lines with
    | mk pass result =>
        cases result with
        | none =>
            unfold FailsOnLine at fails
            rw [read] at fails
            exact absurd rfl fails
        | some failure =>
            have readLonger : (Pass.start assembler.predefines).readAll
                (Source.ofText (source ++ 10 :: more)).lines = (pass, some failure) := by
              rw [← lines, Pass.readAll_append, read]
            refine ⟨pass.located failure, ?_, ?_⟩
            · rw [parse_of_failure read]
            · rw [parse_of_failure readLonger]

open Standard

/-- A source with a call of its own label, an equate and a macro, and a continuation that uses
them; and a source that fails on its second line, before the same continuation. -/
theorem parse_continued_reuse :
    let source := ascii ".equ R v1\n.macro step\nadd R 1\n.endm\nloop: step\ncall loop"
    let broken := ascii "halt\nadd v0 0x10 ; too large"
    let more := ascii "step\ncall loop\nend: halt"
    (∃ program longer, (parse {} source).2 = .ok program ∧
      (parse {} (source ++ 10 :: more)).2 = .ok longer ∧
      program.statements.length = 2 ∧ longer.statements.length = 5 ∧
      program.statements <+: longer.statements) ∧
    ∃ failure, (parse {} broken).2 = .error failure ∧
      (parse {} (broken ++ 10 :: more)).2 = .error failure := by
  intro source broken more
  have accepted : ∃ program, (parse {} source).2 = .ok program ∧ program.statements.length = 2 := by
    refine ⟨⟨(parse {} source).1.pass.assembly.statements⟩, ?_, ?_⟩
    · decide +kernel
    · decide +kernel
  have acceptedLonger : ∃ longer, (parse {} (source ++ 10 :: more)).2 = .ok longer ∧
      longer.statements.length = 5 := by
    refine ⟨⟨(parse {} (source ++ 10 :: more)).1.pass.assembly.statements⟩, ?_, ?_⟩
    · decide +kernel
    · decide +kernel
  constructor
  · obtain ⟨program, parsed, two⟩ := accepted
    obtain ⟨longer, parsedLonger, five⟩ := acceptedLonger
    have continued := (parse_continued {} source more).1 program longer parsed parsedLonger
    exact ⟨program, longer, parsed, parsedLonger, two, five, continued.1⟩
  · apply (parse_continued {} broken more).2
    unfold FailsOnLine
    decide +kernel

end Assembler

end Nibble
