import Nibble.Proofs.Assembly.Definitions
import Nibble.Proofs.Assembly.Emission
import Nibble.Proofs.Assembly.PlainLines
import Nibble.Standard

set_option autoImplicit false

/-! Where code comes from. The lines of a source are counted as they are read, and the lines of a
body from the line behind the one that begins the macro on; both counts give the number of the line
in the source. So whatever a source leaves, accepted or not, its macros are as they are written, and
its statements bear the number of the line from whose words they are made. -/

namespace Nibble

open Text (ascii)

/-! ### Macros as they are written -/

/-- A macro as lines write it: the line above its first one begins it, its body is what counts of
the lines from there on, and these go on to the next line that begins or ends a macro, or to the
end. -/
structure Macro.Written (lines : List Text) (name : Text) (found : Macro) : Prop where
  begun : ∃ number opening, found.line = number + 1 ∧ Source.lineAt? lines number = some opening ∧
    Text.fields (Source.content opening) = ascii ".macro" :: name :: found.parameters
  body : ∀ index < found.body.length, ∃ text,
    Source.lineAt? lines (found.line + index) = some text ∧
      found.body[index]? = some (Source.content text) ∧ Source.delimits text = false
  ended : ∀ text, Source.lineAt? lines (found.line + found.body.length) = some text →
    Source.delimits text = true

theorem Macro.Stands.written {name : Text} {found : Macro} {rest lines : List Text}
    (stands : found.Stands name rest lines)
    (stopped : ∀ text ∈ rest.head?, Source.delimits text = true) : found.Written lines name := by
  cases stands with
  | @intro before body opening opens line content plain =>
      have length : found.body.length = body.length := by
        rw [content, List.length_map]
      have place : ∀ offset,
          Source.lineAt? (before ++ opening :: (body ++ rest)) (found.line + offset) =
            (body ++ rest)[offset]? := by
        intro offset
        have index : found.line + offset = before.length + (offset + 1) + 1 := by
          omega
        rw [index, Source.lineAt?, List.getElem?_append_right (Nat.le_add_right _ _),
          Nat.add_sub_cancel_left, List.getElem?_cons_succ]
      constructor
      · refine ⟨before.length + 1, opening, line, ?_, opens⟩
        rw [Source.lineAt?, List.getElem?_append_right (Nat.le_refl _), Nat.sub_self]
        rfl
      · intro index inside
        rw [length] at inside
        have present := List.getElem?_eq_getElem inside
        refine ⟨body[index], ?_, ?_, plain _ (List.getElem_mem inside)⟩
        · rw [place, List.getElem?_append_left inside, present]
        · rw [content, List.getElem?_map, present, Option.map_some]
      · intro text found
        rw [length, place, List.getElem?_append_right (Nat.le_refl _), Nat.sub_self,
          ← List.head?_eq_getElem?] at found
        exact stopped text found

namespace Pass

theorem Collected.written {lines more : List Text} {pass : Pass} (collected : pass.Collected lines)
    (stopped : pass.defining ≠ none → ∀ text ∈ more.head?, Source.delimits text = true)
    {name : Text} {found : Macro} (known : pass.macros.find? name = some found) :
    found.Written (lines ++ more) name := by
  by_cases reading : ∃ opened, pass.defining = some (name, opened)
  · obtain ⟨opened, reading⟩ := reading
    obtain ⟨present, stands⟩ := collected.current name opened reading
    cases known.symm.trans present
    refine (stands.append more).written (stopped ?_)
    rw [reading]
    exact Option.some_ne_none _
  · rw [not_exists] at reading
    obtain ⟨ending, operands, rest, closes, stands⟩ := collected.finished name found known reading
    refine (stands.append more).written ?_
    intro text first
    cases first
    exact Source.delimits_of_closes closes

/-- A line that fails leaves the macros alone, and while a body is read it begins a macro. -/
theorem macros_of_failure [Evaluator] {pass last : Pass} {text : Text} {failure : Failure}
    (failed : pass.read text = (last, some failure)) :
    last.macros = pass.macros ∧ (pass.defining ≠ none → Source.delimits text = true) := by
  have result := pass.reads text
  rw [failed] at result
  generalize shape : (last, some failure) = after at result
  cases result with
  | processed outside =>
      have same := congrArg (fun read => read.1.macros) shape
      exact ⟨same, fun inside => absurd outside inside⟩
  | collected | begun | ended => cases shape
  | refused cause delimiter =>
      cases shape
      exact ⟨rfl, fun _ => delimiter⟩

theorem written_of_readAll [Evaluator] {predefines : Table Text} {lines : List Text} {last : Pass}
    {result : Option Failure} (read : (start predefines).readAll lines = (last, result))
    {name : Text} {found : Macro} (known : last.macros.find? name = some found) :
    found.Written lines name := by
  cases result with
  | none =>
      have all : found.Written (lines ++ []) name := by
        refine (collected_of_read read).written ?_ known
        intro _ text first
        cases first
      rw [List.append_nil] at all
      exact all
  | some failure =>
      obtain ⟨before, text, after, pass, rfl, done, failed⟩ := readAll_eq_failure read
      obtain ⟨same, delimiter⟩ := macros_of_failure failed
      rw [same] at known
      refine (collected_of_read done).written ?_ known
      intro reading other first
      cases first
      exact delimiter reading

end Pass

/-! ### The line that adds a statement -/

namespace Assembly

theorem emit_statements (assembly : Assembly) (number : Nat) (words : List Text) :
    (assembly.emit number words).assembly.statements = assembly.statements ∨
      ∃ statement : Statement, statement.line = number ∧ statement.words = words ∧
        (assembly.emit number words).assembly.statements = assembly.statements ++ [statement] := by
  cases words with
  | nil => exact .inl rfl
  | cons first operands =>
      cases read : Directive.ofWords first operands with
      | error failure =>
          simp only [emit, read]
          exact .inl rfl
      | ok directive =>
          cases directive with
          | origin address =>
              simp only [emit, read]
              split
              · exact .inl rfl
              · exact .inl rfl
          | codes codes link =>
              refine .inr ⟨{ line := number, address := assembly.location,
                             words := first :: operands, codes, link }, rfl, rfl, ?_⟩
              simp only [emit, read]
              split
              · rfl
              · rfl

theorem task_eq_emit {macros : Table Macro} {expanding words : List Text}
    {left : Except Failure (List Text)} (emits : task macros expanding left = .emit words) :
    left = .ok words := by
  unfold task at emits
  split at emits
  · cases emits
  · cases emits
  · split at emits
    · cases emits
    · split at emits
      · cases emits
        rfl
      · split at emits
        · split at emits
          · cases emits
          · cases emits
        · cases emits

/-- The words that are carried out on a line are those behind its labels, everything in them being
replaced. -/
theorem words_of_beginning [Evaluator] {macros : Table Macro} {expanding words : List Text}
    {number : Nat} {line : Text} {assembly : Assembly}
    (emits : (beginning macros expanding number line assembly).task = .emit words) :
    ∃ written, Substitution.words (assembly.atLine number).equates line = .ok written ∧
      words = behindLabels (substitute (assembly.atLine number).equates written) := by
  unfold beginning at emits
  dsimp only at emits
  split at emits
  · cases emits
  · cases emits
  · next first operands read =>
    split at emits
    · cases emits
    · exact ⟨_, read, eq_behindLabels (task_eq_emit emits)⟩

/-- A statement that a body adds is added by one of its lines, and is not there before. -/
theorem mem_expandLines {process : Nat → Text → Assembly → Outcome} {name mark : Text}
    {number : Nat} {body : List Text} {assembly : Assembly} {statement : Statement}
    (new : statement ∉ assembly.statements)
    (held : statement ∈ (expandLines process name mark number body assembly).assembly.statements) :
    ∃ before line after reached, body = before ++ line :: after ∧
      expandLines process name mark number before assembly = reached.done ∧
      statement ∉ reached.statements ∧
      statement ∈ (process (number + before.length) (Text.replaceByte 64 mark line)
        reached).assembly.statements := by
  induction body generalizing number assembly with
  | nil => exact absurd held new
  | cons line rest ih =>
      let outcome := process number (Text.replaceByte 64 mark line) assembly
      by_cases here : statement ∈ outcome.assembly.statements
      · exact ⟨[], line, rest, assembly, rfl, rfl, new, here⟩
      · cases failed : outcome.failure with
        | some failure =>
            simp only [expandLines, outcome, failed] at held
            exact absurd held here
        | none =>
            simp only [expandLines, outcome, failed] at held
            obtain ⟨before, later, after, reached, rfl, done, absent, found⟩ := ih here held
            have place : number + (line :: before).length = number + 1 + before.length := by
              rw [List.length_cons]
              omega
            refine ⟨line :: before, later, after, reached, rfl, ?_, absent, ?_⟩
            · simp only [expandLines, outcome, failed]
              exact done
            · rw [place]
              exact found

end Assembly

/-- A line that adds a statement. Its words are those of the line with literals, expressions and
equates replaced, less the labels in front, and carrying them out is all that is left of the line.
-/
structure Situation.Adds [Evaluator] (situation : Situation) (statement : Statement) : Prop where
  line : statement.line = situation.number
  words : ∃ written,
    Substitution.words (situation.assembly.atLine situation.number).equates situation.line =
        .ok written ∧
      statement.words = Assembly.behindLabels
        (Assembly.substitute (situation.assembly.atLine situation.number).equates written)
  carried : situation.outcome = situation.ready.emit situation.number statement.words
  added : situation.outcome.assembly.statements = situation.assembly.statements ++ [statement]

theorem Situation.adds_of_emit [Evaluator] {situation : Situation} {statement : Statement}
    {words : List Text} (emits : situation.task = .emit words)
    (new : statement ∉ situation.assembly.statements)
    (held : statement ∈ situation.outcome.assembly.statements) : situation.Adds statement := by
  have carried : situation.outcome = situation.ready.emit situation.number words := by
    rw [situation.outcome_eq, emits]
    rfl
  have same := situation.statements_ready
  rw [carried] at held
  rcases situation.ready.emit_statements situation.number words with
    kept | ⟨added, line, rfl, longer⟩
  · rw [kept, same] at held
    exact absurd held new
  · rw [longer, same] at held
    rcases List.mem_append.mp held with earlier | last
    · exact absurd earlier new
    · cases List.mem_singleton.mp last
      refine ⟨line, Assembly.words_of_beginning emits, carried, ?_⟩
      rw [carried, longer, same]

namespace Assembler

variable {assembler : Assembler} {text : Text}

/-- A statement that a line leaves behind is added by the line itself, or by a line in an expansion
that it begins. -/
theorem Processes.exists_adds [Evaluator] {situation : Situation} {statement : Statement}
    (processed : Processes assembler text situation)
    (new : statement ∉ situation.assembly.statements)
    (held : statement ∈ situation.outcome.assembly.statements) :
    ∃ inner, Processes assembler text inner ∧ inner.Adds statement := by
  -- The lines of a body are processed with one fewer macro that is not being expanded.
  induction left : Macro.available situation.macros situation.enclosing using Nat.strongRecOn
    generalizing situation with
  | ind left ih =>
      subst left
      cases task : situation.task with
      | stop failure =>
          rw [situation.outcome_eq, task] at held
          exact absurd (situation.statements_ready ▸ held) new
      | emit words => exact ⟨situation, processed, Situation.adds_of_emit task new held⟩
      | expand name found arguments =>
          rw [situation.outcome_eq, task] at held
          let bound : Assembly :=
            { situation.ready with
              equates := situation.ready.equates.setAll (found.parameters.zip arguments) }
          have same : bound.statements = situation.assembly.statements :=
            situation.statements_ready
          have inBody : statement ∈
              (Assembly.expandLines
                (Assembly.process situation.macros (name :: situation.enclosing)) name
                (Macro.localMark name situation.number) found.line found.body
                bound).assembly.statements := held
          obtain ⟨before, line, after, reached, body, done, fresh, added⟩ :=
            Assembly.mem_expandLines (same ▸ new) inBody
          have within := Situation.inside_of_expand task body done
          obtain ⟨known, unused, _⟩ := Assembly.beginning_eq_expand task
          have fewer := Macro.available_lt _ _ _ _ known unused
          exact ih _ fewer (processed.inside within) fresh added rfl

end Assembler

theorem Pass.mem_readAll [Evaluator] {pass : Pass} {lines : List Text} {statement : Statement}
    (new : statement ∉ pass.assembly.statements)
    (held : statement ∈ (pass.readAll lines).1.assembly.statements) :
    ∃ before source after middle, lines = before ++ source :: after ∧
      pass.readAll before = (middle, none) ∧ statement ∉ middle.assembly.statements ∧
      statement ∈ (middle.read source).1.assembly.statements := by
  induction lines generalizing pass with
  | nil => exact absurd held new
  | cons source rest ih =>
      by_cases here : statement ∈ (pass.read source).1.assembly.statements
      · exact ⟨[], source, rest, pass, rfl, rfl, new, here⟩
      · rw [readAll] at held
        rcases step : pass.read source with ⟨next, _ | failure⟩
        · rw [step] at held here
          obtain ⟨before, later, after, middle, rfl, done, absent, found⟩ := ih here held
          refine ⟨source :: before, later, after, middle, rfl, ?_, absent, found⟩
          rw [readAll, step]
          exact done
        · rw [step] at held here
          exact absurd held here

namespace Assembler

variable {assembler : Assembler} {text : Text}

theorem exists_adds_of_read [Evaluator] {statement : Statement}
    (held : statement ∈ ((Pass.start assembler.predefines).readAll
      (Source.ofText text).lines).1.assembly.statements) :
    ∃ situation, Processes assembler text situation ∧ situation.Adds statement := by
  obtain ⟨before, source, after, pass, lines, done, new, added⟩ :=
    Pass.mem_readAll List.not_mem_nil held
  cases plain : pass.processes source with
  | false =>
      rw [Pass.assembly_read plain] at added
      exact absurd added new
  | true =>
      rw [Pass.read_of_processes plain] at added
      exact (Processes.line lines done plain).exists_adds new added

theorem exists_unlinked [Evaluator] {statement : Statement}
    (held : statement ∈ (assembler.parse text).1.pass.assembly.statements) :
    ∃ added ∈ ((Pass.start assembler.predefines).readAll
        (Source.ofText text).lines).1.assembly.statements,
      statement = added ∨
        Pass.linkStatement (assembler.parse text).1.pass.assembly.labels added = .ok statement := by
  rw [pass_eq_run] at held ⊢
  unfold Pass.run at held ⊢
  generalize (Pass.start assembler.predefines).readAll (Source.ofText text).lines = read at held ⊢
  rcases read with ⟨pass, _ | failure⟩
  · dsimp only at held ⊢
    unfold Pass.finish at held ⊢
    split at held
    · exact ⟨statement, held, .inl rfl⟩
    · split at held
      · exact ⟨statement, held, .inl rfl⟩
      · next complete closed =>
        rw [if_neg complete, if_neg closed]
        exact Pass.mem_link held
  · exact ⟨statement, held, .inl rfl⟩

/-! ### Where a line stands that is processed -/

/-- How a line of a source is processed: as it is written if it stands outside all macros, or else
in the body of the innermost macro that is being expanded, with the mark of the expansion in it. -/
inductive Locates [Evaluator] (assembler : Assembler) (text source : Text) (situation : Situation) :
    Prop where
  | outside (outermost : situation.enclosing = [])
      (line : situation.line = Source.content source)
      (free : Source.IsOutside (Source.ofText text).lines situation.number)
  | inside {outer : Situation} {name : Text} {first last : Nat}
      (invoking : Processes assembler text outer) (within : outer.Inside situation)
      (innermost : situation.enclosing = name :: outer.enclosing)
      (line : situation.line =
        Text.replaceByte 64 (Macro.localMark name outer.number) (Source.content source))
      (defines : Source.Defines (Source.ofText text).lines name first last)
      (below : first < situation.number) (above : situation.number < last)

theorem Processes.known [Evaluator] {situation : Situation}
    (processed : Processes assembler text situation) {name : Text} {found : Macro}
    (present : situation.macros.find? name = some found) :
    found.Written (Source.ofText text).lines name ∧
      ∃ first, found.line = first + 1 ∧
        Source.Defines (Source.ofText text).lines name first (found.line + found.body.length) := by
  induction processed with
  | @line before after source pass lines read plain =>
      have collected := Pass.collected_of_read read
      have closed := Pass.defining_of_processes plain
      rw [lines]
      constructor
      · exact collected.written (fun reading => absurd closed reading) present
      · obtain ⟨first, begins, defines, _⟩ := collected.defines closed present
        exact ⟨first, begins, defines.append _⟩
  | inside _ within ih =>
      cases within
      exact ih present

theorem Processes.exists_source [Evaluator] {situation : Situation}
    (processed : Processes assembler text situation) :
    ∃ source, Source.lineAt? (Source.ofText text).lines situation.number = some source ∧
      Source.delimits source = false ∧ Locates assembler text source situation := by
  cases processed with
  | @line before after source pass lines read plain =>
      have counted : pass.number = before.length :=
        (Pass.number_readAll read).trans (Nat.zero_add _)
      have closed := Pass.defining_of_processes plain
      have outside := Pass.isOutside_of_closed read closed (source :: after)
      rw [Pass.processes_eq, Bool.and_eq_true, Bool.not_eq_true'] at plain
      refine ⟨source, ?_, plain.2, .outside rfl rfl ?_⟩
      · rw [lines, Pass.situation, Source.lineAt?, counted,
          List.getElem?_append_right (Nat.le_refl _), Nat.sub_self]
        rfl
      · rw [lines, Pass.situation, counted]
        exact outside
  | @inside outer _ invoking within =>
      have expanded := within
      cases within with
      | @line name arguments found before after line reached invokes known _ _ body =>
          obtain ⟨written, first, begins, defines⟩ := invoking.known known
          have length : found.body.length = before.length + (after.length + 1) := by
            rw [body, List.length_append, List.length_cons]
          obtain ⟨source, placed, counts, plain⟩ := written.body before.length (by omega)
          rw [body, List.getElem?_append_right (Nat.le_refl _), Nat.sub_self] at counts
          cases counts
          exact ⟨source, placed, plain,
            .inside invoking expanded rfl rfl defines (by dsimp only; omega)
              (by dsimp only; omega)⟩

/-- Code is attributed to the line it is made from. Whatever a source leaves, accepted or not, every
macro is as the lines write it that follow its beginning, and every statement has the number of a
line of the source that neither begins nor ends a macro. The statement is what carrying out the
words of that line has added, and perhaps linked since: a line outside all macros as it is written,
or one in the body of the innermost macro that was being expanded. -/
theorem parse_attributes [Evaluator] (assembler : Assembler) (text : Text) :
    let lines := (Source.ofText text).lines
    let pass := (assembler.parse text).1.pass
    (∀ name found, pass.macros.find? name = some found → found.Written lines name) ∧
    ∀ statement ∈ pass.assembly.statements, ∃ number source,
      statement.line = (number : Nat) ∧ 1 ≤ number ∧ number ≤ lines.length ∧
      Source.lineAt? lines number = some source ∧ Source.delimits source = false ∧
      ∃ situation added, Processes assembler text situation ∧ situation.number = number ∧
        Locates assembler text source situation ∧ situation.Adds added ∧
        (statement = added ∨
          Pass.linkStatement pass.assembly.labels added = .ok statement) := by
  intro lines pass
  constructor
  · intro name found known
    obtain ⟨statements, left⟩ := pass_of_parse assembler text
    have same := congrArg Pass.macros left
    exact Pass.written_of_readAll rfl (same ▸ known)
  · intro statement held
    obtain ⟨added, read, linked⟩ := exists_unlinked held
    obtain ⟨situation, processed, adds⟩ := exists_adds_of_read read
    obtain ⟨source, placed, plain, locates⟩ := processed.exists_source
    obtain ⟨positive, bounded⟩ := Source.range_of_lineAt? placed
    have line : statement.line = (situation.number : Nat) := by
      rw [← adds.line]
      rcases linked with rfl | result
      · rfl
      · rcases Pass.linkStatement_eq_ok result with ⟨_, rfl⟩ | ⟨_, _, _, _, _, rfl⟩
        · rfl
        · rfl
    exact ⟨situation.number, source, line, positive, bounded, placed, plain, situation, added,
      processed, rfl, locates, adds, linked⟩

open Standard

/-- A call of a local label in an expansion inside an expansion. An empty line and a comment are
lines of the body, and the call is linked behind the statement above. -/
theorem parse_attributes_two_deep :
    let text := ascii
      ".macro inner\n\n; note\n@x: call @x\n.endm\n.macro outer\ninner ; go\n.endm\nhalt\nouter"
    let lines := (Source.ofText text).lines
    let pass := (parse {} text).1.pass
    let inner : Macro := { line := 2, body := [[], [], ascii "@x: call @x"] }
    let call : Statement :=
      { line := 4, address := 2, words := [ascii "call", ascii "inner_7_x"], codes := [0x2002],
        link := some (ascii "inner_7_x") }
    pass.macros.find? (ascii "inner") = some inner ∧ inner.Written lines (ascii "inner") ∧
    call ∈ pass.assembly.statements ∧
    ∃ source situation added, Source.lineAt? lines 4 = some source ∧
      Source.delimits source = false ∧ Processes {} text situation ∧ situation.number = 4 ∧
      Locates {} text source situation ∧ situation.Adds added ∧
      (call = added ∨ Pass.linkStatement pass.assembly.labels added = .ok call) := by
  intro text lines pass inner call
  have left : pass.macros.find? (ascii "inner") = some inner ∧ pass.assembly.statements =
      [{ line := 9, words := [ascii "halt"], codes := [0] }, call] := by
    decide +kernel
  obtain ⟨known, statements⟩ := left
  have held : call ∈ pass.assembly.statements := by
    rw [statements]
    exact List.mem_cons_of_mem _ List.mem_cons_self
  have result := parse_attributes {} text
  obtain ⟨number, source, line, _, _, placed, plain, situation, added, processed, numbered, locates,
    adds, linked⟩ := result.2 call held
  have four : number = 4 := Int.ofNat_inj.mp line.symm
  subst four
  exact ⟨known, result.1 _ _ known, held, source, situation, added, placed, plain, processed,
    numbered, locates, adds, linked⟩

end Assembler

end Nibble
