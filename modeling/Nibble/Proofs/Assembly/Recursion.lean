import Nibble.Proofs.Assembly.Cause
import Nibble.Proofs.Assembly.Pass

set_option autoImplicit false

/-! Expansions inside expansions. A macro is refused where an expansion of it is in progress, and
only there; so the macros that are in progress at any moment are different ones, and there are never
more of them than macros. What a failure says about the expansions in which it arose is what was in
progress on the line where it arose. -/

namespace Nibble

open Text (ascii)

namespace Assembly

/-! ### Invocations -/

/-- The macro that the words behind the labels of a line invoke, with the arguments. -/
def invokedBy? (macros : Table Macro) : Except Failure (List Text) → Option (Text × List Text)
  | .ok (name :: arguments) =>
      if name ≠ equateWord ∧ macros.has name = true then some (name, arguments) else none
  | _ => none

/-- The macro that a line invokes: its expressions and equates are replaced, and its labels taken
off, before the name is looked up. -/
def invoked? [Evaluator] (macros : Table Macro) (number : Nat) (line : Text) (assembly : Assembly) :
    Option (Text × List Text) :=
  let current := assembly.atLine number
  match Substitution.words current.equates line with
  | .ok (first :: operands) =>
      if first = equateWord then none
      else
        invokedBy? macros
          (current.takeLabels (substitute current.equates (first :: operands))).2
  | _ => none

/-- What a line comes to when its labels are done, by the macro that it invokes. -/
inductive Begins (macros : Table Macro) (expanding : List Text) :
    Option (Text × List Text) → Task → Prop where
  | stops (failure : Option Failure) (simple : ∀ cause, failure = some cause → cause.Simple) :
      Begins macros expanding none (.stop failure)
  | emits (words : List Text) : Begins macros expanding none (.emit words)
  | refuses (name : Text) (arguments : List Text) (inProgress : name ∈ expanding) :
      Begins macros expanding (some (name, arguments)) (.stop (some (.plain .macroRecursion)))
  | mismatches (name : Text) (arguments : List Text) (fresh : name ∉ expanding) :
      Begins macros expanding (some (name, arguments)) (.stop (some (.plain .macroForm)))
  | expands (name : Text) (arguments : List Text) (found : Macro)
      (known : macros.find? name = some found) (fresh : name ∉ expanding)
      (matching : arguments.length = found.parameters.length) :
      Begins macros expanding (some (name, arguments)) (.expand name found arguments)

theorem begins_task (macros : Table Macro) (expanding : List Text)
    {words : Except Failure (List Text)} (simple : FailsBy Failure.Simple words) :
    Begins macros expanding (invokedBy? macros words) (task macros expanding words) := by
  rcases words with failure | _ | ⟨name, arguments⟩
  case error =>
      refine .stops (some failure) ?_
      rintro _ ⟨⟩
      exact simple failure rfl
  case ok.nil => exact .stops none (by rintro _ ⟨⟩)
  case ok.cons =>
      by_cases misplaced : name = equateWord
      · simp only [invokedBy?, task, misplaced, ne_eq, not_true_eq_false, false_and, if_false,
          if_true]
        refine .stops _ ?_
        rintro _ ⟨⟩
        exact ⟨rfl, by rintro ⟨⟩, by rintro ⟨⟩⟩
      · cases known : macros.find? name with
        | none =>
            simp only [invokedBy?, task, misplaced, Table.has, known, Option.isSome_none,
              Bool.false_eq_true, and_false, if_false]
            exact .emits _
        | some found =>
            simp only [invokedBy?, task, misplaced, Table.has, known, Option.isSome_some, ne_eq,
              not_false_eq_true, and_true, if_true, if_false]
            by_cases inProgress : name ∈ expanding
            · have refused : ¬ expanding.contains name = false := by simpa using inProgress
              rw [if_neg refused]
              exact .refuses name arguments inProgress
            · have fresh : expanding.contains name = false := by simpa using inProgress
              rw [if_pos fresh]
              split
              · exact .mismatches name arguments inProgress
              · next matching =>
                exact .expands name arguments found known inProgress (Decidable.not_not.mp matching)

theorem begins [Evaluator] (macros : Table Macro) (expanding : List Text) (number : Nat)
    (line : Text) (assembly : Assembly) :
    Begins macros expanding (invoked? macros number line assembly)
      (beginning macros expanding number line assembly).task := by
  have ordinary := Substitution.ordinary_words (assembly.atLine number).equates line
  unfold invoked? beginning
  dsimp only
  split
  · next first operands read =>
    simp only [read]
    by_cases equate : first = equateWord
    · simp only [if_pos equate]
      exact .stops _ fun _ failed => (ordinary_define _ _ failed).toSimple
    · simp only [if_neg equate]
      exact begins_task macros expanding (simple_takeLabels _ _)
  · next other =>
    split
    · next failure read =>
      refine .stops (some failure) ?_
      rintro _ ⟨⟩
      exact (ordinary failure read).toSimple
    · exact .stops none (by rintro _ ⟨⟩)
    · next first operands read => exact absurd read (other first operands)

/-- A body that fails does so on one of its lines, after all lines before it. -/
theorem expandLines_eq_failure {process : Nat → Text → Assembly → Outcome} {name mark : Text}
    {number : Nat} {body : List Text} {assembly : Assembly} {failure : Failure}
    (failed : (expandLines process name mark number body assembly).failure = some failure) :
    ∃ before line after reached cause, body = before ++ line :: after ∧
      expandLines process name mark number before assembly = reached.done ∧
      (process (number + before.length) (Text.replaceByte 64 mark line) reached).failure =
        some cause ∧
      failure = .inMacro name ↑(number + before.length) cause := by
  induction body generalizing number assembly with
  | nil => cases failed
  | cons line rest ih =>
      simp only [expandLines] at failed
      cases first : (process number (Text.replaceByte 64 mark line) assembly).failure with
      | some cause =>
          simp only [first] at failed
          cases failed
          exact ⟨[], line, rest, assembly, cause, rfl, rfl, first, rfl⟩
      | none =>
          simp only [first] at failed
          obtain ⟨before, later, after, reached, cause, rfl, done, failing, rfl⟩ := ih failed
          have place : number + (line :: before).length = number + 1 + before.length := by
            rw [List.length_cons]
            omega
          refine ⟨line :: before, later, after, reached, cause, rfl, ?_, ?_, ?_⟩
          · simp only [expandLines, first]
            exact done
          · rw [place]
            exact failing
          · rw [place]

end Assembly

/-! ### Lines inside expansions -/

/-- A line that is about to be processed, with the macros that are known, those in whose expansions
it stands, the innermost first, and what was assembled before it. -/
structure Situation where
  macros : Table Macro
  enclosing : List Text
  number : Nat
  line : Text
  assembly : Assembly

namespace Situation

open Assembly (expandLines beginning)

variable [Evaluator]

def outcome (situation : Situation) : Outcome :=
  situation.assembly.process situation.macros situation.enclosing situation.number situation.line

def invoked? (situation : Situation) : Option (Text × List Text) :=
  situation.assembly.invoked? situation.macros situation.number situation.line

def ready (situation : Situation) : Assembly :=
  situation.assembly.replay
    (beginning situation.macros situation.enclosing situation.number situation.line
      situation.assembly).edits

/-- The lines that are processed while the macro that a line invokes is expanded: the lines of its
body, up to the first that fails, with the parameters as equates. -/
inductive Inside (outer : Situation) : Situation → Prop where
  | line {name : Text} {arguments : List Text} {found : Macro} {before after : List Text}
      {line : Text} {reached : Assembly}
      (invokes : outer.invoked? = some (name, arguments))
      (known : outer.macros.find? name = some found)
      (matching : arguments.length = found.parameters.length)
      (accepted : outer.outcome.failure ≠ some (.plain .macroRecursion))
      (body : found.body = before ++ line :: after)
      (processed :
        expandLines (Assembly.process outer.macros (name :: outer.enclosing)) name
          (Macro.localMark name outer.number) found.line before
          { outer.ready with
            equates := outer.ready.equates.setAll (found.parameters.zip arguments) } =
          reached.done) :
      Inside outer
        { macros := outer.macros
          enclosing := name :: outer.enclosing
          number := found.line + before.length
          line := Text.replaceByte 64 (Macro.localMark name outer.number) line
          assembly := reached }

def task (situation : Situation) : Assembly.Task :=
  (beginning situation.macros situation.enclosing situation.number situation.line
    situation.assembly).task

theorem begins_task (situation : Situation) :
    Assembly.Begins situation.macros situation.enclosing situation.invoked? situation.task :=
  Assembly.begins _ _ _ _ _

theorem outcome_eq (situation : Situation) :
    situation.outcome =
      Assembly.carryOut situation.macros situation.enclosing situation.number situation.ready
        situation.task :=
  Assembly.process_eq _ _ _ _ _

/-- A line is refused for a recursion where it invokes a macro in whose expansion it stands, and
only there. -/
theorem outcome_recursion_iff (situation : Situation) :
    situation.outcome.failure = some (.plain .macroRecursion) ↔
      ∃ name arguments, situation.invoked? = some (name, arguments) ∧
        name ∈ situation.enclosing := by
  have start := situation.begins_task
  rw [situation.outcome_eq]
  generalize situation.task = task at start ⊢
  generalize situation.invoked? = invoked at start ⊢
  cases start with
  | stops failure simple =>
      constructor
      · intro failed
        exact absurd rfl (simple _ failed).other
      · rintro ⟨_, _, ⟨⟩, _⟩
  | emits words =>
      constructor
      · intro failed
        rcases Assembly.emit_failure_cases failed with ordinary | large
        · exact absurd rfl ordinary.other
        · cases large
      · rintro ⟨_, _, ⟨⟩, _⟩
  | refuses name arguments inProgress =>
      constructor
      · intro _
        exact ⟨name, arguments, rfl, inProgress⟩
      · intro _
        rfl
  | mismatches name arguments fresh =>
      constructor
      · rintro ⟨⟩
      · rintro ⟨_, _, ⟨⟩, inProgress⟩
        exact absurd inProgress fresh
  | expands name arguments found known fresh matching =>
      constructor
      · intro failed
        -- A body fails inside its macro, so the failure is no bare recursion.
        obtain ⟨_, _, _, _, _, _, _, _, shape⟩ := Assembly.expandLines_eq_failure failed
        cases shape
      · rintro ⟨_, _, ⟨⟩, inProgress⟩
        exact absurd inProgress fresh

theorem inside_of_expand {outer : Situation} {name line : Text} {found : Macro}
    {arguments before after : List Text} {reached : Assembly}
    (expands : outer.task = .expand name found arguments)
    (body : found.body = before ++ line :: after)
    (processed :
      expandLines (Assembly.process outer.macros (name :: outer.enclosing)) name
        (Macro.localMark name outer.number) found.line before
        { outer.ready with
          equates := outer.ready.equates.setAll (found.parameters.zip arguments) } =
        reached.done) :
    outer.Inside
      { macros := outer.macros
        enclosing := name :: outer.enclosing
        number := found.line + before.length
        line := Text.replaceByte 64 (Macro.localMark name outer.number) line
        assembly := reached } := by
  have start := outer.begins_task
  rw [expands] at start
  generalize invokes : outer.invoked? = invoked at start
  cases start with
  | expands _ _ _ known fresh matching =>
      refine .line invokes known matching ?_ body processed
      intro refused
      obtain ⟨_, _, again, inProgress⟩ := outer.outcome_recursion_iff.mp refused
      cases invokes.symm.trans again
      exact fresh inProgress

/-- A line fails by itself, unless it expands a macro. -/
theorem isCause_or_expands {situation : Situation} {failure : Failure}
    (failed : situation.outcome.failure = some failure) :
    failure.isCause = true ∨
      ∃ name found arguments, situation.task = .expand name found arguments := by
  have start := situation.begins_task
  rw [situation.outcome_eq] at failed
  generalize situation.task = task at start failed ⊢
  generalize situation.invoked? = invoked at start
  cases start with
  | stops _ simple => exact .inl (simple _ failed).cause
  | emits words =>
      rcases Assembly.emit_failure_cases failed with ordinary | rfl
      · exact .inl ordinary.cause
      · exact .inl rfl
  | refuses | mismatches =>
      cases failed
      exact .inl rfl
  | expands name arguments found => exact .inr ⟨name, found, arguments, rfl⟩

/-- A failure of a line is its own, or that of a line inside the macro it invokes, seen from
there. -/
theorem outcome_failure_cases {situation : Situation} {failure : Failure}
    (failed : situation.outcome.failure = some failure) :
    failure.isCause = true ∨
      ∃ inner name cause, situation.Inside inner ∧
        inner.enclosing = name :: situation.enclosing ∧ inner.outcome.failure = some cause ∧
        failure = .inMacro name inner.number cause := by
  rcases isCause_or_expands failed with cause | ⟨name, found, arguments, expands⟩
  · exact .inl cause
  · rw [situation.outcome_eq, expands] at failed
    obtain ⟨before, line, after, reached, cause, body, processed, failing, rfl⟩ :=
      Assembly.expandLines_eq_failure failed
    exact .inr ⟨_, name, cause, inside_of_expand expands body processed, rfl, failing, rfl⟩

/-- What holds of the expansions in which a line stands: they are of different macros, all known,
and each of them leaves one macro fewer to expand. -/
structure Nested (situation : Situation) : Prop where
  distinct : situation.enclosing.Nodup
  known : ∀ name ∈ situation.enclosing, situation.macros.has name = true
  fewer : situation.enclosing.length + Macro.available situation.macros situation.enclosing ≤
    situation.macros.length

theorem Nested.inside {outer inner : Situation} (nested : outer.Nested)
    (within : outer.Inside inner) : inner.Nested := by
  cases within with
  | @line name arguments found _ _ _ _ invokes known _ accepted =>
      have fresh : name ∉ outer.enclosing := by
        intro inProgress
        exact accepted ((outcome_recursion_iff outer).mpr ⟨name, arguments, invokes, inProgress⟩)
      refine ⟨List.nodup_cons.mpr ⟨fresh, nested.distinct⟩, ?_, ?_⟩
      · intro other member
        rcases List.mem_cons.mp member with rfl | member
        · exact congrArg Option.isSome known
        · exact nested.known other member
      · have less := Macro.available_lt outer.macros outer.enclosing name found known
          (by simpa using fresh)
        have bound := nested.fewer
        simp only [List.length_cons]
        omega

end Situation

/-! ### The lines of a source -/

def Source.delimits (text : Text) : Bool :=
  match Text.fields (content text) with
  | [] => false
  | first :: _ => first = ascii ".macro" || first = ascii ".endm"

theorem Source.delimits_of_opens {text : Text} {operands : List Text}
    (words : Text.fields (content text) = ascii ".macro" :: operands) : delimits text = true := by
  simp only [delimits, words, decide_true, Bool.true_or]

theorem Source.delimits_of_closes {text : Text} {operands : List Text}
    (words : Text.fields (content text) = ascii ".endm" :: operands) : delimits text = true := by
  simp only [delimits, words, decide_true, Bool.or_true]

namespace Pass

def processes (pass : Pass) (text : Text) : Bool :=
  pass.defining.isNone &&
    match Text.fields (Source.content text) with
    | [] => true
    | first :: _ => first ≠ ascii ".macro" && first ≠ ascii ".endm"

theorem processes_eq (pass : Pass) (text : Text) :
    pass.processes text = (pass.defining.isNone && !Source.delimits text) := by
  unfold processes Source.delimits
  split
  · rfl
  · simp only [ne_eq, decide_not, Bool.not_or]

theorem defining_of_processes {pass : Pass} {text : Text} (plain : pass.processes text = true) :
    pass.defining = none := by
  rw [processes_eq, Bool.and_eq_true] at plain
  exact Option.isNone_iff_eq_none.mp plain.1

/-- A line of the source, which stands in no expansion. -/
def situation (pass : Pass) (text : Text) : Situation where
  macros := pass.macros
  enclosing := []
  number := pass.number + 1
  line := Source.content text
  assembly := pass.assembly

def resumed (pass : Pass) (text : Text) (outcome : Outcome) : Pass × Option Failure :=
  ({ pass.entered text with assembly := outcome.assembly }, outcome.failure)

theorem readPlain_of_outside [Evaluator] {pass : Pass} (text : Text)
    (outside : pass.defining = none) :
    (pass.entered text).readPlain = pass.resumed text (pass.situation text).outcome := by
  simp only [readPlain, entered, resumed, outside]
  rfl

theorem read_of_processes [Evaluator] {pass : Pass} {text : Text}
    (plain : pass.processes text = true) :
    pass.read text = pass.resumed text (pass.situation text).outcome := by
  simp only [processes, Bool.and_eq_true, Option.isNone_iff_eq_none] at plain
  have rest := readPlain_of_outside text plain.1
  cases words : Text.fields (Source.content text) with
  | nil =>
      simp only [read, words]
      exact rest
  | cons first operands =>
      have others := plain.2
      simp only [words, decide_eq_true_eq, Bool.and_eq_true] at others
      simp only [read, words, if_neg others.1, if_neg others.2]
      exact rest

/-- Everything that reading a line can come to. -/
inductive Reads [Evaluator] (pass : Pass) (text : Text) : Pass × Option Failure → Prop where
  | processed (outside : pass.defining = none) (plain : Source.delimits text = false) :
      Reads pass text (pass.resumed text (pass.situation text).outcome)
  | collected (name : Text) (opened longer : Macro) (inside : pass.defining = some (name, opened))
      (plain : Source.delimits text = false)
      (extended : longer = { opened with body := opened.body ++ [Source.content text] }) :
      Reads pass text
        ({ pass.entered text with
            macros := pass.macros.set name longer
            defining := some (name, longer) }, none)
  | begun (name : Text) (opened : Macro) (outside : pass.defining = none)
      (opens : Text.fields (Source.content text) = ascii ".macro" :: name :: opened.parameters)
      (line : opened.line = pass.number + 2) (unwritten : opened.body = [])
      (absent : pass.macros.has name = false) :
      Reads pass text
        ({ pass.entered text with
            macros := pass.macros.set name opened
            defining := some (name, opened) }, none)
  | ended (name : Text) (opened : Macro) (operands : List Text)
      (inside : pass.defining = some (name, opened))
      (closes : Text.fields (Source.content text) = ascii ".endm" :: operands) :
      Reads pass text ({ pass.entered text with defining := none }, none)
  | refused (failure : Failure) (delimiter : Source.delimits text = true)
      (ordinary : failure.Ordinary) : Reads pass text (pass.entered text, some failure)

theorem reads_plain [Evaluator] (pass : Pass) {text : Text} (plain : Source.delimits text = false) :
    pass.Reads text (pass.entered text).readPlain := by
  cases defining : pass.defining with
  | none =>
      rw [readPlain_of_outside text defining]
      exact .processed defining plain
  | some entry =>
      unfold readPlain
      simp only [entered, defining]
      exact .collected entry.1 entry.2 _ defining plain rfl

theorem reads_beginMacro [Evaluator] (pass : Pass) {text : Text} {operands : List Text}
    (words : Text.fields (Source.content text) = ascii ".macro" :: operands) :
    pass.Reads text ((pass.entered text).beginMacro operands) := by
  have delimiter := Source.delimits_of_opens words
  unfold beginMacro
  split
  · exact .refused _ delimiter ⟨⟨rfl, by rintro ⟨⟩, by rintro ⟨⟩⟩, by rintro ⟨⟩⟩
  · next closed =>
    have outside : pass.defining = none := by
      cases defining : pass.defining with
      | none => rfl
      | some opened => exact absurd (congrArg Option.isSome defining) closed
    cases operands with
    | nil => exact .refused _ delimiter ⟨⟨rfl, by rintro ⟨⟩, by rintro ⟨⟩⟩, by rintro ⟨⟩⟩
    | cons name parameters =>
        dsimp only
        split
        · exact .refused _ delimiter ⟨⟨rfl, by rintro ⟨⟩, by rintro ⟨⟩⟩, by rintro ⟨⟩⟩
        · next unknown =>
          exact .begun name _ outside words rfl rfl (Bool.eq_false_iff.mpr unknown)

theorem reads_endMacro [Evaluator] (pass : Pass) {text : Text} {operands : List Text}
    (words : Text.fields (Source.content text) = ascii ".endm" :: operands) :
    pass.Reads text (pass.entered text).endMacro := by
  have delimiter := Source.delimits_of_closes words
  unfold endMacro
  split
  · next inside =>
    obtain ⟨⟨name, opened⟩, defining⟩ := Option.isSome_iff_exists.mp inside
    exact .ended name opened operands defining words
  · exact .refused _ delimiter ⟨⟨rfl, by rintro ⟨⟩, by rintro ⟨⟩⟩, by rintro ⟨⟩⟩

theorem reads [Evaluator] (pass : Pass) (text : Text) : pass.Reads text (pass.read text) := by
  unfold read
  dsimp only
  split
  · next words =>
    apply reads_plain
    simp only [Source.delimits, words]
  · next first operands words =>
    split
    · next begins =>
      subst begins
      exact reads_beginMacro pass words
    · next continues =>
      split
      · next ends =>
        subst ends
        exact reads_endMacro pass words
      · next within =>
        apply reads_plain
        simp only [Source.delimits, words, continues, within, decide_false, Bool.or_self]

theorem read_position [Evaluator] (pass : Pass) (text : Text) :
    (pass.read text).1.position = (pass.number + 1, Source.content text) := by
  have result := pass.reads text
  generalize pass.read text = after at result
  cases result with
  | processed | collected | begun | ended | refused => rfl

theorem number_readAll [Evaluator] {pass last : Pass} {lines : List Text}
    (read : pass.readAll lines = (last, none)) : last.number = pass.number + lines.length := by
  induction lines generalizing pass with
  | nil =>
      cases read
      rfl
  | cons text rest ih =>
      rw [readAll] at read
      have counted := congrArg Prod.fst (pass.read_position text)
      rcases result : pass.read text with ⟨next, _ | failure⟩
      · rw [result] at read counted
        have later := ih read
        change next.number = pass.number + 1 at counted
        rw [List.length_cons]
        omega
      · rw [result] at read
        cases read

theorem ordinary_read [Evaluator] {pass : Pass} {text : Text} (other : pass.processes text = false)
    {failure : Failure} (failed : (pass.read text).2 = some failure) : failure.Ordinary := by
  have result := pass.reads text
  generalize pass.read text = after at result failed
  cases result with
  | processed outside plain =>
      rw [processes_eq, outside, plain] at other
      cases other
  | refused cause delimiter ordinary =>
      cases failed
      exact ordinary
  | collected | begun | ended => cases failed

theorem assembly_read [Evaluator] {pass : Pass} {text : Text}
    (other : pass.processes text = false) :
    (pass.read text).1.assembly = pass.assembly := by
  have result := pass.reads text
  generalize pass.read text = after at result
  cases result with
  | processed outside plain =>
      rw [processes_eq, outside, plain] at other
      cases other
  | collected | begun | ended | refused => rfl

theorem readAll_eq_failure [Evaluator] {pass last : Pass} {lines : List Text} {failure : Failure}
    (failed : pass.readAll lines = (last, some failure)) :
    ∃ before text after middle, lines = before ++ text :: after ∧
      pass.readAll before = (middle, none) ∧ middle.read text = (last, some failure) := by
  induction lines generalizing pass with
  | nil => cases failed
  | cons text rest ih =>
      simp only [readAll] at failed
      cases first : pass.read text with
      | mk next cause =>
          rw [first] at failed
          cases cause with
          | some cause =>
              cases failed
              exact ⟨[], text, rest, pass, rfl, rfl, first⟩
          | none =>
              obtain ⟨before, later, after, middle, rfl, done, failing⟩ := ih failed
              refine ⟨text :: before, later, after, middle, rfl, ?_, failing⟩
              simp only [readAll, first]
              exact done

theorem link_eq_failure {labels : Table Nat} {statements linked : List Statement}
    {failure : Failure} (failed : link labels statements = (linked, some failure)) :
    ∃ statement ∈ linked, ∃ cause,
      failure = .atLine statement.line (Text.spaced statement.words) cause ∧ cause.Ordinary := by
  induction statements generalizing linked with
  | nil => cases failed
  | cons statement rest ih =>
      rw [link] at failed
      cases result : linkStatement labels statement with
      | error cause =>
          rw [result] at failed
          cases failed
          refine ⟨statement, List.mem_cons_self, cause, rfl, ?_⟩
          cases linkStatement_eq_error result with
          | missing | range => exact ⟨⟨rfl, by rintro ⟨⟩, by rintro ⟨⟩⟩, by rintro ⟨⟩⟩
      | ok first =>
          rw [result] at failed
          cases tail : link labels rest with
          | mk others cause =>
              rw [tail] at failed
              cases failed
              obtain ⟨later, member, found⟩ := ih tail
              exact ⟨later, List.mem_cons_of_mem _ member, found⟩

theorem ordinary_finish {pass : Pass} {overlong : Bool} {failure : Failure}
    (failed : (pass.finish overlong).2 = some failure) :
    ∃ number line cause, failure = .atLine number line cause ∧ cause.Ordinary := by
  unfold finish at failed
  split at failed
  · cases failed
    exact ⟨_, _, _, rfl, ⟨rfl, nofun, nofun⟩, nofun⟩
  · split at failed
    · cases failed
      exact ⟨_, _, _, rfl, ⟨rfl, nofun, nofun⟩, nofun⟩
    · obtain ⟨statement, _, cause, shape, ordinary⟩ := link_eq_failure (Prod.ext rfl failed)
      exact ⟨_, _, cause, shape, ordinary⟩

end Pass

namespace Assembler

variable [Evaluator]

/-- The lines that are processed while a source is assembled. -/
inductive Processes (assembler : Assembler) (text : Text) : Situation → Prop where
  | line {before after : List Text} {source : Text} {pass : Pass}
      (lines : (Source.ofText text).lines = before ++ source :: after)
      (read : (Pass.start assembler.predefines).readAll before = (pass, none))
      (plain : pass.processes source = true) : Processes assembler text (pass.situation source)
  | inside {outer inner : Situation} (processed : Processes assembler text outer)
      (within : outer.Inside inner) : Processes assembler text inner

namespace Processes

variable {assembler : Assembler} {text : Text}

theorem nested {situation : Situation} (processed : Processes assembler text situation) :
    situation.Nested := by
  induction processed with
  | @line _ _ _ pass =>
      refine ⟨List.nodup_nil, nofun, ?_⟩
      rw [Pass.situation, List.length_nil, Nat.zero_add]
      exact List.length_filter_le _ _
  | inside _ within ih => exact ih.inside within

/-- A failure of a line arose on a line that stands in the expansions that the failure names. -/
theorem exists_origin {situation : Situation} (processed : Processes assembler text situation)
    {failure : Failure} (failed : situation.outcome.failure = some failure) :
    ∃ inner, Processes assembler text inner ∧
      inner.enclosing = failure.expansions.reverse ++ situation.enclosing ∧
      inner.outcome.failure = some failure.root := by
  rcases Situation.outcome_failure_cases failed with
    cause | ⟨inner, name, cause, within, enclosed, failing, rfl⟩
  · refine ⟨situation, processed, ?_, ?_⟩
    · rw [Failure.expansions_of_isCause cause]
      rfl
    · rw [Failure.root_of_isCause cause]
      exact failed
  · -- The recursion is on the failure: from inside it is seen from one place fewer.
    obtain ⟨origin, reached, stands, caused⟩ := exists_origin (processed.inside within) failing
    refine ⟨origin, reached, ?_, caused⟩
    rw [stands, enclosed, Failure.expansions, List.reverse_cons, List.append_assoc]
    rfl
termination_by sizeOf failure

end Processes

/-- Whatever a source is rejected for is reported at a line, and it is a simple failure or that of
a line that is processed. -/
theorem parse_eq_error {assembler : Assembler} {text : Text} {failure : Failure}
    (rejected : (assembler.parse text).2 = .error failure) :
    ∃ number line cause, failure = .atLine number line cause ∧
      (cause.Simple ∨ ∃ situation, Processes assembler text situation ∧
        situation.enclosing = [] ∧ situation.outcome.failure = some cause) := by
  rw [parse_eq, Pass.run] at rejected
  cases read : (Pass.start assembler.predefines).readAll (Source.ofText text).lines with
  | mk pass found =>
      rw [read] at rejected
      cases found with
      | none =>
          dsimp only at rejected
          cases ending : pass.finish (Source.ofText text).overlong with
          | mk last result =>
              rw [ending] at rejected
              cases result with
              | none => cases rejected
              | some _ =>
                  cases rejected
                  obtain ⟨number, line, cause, shape, ordinary⟩ :=
                    Pass.ordinary_finish (congrArg Prod.snd ending)
                  exact ⟨number, line, cause, shape, .inl ordinary.toSimple⟩
      | some cause =>
          cases rejected
          refine ⟨_, _, cause, rfl, ?_⟩
          obtain ⟨before, source, after, middle, lines, done, failing⟩ :=
            Pass.readAll_eq_failure read
          cases plain : middle.processes source with
          | false => exact .inl (Pass.ordinary_read plain (congrArg Prod.snd failing)).toSimple
          | true =>
              refine .inr ⟨middle.situation source, .line lines done plain, rfl, ?_⟩
              rw [Pass.read_of_processes plain] at failing
              exact congrArg Prod.snd failing

/-- A source that is refused on a line has been read up to that line, and the failure is reported
with its number and what counts of it. -/
theorem exists_failing_line {assembler : Assembler} {text : Text}
    (fails : assembler.FailsOnLine text) :
    ∃ before source after pass last failure,
      (Source.ofText text).lines = before ++ source :: after ∧
      (Pass.start assembler.predefines).readAll before = (pass, none) ∧
      pass.read source = (last, some failure) ∧
      (Pass.start assembler.predefines).readAll (Source.ofText text).lines =
        (last, some failure) ∧
      last.number = before.length + 1 ∧
      assembler.parse text = ({ assembler with pass := last },
        .error (.atLine (before.length + 1 : Nat) (Source.content source) failure)) := by
  cases read : (Pass.start assembler.predefines).readAll (Source.ofText text).lines with
  | mk last result =>
      cases result with
      | none =>
          unfold FailsOnLine at fails
          rw [read] at fails
          exact absurd rfl fails
      | some failure =>
          obtain ⟨before, source, after, pass, lines, done, failed⟩ := Pass.readAll_eq_failure read
          have counted : pass.number = before.length :=
            (Pass.number_readAll done).trans (Nat.zero_add _)
          have position := pass.read_position source
          rw [failed, counted] at position
          have number : last.number = before.length + 1 := congrArg Prod.fst position
          have line : last.line = Source.content source := congrArg Prod.snd position
          refine ⟨before, source, after, pass, last, failure, lines, done, failed, rfl, number, ?_⟩
          rw [parse_of_failure read, Pass.located, number, line]

/-- The expansions that a failure names are those in progress on the line where it arose. -/
theorem exists_origin_of_parse {assembler : Assembler} {text : Text} {failure : Failure}
    (rejected : (assembler.parse text).2 = .error failure) :
    failure.expansions = [] ∧ failure.reason? ≠ some .macroRecursion ∨
      ∃ situation, Processes assembler text situation ∧
        situation.enclosing = failure.expansions.reverse ∧
        situation.outcome.failure = some failure.root := by
  obtain ⟨number, line, cause, rfl, simple | ⟨top, processed, outermost, failed⟩⟩ :=
    parse_eq_error rejected
  · have plain : cause.expansions = [] := Failure.expansions_of_isCause simple.cause
    exact .inl ⟨plain, simple.reason?_ne⟩
  · obtain ⟨origin, reached, stands, caused⟩ := processed.exists_origin failed
    rw [outermost, List.append_nil] at stands
    exact .inr ⟨origin, reached, stands, caused⟩

end Assembler

end Nibble
