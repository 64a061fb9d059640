import Nibble.Proofs.Assembly.Equates
import Nibble.Proofs.Assembly.PlainLines
import Nibble.Standard

set_option autoImplicit false

/-! Macros without expansion. While a body is processed its parameters are equates, which hide
others of the same names. Where the body is simple enough the same comes about without them, when
the arguments are written into the lines: both ways of processing a line come to the same words, and
so to the same labels and statements, and this carries on from line to line. -/

namespace Nibble

open Text (ascii wordsOf IsJoined)

/-- What is written in place of a word: the argument for a parameter, and the word itself for
others. -/
def Macro.argumentFor (pairs : Table Text) (word : Text) : Text :=
  (pairs.find? word).getD word

def Macro.inline (found : Macro) (arguments : List Text) (line : Text) : Text :=
  Text.replaceWords (argumentFor (found.parameters.zip arguments)) line

namespace Assembly

/-! ### Assemblies side by side -/

/-- Two assemblies that hold the same but for the equates and the line numbers of statements. -/
structure Parallel (one other : Assembly) : Prop where
  statements :
    one.statements.map (fun statement => { statement with line := 0 }) =
      other.statements.map fun statement => { statement with line := 0 }
  labels : one.labels = other.labels
  location : one.location = other.location

section Parallel

variable {one other : Assembly}

theorem takeLabels_parallel (parallel : Parallel one other) (words : List Text) :
    (one.takeLabels words).2 = (other.takeLabels words).2 ∧
      Parallel (one.takeLabels words).1 (other.takeLabels words).1 := by
  induction words generalizing one other with
  | nil => exact ⟨rfl, parallel⟩
  | cons word rest ih =>
      rw [takeLabels, takeLabels]
      cases labelOf? word with
      | none => exact ⟨rfl, parallel⟩
      | some label =>
          dsimp only
          rw [parallel.labels, parallel.location]
          by_cases known : other.labels.has label = true
          · rw [if_pos known, if_pos known]
            exact ⟨rfl, parallel⟩
          · rw [if_neg known, if_neg known]
            exact ih ⟨parallel.statements, rfl, rfl⟩

theorem emit_parallel (parallel : Parallel one other) (first second : Nat) (words : List Text) :
    (one.emit first words).failure = (other.emit second words).failure ∧
      Parallel (one.emit first words).assembly (other.emit second words).assembly := by
  cases words with
  | nil => exact ⟨rfl, parallel⟩
  | cons name operands =>
      rw [emit, emit, parallel.location]
      rcases Directive.ofWords name operands with failure | address | ⟨codes, link⟩
      · exact ⟨rfl, parallel⟩
      · dsimp only
        by_cases backwards : address < other.location
        · rw [if_pos backwards, if_pos backwards]
          exact ⟨rfl, parallel⟩
        · rw [if_neg backwards, if_neg backwards]
          exact ⟨rfl, parallel.statements, parallel.labels, rfl⟩
      · dsimp only
        by_cases full : other.location + 2 * codes.length > Memory.size
        · rw [if_pos full, if_pos full]
          refine ⟨rfl, ?_, parallel.labels, rfl⟩
          simp only [fail, List.map_append, parallel.statements, List.map_cons, List.map_nil]
        · rw [if_neg full, if_neg full]
          refine ⟨rfl, ?_, parallel.labels, rfl⟩
          simp only [done, List.map_append, parallel.statements, List.map_cons, List.map_nil]

theorem carryWords_parallel (parallel : Parallel one other) (first second : Nat)
    (words : List Text) :
    (one.carryWords first words).failure = (other.carryWords second words).failure ∧
      Parallel (one.carryWords first words).assembly (other.carryWords second words).assembly := by
  obtain ⟨same, labelled⟩ := takeLabels_parallel parallel words
  unfold carryWords
  generalize one.takeLabels words = left at same labelled ⊢
  generalize other.takeLabels words = right at same labelled ⊢
  obtain ⟨left, remaining⟩ := left
  obtain ⟨right, _⟩ := right
  subst same
  rcases remaining with failure | rest
  · exact ⟨rfl, labelled⟩
  · dsimp only
    split
    · exact ⟨rfl, labelled⟩
    · exact emit_parallel labelled first second rest

theorem equates_carryWords (assembly : Assembly) (number : Nat) (words : List Text) :
    (assembly.carryWords number words).assembly.equates = assembly.equates := by
  have labels := equates_takeLabels assembly words
  unfold carryWords
  generalize assembly.takeLabels words = taken at labels ⊢
  rcases taken with ⟨labelled, failure | rest⟩
  · exact labels
  · dsimp only
    split
    · exact labels
    · rw [equates_emit]
      exact labels

end Parallel

/-! ### Lines side by side -/

/-- An argument that can be written for a parameter: a plain word that stands for itself. -/
structure IsArgument (equates : Table Text) (argument : Text) : Prop where
  nonempty : argument ≠ []
  joined : IsJoined argument
  unquoted : 39 ∉ argument
  undollared : 36 ∉ argument
  unnamed : equates.find? argument = none
  other : argument ≠ equateWord

/-- A line of a body that arguments can be written into: nothing is replaced in it but words, and it
defines no equate, does not ask for its number, and invokes no macro. -/
structure IsInlinable (macros : Table Macro) (equates : Table Text) (line : Text) : Prop where
  unmarked : 64 ∉ line
  unquoted : 39 ∉ line
  unopened : ¬ ascii "$(" <:+: line
  noEquate : equateWord ∉ wordsOf line
  noNumber : lineName ∉ wordsOf line
  invokes : ∀ name ∈ (behindLabels (substitute equates (wordsOf line))).head?,
    macros.find? name = none

theorem IsInlinable.opens {macros : Table Macro} {equates : Table Text} {line : Text}
    (inlinable : IsInlinable macros equates line) : Substitution.opensExpression line = false := by
  rw [← Bool.not_eq_true]
  intro opens
  exact inlinable.unopened (Substitution.isInfix_of_opensExpression opens)

/-- An assembly in which parameters are bound, and one in which they are not. -/
structure InStep (equates : Table Text) (pairs : Table Text) (one other : Assembly) : Prop where
  parallel : Parallel one other
  bound : ∀ name, name ≠ lineName → one.equates.find? name = (equates.setAll pairs).find? name
  free : ∀ name, name ≠ lineName → other.equates.find? name = equates.find? name

section Inlining

variable {equates pairs : Table Text} {line : Text}

theorem argumentFor_cases (arguments : ∀ pair ∈ pairs, IsArgument equates pair.2) (word : Text) :
    (∃ argument, pairs.find? word = some argument ∧ Macro.argumentFor pairs word = argument ∧
        IsArgument equates argument) ∨
      pairs.find? word = none ∧ Macro.argumentFor pairs word = word := by
  unfold Macro.argumentFor
  cases found : pairs.find? word with
  | none => exact .inr ⟨rfl, rfl⟩
  | some argument => exact .inl ⟨argument, rfl, rfl, arguments _ (Table.mem_of_find? found)⟩

theorem holds_argumentFor (arguments : ∀ pair ∈ pairs, IsArgument equates pair.2)
    (holds : Text → Prop) (plain : ∀ argument, IsArgument equates argument → holds argument)
    {word : Text} (own : holds word) : holds (Macro.argumentFor pairs word) := by
  rcases argumentFor_cases arguments word with ⟨argument, _, same, proper⟩ | ⟨_, same⟩
  · rw [same]
    exact plain argument proper
  · rw [same]
    exact own

theorem words_inlined [Evaluator] {macros : Table Macro} {bound : Table Text} (current : Table Text)
    (arguments : ∀ pair ∈ pairs, IsArgument equates pair.2)
    (inlinable : IsInlinable macros bound line) :
    Substitution.words current (Text.replaceWords (Macro.argumentFor pairs) line) =
      .ok ((wordsOf line).map (Macro.argumentFor pairs)) := by
  have layout := Text.wordByWord_replaceWords (Macro.argumentFor pairs) line
  have images : ∀ word ∈ wordsOf line, Macro.argumentFor pairs word ≠ [] ∧
      IsJoined (Macro.argumentFor pairs word) := by
    intro word member
    apply holds_argumentFor arguments fun text => text ≠ [] ∧ IsJoined text
    · intro argument plain
      exact ⟨plain.nonempty, plain.joined⟩
    · exact Text.isJoined_of_mem_wordsOf member
  have unquoted : 39 ∉ Text.replaceWords (Macro.argumentFor pairs) line := by
    apply layout.kept fun text => 39 ∉ text
    · intro front glyph back parts
      have absent : 39 ∉ glyph.bytes := parts.not_mem (by decide) (by decide)
      simp [absent]
    · intro word _ clean
      exact holds_argumentFor arguments (fun text => 39 ∉ text)
        (fun _ plain => plain.unquoted) clean
    · exact inlinable.unquoted
  have unopened : Substitution.opensExpression
      (Text.replaceWords (Macro.argumentFor pairs) line) = false := by
    apply layout.kept fun text => Substitution.opensExpression text = false
    · intro front glyph back parts
      rw [Substitution.opensExpression_parted front back parts, Bool.or_eq_false_iff]
    · intro word _ clean
      exact holds_argumentFor arguments (fun text => Substitution.opensExpression text = false)
        (fun _ plain => Substitution.opensExpression_of_not_mem plain.undollared) clean
    · exact inlinable.opens
  rw [Substitution.words_unopened current unquoted unopened, layout.wordsOf_eq images]

theorem find?_atLine (assembly : Assembly) (number : Nat) {name : Text} (other : name ≠ lineName) :
    (assembly.atLine number).equates.find? name = assembly.equates.find? name :=
  Table.find?_set_of_ne _ _ _ _ other

variable {macros : Table Macro} {one other : Assembly}

/-- Replacing the equates gives the same words with the parameters bound as with the arguments in
their place. -/
theorem substitute_inlined (distinct : (pairs.map Prod.fst).Nodup)
    (numbered : equates.find? lineName ≠ none)
    (arguments : ∀ pair ∈ pairs, IsArgument equates pair.2) (step : InStep equates pairs one other)
    (first second : Nat) {words : List Text} (noNumber : lineName ∉ words) :
    substitute (other.atLine second).equates (words.map (Macro.argumentFor pairs)) =
      substitute (one.atLine first).equates words := by
  rw [substitute, substitute, List.map_map]
  apply List.map_congr_left
  intro word member
  have ordinary : word ≠ lineName := by
    rintro rfl
    exact noNumber member
  have bound := step.bound word ordinary
  rw [Table.find?_setAll distinct] at bound
  rw [Function.comp_apply, find?_atLine one first ordinary, bound]
  rcases argumentFor_cases arguments word with ⟨argument, known, same, plain⟩ | ⟨unknown, same⟩
  · -- The number of the line has a name already, so that no argument is this name.
    have unnumbered : argument ≠ lineName := by
      rintro rfl
      exact numbered plain.unnamed
    rw [same, known, find?_atLine other second unnumbered, step.free argument unnumbered,
      plain.unnamed]
    rfl
  · rw [same, unknown, find?_atLine other second ordinary, step.free word ordinary]
    rfl

theorem process_inlined [Evaluator] (distinct : (pairs.map Prod.fst).Nodup)
    (numbered : equates.find? lineName ≠ none)
    (arguments : ∀ pair ∈ pairs, IsArgument equates pair.2)
    (inlinable : IsInlinable macros (equates.setAll pairs) line)
    (step : InStep equates pairs one other) (inner outer : List Text) (first second : Nat) :
    let bound := process macros inner first line one
    let free := process macros outer second (Text.replaceWords (Macro.argumentFor pairs) line) other
    bound.failure = free.failure ∧ InStep equates pairs bound.assembly free.assembly := by
  intro bound free
  have readBound := Substitution.words_unopened (one.atLine first).equates inlinable.unquoted
    inlinable.opens
  have readFree := words_inlined (other.atLine second).equates arguments inlinable
  have same := substitute_inlined distinct numbered arguments step first second inlinable.noNumber
  have settled : substitute (one.atLine first).equates (wordsOf line) =
      substitute (equates.setAll pairs) (wordsOf line) := by
    apply List.map_congr_left
    intro word member
    have ordinary : word ≠ lineName := by
      rintro rfl
      exact inlinable.noNumber member
    rw [find?_atLine one first ordinary, step.bound word ordinary]
  have plainBound : IsPlain macros (one.atLine first).equates (wordsOf line) := by
    constructor
    · intro begins
      exact inlinable.noEquate (List.mem_of_head? begins)
    · rw [settled]
      exact inlinable.invokes
  have plainFree : IsPlain macros (other.atLine second).equates
      ((wordsOf line).map (Macro.argumentFor pairs)) := by
    constructor
    · intro begins
      obtain ⟨word, member, written⟩ := List.mem_map.mp (List.mem_of_head? begins)
      apply holds_argumentFor arguments (fun text => text ≠ equateWord)
        (fun _ plain => plain.other) _ written
      rintro rfl
      exact inlinable.noEquate member
    · rw [same, settled]
      exact inlinable.invokes
  -- Both lines come to the same words, so only equates and line numbers can differ.
  have boundEq := process_of_isPlain inner readBound plainBound
  have freeEq := process_of_isPlain outer readFree plainFree
  rw [same] at freeEq
  have parallel : Parallel (one.atLine first) (other.atLine second) :=
    ⟨step.parallel.statements, step.parallel.labels, step.parallel.location⟩
  obtain ⟨failure, after⟩ := carryWords_parallel parallel first second
    (substitute (one.atLine first).equates (wordsOf line))
  rw [← boundEq, ← freeEq] at failure after
  refine ⟨failure, after, ?_, ?_⟩
  · intro name ordinary
    show (process macros inner first line one).assembly.equates.find? name = _
    rw [boundEq, equates_carryWords, find?_atLine one first ordinary, step.bound name ordinary]
  · intro name ordinary
    show (process macros outer second _ other).assembly.equates.find? name = _
    rw [freeEq, equates_carryWords, find?_atLine other second ordinary, step.free name ordinary]

def processLines [Evaluator] (macros : Table Macro) (expanding : List Text) :
    List (Nat × Text) → Assembly → Outcome
  | [], assembly => assembly.done
  | (number, line) :: rest, assembly =>
      let outcome := process macros expanding number line assembly
      match outcome.failure with
      | none => processLines macros expanding rest outcome.assembly
      | some failure => outcome.assembly.fail failure

theorem expandLines_inlined [Evaluator] (distinct : (pairs.map Prod.fst).Nodup)
    (numbered : equates.find? lineName ≠ none)
    (arguments : ∀ pair ∈ pairs, IsArgument equates pair.2) (inner outer : List Text)
    (name mark : Text) {number : Nat} {body : List Text} {lines : List (Nat × Text)}
    (inlinable : ∀ line ∈ body, IsInlinable macros (equates.setAll pairs) line)
    (inlined : lines.map Prod.snd = body.map (Text.replaceWords (Macro.argumentFor pairs)))
    (step : InStep equates pairs one other) :
    let bound := expandLines (process macros inner) name mark number body one
    let free := processLines macros outer lines other
    bound.failure.map Failure.root = free.failure.map Failure.root ∧
      InStep equates pairs bound.assembly free.assembly := by
  induction body generalizing number lines one other with
  | nil =>
      rw [List.map_nil, List.map_eq_nil_iff] at inlined
      subst inlined
      exact ⟨rfl, step⟩
  | cons line rest ih =>
      obtain ⟨⟨second, written⟩, others, rfl, rfl, later⟩ := List.map_eq_cons_iff.mp inlined
      have simple := inlinable line List.mem_cons_self
      obtain ⟨failure, after⟩ :=
        process_inlined distinct numbered arguments simple step inner outer number second
      rw [expandLines, processLines, Text.replaceByte_of_not_mem mark simple.unmarked]
      dsimp only
      rw [← failure]
      cases (process macros inner number line one).failure with
      | none =>
          exact ih (fun line member => inlinable line (List.mem_cons_of_mem _ member)) later after
      | some cause => exact ⟨rfl, after.parallel, after.bound, after.free⟩

end Inlining

theorem beginning_of_invoked? [Evaluator] {macros : Table Macro} {expanding : List Text}
    {number : Nat} {line : Text} {assembly : Assembly} {name : Text} {found : Macro}
    {arguments : List Text}
    (invokes : invoked? macros number line assembly = some (name, arguments))
    (known : macros.find? name = some found) (fresh : name ∉ expanding)
    (matching : arguments.length = found.parameters.length) :
    (beginning macros expanding number line assembly).task = .expand name found arguments := by
  unfold invoked? at invokes
  unfold beginning
  dsimp only at invokes ⊢
  split at invokes
  · next first operands read =>
    rw [read]
    dsimp only
    split at invokes
    · cases invokes
    · next other =>
      rw [if_neg other]
      dsimp only
      generalize ((assembly.atLine number).takeLabels _).2 = words at invokes ⊢
      unfold invokedBy? at invokes
      split at invokes
      · split at invokes
        · next proper =>
          cases invokes
          have absent : expanding.contains name = false := by simpa using fresh
          rw [task, if_neg proper.1, known]
          simp only [absent, matching, ne_eq, not_true_eq_false, if_false, if_true]
        · cases invokes
      · cases invokes
  · cases invokes

end Assembly

/-- Two outcomes alike but for line numbers: the same cause of a failure or none, the same
statements and labels, and the same equates but for the number of the line. -/
structure Outcome.Inlines (one other : Outcome) : Prop where
  failure : one.failure.map Failure.root = other.failure.map Failure.root
  assembly : Assembly.Parallel one.assembly other.assembly
  equates : ∀ name, name ≠ Assembly.lineName →
    one.assembly.equates.find? name = other.assembly.equates.find? name

namespace Situation

open Assembly (IsArgument IsInlinable InStep processLines)

/-- A macro call equals its inlined body: a line that invokes a macro comes to what the lines of the
body come to, one after the other, with the arguments written for the parameters. -/
theorem outcome_inlined [Evaluator] (situation : Situation) {name : Text} {found : Macro}
    {arguments : List Text} {lines : List (Nat × Text)}
    (invokes : situation.invoked? = some (name, arguments))
    (known : situation.macros.find? name = some found) (fresh : name ∉ situation.enclosing)
    (matching : arguments.length = found.parameters.length) (distinct : found.parameters.Nodup)
    (plain : ∀ argument ∈ arguments, IsArgument situation.ready.equates argument)
    (simple : ∀ line ∈ found.body, IsInlinable situation.macros
      (situation.ready.equates.setAll (found.parameters.zip arguments)) line)
    (inlined : lines.map Prod.snd = found.body.map (found.inline arguments)) :
    situation.outcome.Inlines
      (processLines situation.macros situation.enclosing lines situation.ready) := by
  have expands := Assembly.beginning_of_invoked? invokes known fresh matching
  have invoked : situation.outcome = Assembly.invoke situation.macros situation.enclosing
      situation.number name found arguments situation.ready := by
    unfold outcome
    rw [Assembly.process_eq, expands]
    rfl
  have numbered : situation.ready.equates.find? Assembly.lineName ≠ none := by
    have other : situation.definition? = none := by
      apply definition?_of_invoked?
      rw [invokes]
      exact Option.some_ne_none _
    have current : situation.ready.equates =
        (situation.assembly.atLine situation.number).equates := Assembly.equates_beginning other
    rw [current, Assembly.atLine, Table.find?_set_self]
    exact Option.some_ne_none _
  have names : ((found.parameters.zip arguments).map Prod.fst).Nodup := by
    rw [List.map_fst_zip (Nat.le_of_eq matching.symm)]
    exact distinct
  have pairs : ∀ pair ∈ found.parameters.zip arguments,
      IsArgument situation.ready.equates pair.2 :=
    fun pair member => plain pair.2 (List.of_mem_zip member).2
  have start : InStep situation.ready.equates (found.parameters.zip arguments)
      { situation.ready with
        equates := situation.ready.equates.setAll (found.parameters.zip arguments) }
      situation.ready :=
    ⟨⟨rfl, rfl, rfl⟩, fun _ _ => rfl, fun _ _ => rfl⟩
  obtain ⟨failure, finish⟩ := Assembly.expandLines_inlined names numbered pairs
    (name :: situation.enclosing) situation.enclosing name
    (Macro.localMark name situation.number) simple inlined start
  rw [invoked]
  constructor
  · exact failure
  · exact ⟨finish.parallel.statements, finish.parallel.labels, finish.parallel.location⟩
  · intro other ordinary
    exact (finish.free other ordinary).symm

open Standard

/-- A parameter that hides an equate, and a label in the body. -/
theorem outcome_inlined_hiding :
    let found : Macro :=
      { line := 2, parameters := [ascii "a", ascii "b"],
        body := [ascii "ld a, K", ascii "x: add b,a"] }
    let situation : Situation :=
      { macros := [(ascii "sum", found)], enclosing := [], number := 9,
        line := ascii "start: sum v0 v1",
        assembly := { equates := [(ascii "K", ascii "7"), (ascii "b", ascii "v9")] } }
    situation.outcome.Inlines
      (processLines situation.macros [] [(9, ascii "ld v0, K"), (10, ascii "x: add v1,v0")]
        situation.ready) := by
  intro found situation
  have plain : ∀ argument ∈ [ascii "v0", ascii "v1"],
      IsArgument situation.ready.equates argument := by
    intro argument member
    rcases List.mem_pair.mp member with rfl | rfl
    · exact ⟨by decide, by unfold Text.IsJoined; decide +kernel, by decide, by decide,
        by decide +kernel, by decide⟩
    · exact ⟨by decide, by unfold Text.IsJoined; decide +kernel, by decide, by decide,
        by decide +kernel, by decide⟩
  have simple : ∀ line ∈ found.body, IsInlinable situation.macros
      (situation.ready.equates.setAll (found.parameters.zip [ascii "v0", ascii "v1"])) line := by
    intro line member
    rcases List.mem_pair.mp member with rfl | rfl
    · exact ⟨by decide, by decide, by decide +kernel, by decide +kernel, by decide +kernel,
        by decide +kernel⟩
    · exact ⟨by decide, by decide, by decide +kernel, by decide +kernel, by decide +kernel,
        by decide +kernel⟩
  exact @outcome_inlined _ situation (ascii "sum") found [ascii "v0", ascii "v1"]
    [(9, ascii "ld v0, K"), (10, ascii "x: add v1,v0")] (by decide +kernel) (by decide +kernel)
    (by decide) (by decide) (by decide) plain simple (by decide +kernel)

end Situation

end Nibble
