import Nibble.Proofs.Assembly.Recursion

set_option autoImplicit false

/-! Macro definitions. The macros that a pass knows are those that the source has defined so far:
each body is the run of lines between the line that begins the macro and the one that ends it. -/

namespace Nibble

open Text (ascii)

namespace Source

/-- The line with a number, the first line having the number one. -/
def lineAt? (lines : List Text) : Nat → Option Text
  | 0 => none
  | index + 1 => lines[index]?

theorem range_of_lineAt? {lines : List Text} {number : Nat} {text : Text}
    (found : lineAt? lines number = some text) : 1 ≤ number ∧ number ≤ lines.length := by
  cases number with
  | zero => cases found
  | succ index => exact ⟨Nat.succ_pos _, (List.getElem?_eq_some_iff.mp found).1⟩

/-- Whether a line stands outside all macros: those that begin above it end above it. -/
def IsOutside (lines : List Text) (number : Nat) : Prop :=
  ∀ start opening operands, start < number → lineAt? lines start = some opening →
    Text.fields (content opening) = ascii ".macro" :: operands →
    ∃ finish ending rest, start < finish ∧ finish < number ∧
      lineAt? lines finish = some ending ∧ Text.fields (content ending) = ascii ".endm" :: rest

end Source

/-- The lines of a source define a macro, from the number of the line that begins it to the number
of the line that ends it. -/
inductive Source.Defines (lines : List Text) (name : Text) : Nat → Nat → Prop where
  | intro {before body rest parameters operands : List Text} {opening ending : Text}
      (shape : lines = before ++ opening :: (body ++ ending :: rest))
      (opens : Text.fields (content opening) = ascii ".macro" :: name :: parameters)
      (plain : ∀ text ∈ body, delimits text = false)
      (closes : Text.fields (content ending) = ascii ".endm" :: operands) :
      Defines lines name (before.length + 1) (before.length + body.length + 2)

theorem Source.Defines.append {lines : List Text} {name : Text} {first last : Nat}
    (defines : Defines lines name first last) (more : List Text) :
    Defines (lines ++ more) name first last := by
  cases defines with
  | @intro before body rest _ _ opening ending shape opens plain closes =>
      have longer : lines ++ more = before ++ opening :: (body ++ ending :: (rest ++ more)) := by
        rw [shape]
        simp only [List.append_assoc, List.cons_append]
      exact .intro longer opens plain closes

theorem Source.Defines.exists_opening {lines : List Text} {name : Text} {first last : Nat}
    (defines : Defines lines name first last) :
    ∃ opening parameters, lines[first - 1]? = some opening ∧ 0 < first ∧
      Text.fields (content opening) = ascii ".macro" :: name :: parameters := by
  cases defines with
  | @intro before body rest parameters _ opening ending shape opens plain closes =>
      refine ⟨opening, parameters, ?_, Nat.succ_pos _, opens⟩
      rw [shape, Nat.add_sub_cancel, List.getElem?_append_right (Nat.le_refl _), Nat.sub_self]
      rfl

theorem Source.Defines.delimits_eq_false {lines : List Text} {name : Text} {first last : Nat}
    (defines : Defines lines name first last) {index : Nat} {text : Text}
    (found : lines[index]? = some text) (above : first ≤ index) (below : index + 1 < last) :
    delimits text = false := by
  cases defines with
  | @intro before body rest _ _ opening ending shape opens plain closes =>
      obtain ⟨offset, rfl⟩ := Nat.exists_eq_add_of_le above
      have small : offset < body.length := by omega
      have place : before.length + 1 + offset = before.length + (offset + 1) := by omega
      rw [shape, place, List.getElem?_append_right (Nat.le_add_right _ _), Nat.add_sub_cancel_left,
        List.getElem?_cons_succ, List.getElem?_append_left small] at found
      exact plain text (List.mem_of_getElem? found)

/-- A macro begins outside all other macros, so that a line stands in the body of one at most. -/
theorem Source.Defines.unique {lines : List Text} {name other : Text}
    {first last start final number : Nat} (defines : Defines lines name first last)
    (above : first < number) (below : number < last) (others : Defines lines other start final)
    (otherAbove : start < number) (otherBelow : number < final) : name = other := by
  obtain ⟨opening, parameters, found, positive, opens⟩ := defines.exists_opening
  obtain ⟨opened, operands, present, later, words⟩ := others.exists_opening
  rcases Nat.lt_trichotomy first start with before | same | behind
  · have plain := defines.delimits_eq_false present (by omega) (by omega)
    rw [delimits_of_opens words] at plain
    cases plain
  · subst same
    cases found.symm.trans present
    cases opens.symm.trans words
    rfl
  · have plain := others.delimits_eq_false found (by omega) (by omega)
    rw [delimits_of_opens opens] at plain
    cases plain

/-- A macro with the lines it was read from, which end with the lines behind its body. -/
inductive Macro.Stands (name : Text) (found : Macro) (rest : List Text) : List Text → Prop where
  | intro {before body : List Text} {opening : Text}
      (opens : Text.fields (Source.content opening) =
        ascii ".macro" :: name :: found.parameters)
      (line : found.line = before.length + 2)
      (content : found.body = body.map Source.content)
      (plain : ∀ text ∈ body, Source.delimits text = false) :
      Stands name found rest (before ++ opening :: (body ++ rest))

namespace Macro.Stands

variable {name : Text} {found : Macro} {rest lines : List Text}

theorem append (stands : found.Stands name rest lines) (more : List Text) :
    found.Stands name (rest ++ more) (lines ++ more) := by
  cases stands with
  | @intro before body opening opens line content plain =>
      have longer : before ++ opening :: (body ++ rest) ++ more =
          before ++ opening :: (body ++ (rest ++ more)) := by
        simp only [List.append_assoc, List.cons_append]
      rw [longer]
      exact .intro opens line content plain

theorem inside (stands : found.Stands name [] lines) {text : Text}
    (plain : Source.delimits text = false) :
    Stands name { found with body := found.body ++ [Source.content text] } []
      (lines ++ [text]) := by
  cases stands with
  | @intro before body opening opens line content others =>
      have longer : before ++ opening :: (body ++ []) ++ [text] =
          before ++ opening :: ((body ++ [text]) ++ []) := by
        simp only [List.append_assoc, List.cons_append, List.append_nil]
      rw [longer]
      refine .intro opens line ?_ ?_
      · rw [content, List.map_append]
        rfl
      · intro other member
        rcases List.mem_append.mp member with earlier | last
        · exact others other earlier
        · rw [List.mem_singleton.mp last]
          exact plain

end Macro.Stands

namespace Pass

/-- A pass that knows the macros of the lines read: the one whose body is being read, and those that
have ended. -/
structure Collected (lines : List Text) (pass : Pass) : Prop where
  current : ∀ name opened, pass.defining = some (name, opened) →
    pass.macros.find? name = some opened ∧ opened.Stands name [] lines
  finished : ∀ name found, pass.macros.find? name = some found →
    (∀ opened, pass.defining ≠ some (name, opened)) →
    ∃ ending operands rest, Text.fields (Source.content ending) = ascii ".endm" :: operands ∧
      found.Stands name (ending :: rest) lines

theorem Collected.behind {lines : List Text} {pass : Pass} (collected : pass.Collected lines)
    {name : Text} {found : Macro} (known : pass.macros.find? name = some found)
    (other : ∀ opened, pass.defining ≠ some (name, opened)) (text : Text) :
    ∃ ending operands rest, Text.fields (Source.content ending) = ascii ".endm" :: operands ∧
      found.Stands name (ending :: rest) (lines ++ [text]) := by
  obtain ⟨ending, operands, rest, closes, stands⟩ := collected.finished name found known other
  exact ⟨ending, operands, rest ++ [text], closes, stands.append [text]⟩

theorem collected_read [Evaluator] {lines : List Text} {pass next : Pass} {text : Text}
    (collected : pass.Collected lines) (counted : pass.number = lines.length)
    (read : pass.read text = (next, none)) : next.Collected (lines ++ [text]) := by
  have result := pass.reads text
  rw [read] at result
  generalize succeeded : (next, (none : Option Failure)) = after at result
  cases result with
  | refused => cases succeeded
  | processed outside =>
      have same := congrArg Prod.fst succeeded
      subst same
      constructor
      · intro name opened inside
        exact absurd (outside.symm.trans inside) (by rintro ⟨⟩)
      · intro name found known _
        apply collected.behind known
        rw [outside]
        rintro _ ⟨⟩
  | collected name opened longer inside plain extended =>
      cases succeeded
      obtain ⟨_, stands⟩ := collected.current name opened inside
      constructor
      · rintro _ _ ⟨⟩
        rw [extended]
        exact ⟨Table.find?_set_self _ _ _, stands.inside plain⟩
      · intro other found present finished
        have different : other ≠ name := by
          rintro rfl
          exact finished longer rfl
        rw [Table.find?_set_of_ne _ _ _ _ different] at present
        apply collected.behind present
        rw [inside]
        rintro _ ⟨⟩
        exact different rfl
  | begun name opened outside opens line unwritten absent =>
      cases succeeded
      constructor
      · rintro _ _ ⟨⟩
        have stands : opened.Stands name [] (lines ++ text :: ([] ++ [])) := by
          refine .intro opens ?_ unwritten ?_
          · rw [line, counted]
          · intro line member
            cases member
        exact ⟨Table.find?_set_self _ _ _, stands⟩
      · intro other found present finished
        have different : other ≠ name := by
          rintro rfl
          exact finished opened rfl
        rw [Table.find?_set_of_ne _ _ _ _ different] at present
        apply collected.behind present
        rw [outside]
        rintro _ ⟨⟩
  | ended name opened operands inside closes =>
      cases succeeded
      constructor
      · rintro _ _ ⟨⟩
      · intro other found present _
        by_cases same : other = name
        · subst same
          obtain ⟨known, stands⟩ := collected.current other opened inside
          cases known.symm.trans present
          exact ⟨text, operands, [], closes, stands.append [text]⟩
        · apply collected.behind present
          rw [inside]
          rintro _ ⟨⟩
          exact same rfl

theorem collected_readAll [Evaluator] {before lines : List Text} {pass last : Pass}
    (collected : pass.Collected before) (counted : pass.number = before.length)
    (read : pass.readAll lines = (last, none)) : last.Collected (before ++ lines) := by
  induction lines generalizing before pass with
  | nil =>
      cases read
      rw [List.append_nil]
      exact collected
  | cons text rest ih =>
      rw [readAll] at read
      have number := congrArg Prod.fst (pass.read_position text)
      rcases result : pass.read text with ⟨next, _ | failure⟩
      · rw [result] at read number
        have later := collected_read collected counted result
        have longer : next.number = (before ++ [text]).length := by
          rw [List.length_append, ← counted]
          exact number
        have all := ih later longer read
        rw [List.append_assoc] at all
        exact all
      · rw [result] at read
        cases read

theorem collected_of_read [Evaluator] {predefines : Table Text} {lines : List Text} {pass : Pass}
    (read : (start predefines).readAll lines = (pass, none)) : pass.Collected lines := by
  have empty : (start predefines).Collected [] := by
    constructor
    · rintro _ _ ⟨⟩
    · rintro _ _ ⟨⟩
  exact collected_readAll empty rfl read

theorem defining_of_opens [Evaluator] {pass next : Pass} {text : Text} {operands : List Text}
    (opens : Text.fields (Source.content text) = ascii ".macro" :: operands)
    (read : pass.read text = (next, none)) : ∃ opened, next.defining = some opened := by
  have delimiter := Source.delimits_of_opens opens
  have result := pass.reads text
  rw [read] at result
  generalize succeeded : (next, (none : Option Failure)) = after at result
  cases result with
  | processed _ plain | collected _ _ _ _ plain =>
      exact absurd (plain.symm.trans delimiter) (by rintro ⟨⟩)
  | begun =>
      cases succeeded
      exact ⟨_, rfl⟩
  | ended _ _ _ _ closes =>
      have same := (List.cons.inj (opens.symm.trans closes)).1
      exact absurd same (by decide)
  | refused => cases succeeded

/-- A macro that is being read is not left without a line that ends it. -/
theorem exists_ending [Evaluator] {pass last : Pass} {lines : List Text} {opened : Text × Macro}
    (read : pass.readAll lines = (last, none)) (inside : pass.defining = some opened)
    (closed : last.defining = none) :
    ∃ (index : Nat) (ending : Text) (operands : List Text), lines[index]? = some ending ∧
      Text.fields (Source.content ending) = ascii ".endm" :: operands := by
  induction lines generalizing pass opened with
  | nil =>
      cases read
      exact absurd (closed.symm.trans inside) (by rintro ⟨⟩)
  | cons text rest ih =>
      rw [readAll] at read
      have result := pass.reads text
      rcases step : pass.read text with ⟨next, _ | failure⟩
      · rw [step] at read result
        generalize succeeded : (next, (none : Option Failure)) = after at result
        cases result with
        | processed outside | begun _ _ outside =>
            exact absurd (outside.symm.trans inside) (by rintro ⟨⟩)
        | collected =>
            cases succeeded
            obtain ⟨index, ending, operands, found, closes⟩ := ih read rfl
            exact ⟨index + 1, ending, operands, found, closes⟩
        | ended _ _ operands _ closes => exact ⟨0, text, operands, rfl, closes⟩
        | refused => cases succeeded
      · rw [step] at read
        cases read

/-- A line before which no body is being read stands outside all macros. -/
theorem isOutside_of_closed [Evaluator] {predefines : Table Text} {before : List Text} {pass : Pass}
    (read : (start predefines).readAll before = (pass, none)) (closed : pass.defining = none)
    (more : List Text) : Source.IsOutside (before ++ more) (before.length + 1) := by
  intro number opening operands above found opens
  cases number with
  | zero => cases found
  | succ index =>
      have small : index < before.length := Nat.lt_of_succ_lt_succ above
      have here : before[index]? = some opening := by
        rw [← List.getElem?_append_left small]
        exact found
      have split : before = before.take index ++ opening :: before.drop (index + 1) := by
        rw [← (List.getElem?_eq_some_iff.mp here).2, List.getElem_cons_drop,
          List.take_append_drop]
      rw [split, readAll_append] at read
      rcases reached : (start predefines).readAll (before.take index) with ⟨outer, _ | failure⟩
      · rw [reached] at read
        change outer.readAll (opening :: before.drop (index + 1)) = (pass, none) at read
        rw [readAll] at read
        rcases step : outer.read opening with ⟨next, _ | failure⟩
        · rw [step] at read
          obtain ⟨opened, inside⟩ := defining_of_opens opens step
          obtain ⟨offset, ending, rest, present, closes⟩ := exists_ending read inside closed
          rw [List.getElem?_drop] at present
          have last := (List.getElem?_eq_some_iff.mp present).1
          refine ⟨index + 1 + offset + 1, ending, rest, by omega, by omega, ?_, closes⟩
          rw [Source.lineAt?, List.getElem?_append_left last]
          exact present
        · rw [step] at read
          cases read
      · rw [reached] at read
        cases read

/-- A definition that begins above a line outside all macros ends there too. -/
theorem not_defines_of_closed [Evaluator] {predefines : Table Text} {before after : List Text}
    {source : Text} {pass : Pass} (read : (start predefines).readAll before = (pass, none))
    (closed : pass.defining = none) {name : Text} {first last : Nat}
    (defines : Source.Defines (before ++ source :: after) name first last)
    (above : first < before.length + 1) : last ≤ before.length + 1 := by
  obtain ⟨opening, parameters, found, positive, opens⟩ := defines.exists_opening
  obtain ⟨index, rfl⟩ : ∃ index, first = index + 1 := ⟨first - 1, by omega⟩
  obtain ⟨finish, ending, rest, behind, inside, present, closes⟩ :=
    isOutside_of_closed read closed (source :: after) _ opening _ above found opens
  apply Nat.le_of_not_lt
  intro below
  obtain ⟨later, rfl⟩ : ∃ later, finish = later + 1 := ⟨finish - 1, by omega⟩
  have plain := defines.delimits_eq_false present (by omega) (by omega)
  rw [Source.delimits_of_closes closes] at plain
  cases plain

/-- A macro that is known between two macros is defined by the lines read. -/
theorem Collected.defines {lines : List Text} {pass : Pass} (collected : pass.Collected lines)
    (closed : pass.defining = none) {name : Text} {found : Macro}
    (known : pass.macros.find? name = some found) :
    ∃ first, found.line = first + 1 ∧
      Source.Defines lines name first (found.line + found.body.length) ∧
      found.line + found.body.length ≤ lines.length := by
  obtain ⟨ending, operands, rest, closes, stands⟩ := collected.finished name found known (by
    rw [closed]
    rintro _ ⟨⟩)
  cases stands with
  | @intro before body opening opens line content plain =>
      have last : found.line + found.body.length = before.length + body.length + 2 := by
        rw [line, content, List.length_map]
        omega
      refine ⟨before.length + 1, line, ?_, ?_⟩
      · rw [last]
        exact .intro rfl opens plain closes
      · rw [last]
        simp only [List.length_append, List.length_cons]
        omega

end Pass

end Nibble
