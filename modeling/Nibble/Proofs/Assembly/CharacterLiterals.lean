import Nibble.Proofs.Source.Rewriting
import Nibble.Standard

set_option autoImplicit false

/-! Character literals. A line counts by the words that are left of it when its literals are
replaced, so two ways of writing a line that come to the same words give the same assembly. A byte
between quotes is such a way of writing its value, the comment mark apart. -/

namespace Nibble

open Text (ascii IsEdged trimLeft trimRight)

namespace Source

/-- Two lines that are read alike: both begin or end a macro or neither does, and they have the same
words when their literals and expressions are replaced. -/
structure Alike [Evaluator] (one other : Text) : Prop where
  delimits : delimits one = delimits other
  words : ∀ equates,
    Substitution.words equates (content one) = Substitution.words equates (content other)

theorem alike_of_content [Evaluator] {one other : Text} (same : content one = content other) :
    Alike one other where
  delimits := by
    rw [delimits_eq, delimits_eq, same]
  words := by
    intro equates
    rw [same]

theorem delimits_withoutReturn (line : Text) :
    Source.delimits (withoutReturn line) = Source.delimits line := by
  rw [delimits_eq, delimits_eq, content_withoutReturn]

theorem alike_withoutReturn [Evaluator] {one other : Text} (alike : Alike one other) :
    Alike (withoutReturn one) (withoutReturn other) where
  delimits := by
    rw [delimits_withoutReturn, delimits_withoutReturn, alike.delimits]
  words := by
    rw [content_withoutReturn, content_withoutReturn]
    exact alike.words

theorem alike_of_comment [Evaluator] {front : Text} (comment : 59 ∈ front) (back other : Text) :
    Alike (front ++ back) (front ++ other) := by
  obtain ⟨kept, rest, rfl, absent⟩ := List.eq_append_cons_of_mem comment
  apply alike_of_content
  rw [List.append_assoc, List.append_assoc, List.cons_append, List.cons_append,
    content_cut _ absent, content_cut _ absent]

theorem odd_digit {digit : UInt8} (range : 48 ≤ digit.toNat ∧ digit.toNat ≤ 57) :
    digit ∉ ascii ".macro" ∧ digit ∉ ascii ".endm" := by
  have begins : (ascii ".macro").all (fun byte => byte.toNat < 48 || 57 < byte.toNat) = true := by
    decide
  have ends : (ascii ".endm").all (fun byte => byte.toNat < 48 || 57 < byte.toNat) = true := by
    decide
  constructor
  · intro member
    have outside := List.all_eq_true.mp begins digit member
    simp only [Bool.or_eq_true, decide_eq_true_eq] at outside
    omega
  · intro member
    have outside := List.all_eq_true.mp ends digit member
    simp only [Bool.or_eq_true, decide_eq_true_eq] at outside
    omega

theorem isEdged_quoted (byte : UInt8) : IsEdged [39, byte, 39] where
  first := ⟨39, [byte, 39], rfl, by decide⟩
  last := ⟨[39, byte], 39, rfl, by decide⟩

/-- A byte between quotes is read like its value, unless it begins a comment. -/
theorem alike_quoted [Evaluator] {front back : Text} {byte : UInt8} (before : 39 ∉ front)
    (behind : 39 ∉ back) (unquoted : byte ≠ 39) (unescaped : byte ≠ 92) (counted : byte ≠ 59) :
    Alike (front ++ ([39, byte, 39] ++ back))
      (front ++ (Numeral.decimal byte.toNat ++ back)) := by
  by_cases comment : 59 ∈ front
  · exact alike_of_comment comment _ _
  · have insideQuoted : 59 ∉ [39, byte, 39] := by
      simp [counted.symm]
    have insideDecimal : 59 ∉ Numeral.decimal byte.toNat := Numeral.not_mem_decimal _ (by decide)
    have quoted := isEdged_quoted byte
    have decimal := Numeral.isEdged_decimal byte.toNat
    refine ⟨?_, ?_⟩
    · rw [delimits_around back comment insideQuoted quoted,
        delimits_around back comment insideDecimal decimal]
      · intro digit first
        exact odd_digit (Numeral.range_of_mem_decimal (List.mem_of_mem_head? first))
      · intro quote first
        cases first
        decide
    · intro equates
      have left : 39 ∉ trimLeft front := fun member => before (Text.trimLeft_subset front member)
      have right : 39 ∉ trimRight (back.before 59) := fun member =>
        behind (List.takeWhile_sublist _ |>.subset (Text.trimRight_subset _ member))
      have unmarked : 39 ∉ trimLeft front ++
          (Numeral.decimal byte.toNat ++ trimRight (back.before 59)) := by
        rw [List.mem_append, List.mem_append]
        rintro (inFront | inDecimal | inBack)
        · exact left inFront
        · exact Numeral.not_mem_decimal _ (by decide) inDecimal
        · exact right inBack
      rw [content_around back comment insideQuoted quoted,
        content_around back comment insideDecimal decimal, Substitution.words, Substitution.words,
        Substitution.literals_quoted left right unquoted unescaped,
        Substitution.literals_unquoted unmarked]

end Source

namespace Assembly

theorem process_of_same_words [Evaluator] {one other : Text}
    (same : ∀ equates, Substitution.words equates one = Substitution.words equates other)
    (macros : Table Macro) (expanding : List Text) (number : Nat) (assembly : Assembly) :
    process macros expanding number one assembly =
      process macros expanding number other assembly := by
  rw [process, process, same]

end Assembly

namespace Pass

/-- What was kept of the last line plays no part in reading the next one. -/
theorem readAll_line [Evaluator] (pass : Pass) (line : Text) (lines : List Text) :
    ∃ last, ({ pass with line } : Pass).readAll lines =
      ({ (pass.readAll lines).1 with line := last }, (pass.readAll lines).2) := by
  cases lines with
  | nil => exact ⟨line, rfl⟩
  | cons text rest => exact ⟨(pass.readAll (text :: rest)).1.line, rfl⟩

/-- Of two lines that are read alike one leaves what the other leaves, its own text apart. -/
theorem read_of_alike [Evaluator] {pass : Pass} {one other : Text} (outside : pass.defining = none)
    (plain : Source.delimits one = false) (alike : Source.Alike one other) :
    pass.read other =
      ({ (pass.read one).1 with line := Source.content other }, (pass.read one).2) := by
  have processesOne : pass.processes one = true := by
    rw [processes_eq, outside, plain]
    rfl
  have processesOther : pass.processes other = true := by
    rw [processes_eq, outside, ← alike.delimits, plain]
    rfl
  have outcomes : (pass.situation other).outcome = (pass.situation one).outcome :=
    (Assembly.process_of_same_words alike.words _ _ _ _).symm
  rw [read_of_processes processesOne, read_of_processes processesOther, outcomes]
  rfl

theorem readAll_of_alike [Evaluator] {pass : Pass} {before : List Text} (after : List Text)
    {one other : Text}
    (outside : ∀ middle, pass.readAll before = (middle, none) → middle.defining = none)
    (plain : Source.delimits one = false) (alike : Source.Alike one other) :
    ∃ last, pass.readAll (before ++ other :: after) =
      ({ (pass.readAll (before ++ one :: after)).1 with line := last },
        (pass.readAll (before ++ one :: after)).2) := by
  rw [readAll_append, readAll_append]
  rcases read : pass.readAll before with ⟨middle, _ | failure⟩
  · have same := read_of_alike (outside middle read) plain alike
    dsimp only
    rw [readAll, readAll, same]
    rcases middle.read one with ⟨next, _ | failure⟩
    · exact next.readAll_line _ after
    · exact ⟨_, rfl⟩
  · exact ⟨middle.line, rfl⟩

end Pass

namespace Assembler

/-- Two sources that come to the same: the same program or the same cause of a failure, and the same
statements, labels, equates and macros left. -/
structure Agrees (one other : Assembler × Except Failure Program) : Prop where
  result : one.2.mapError Failure.root = other.2.mapError Failure.root
  assembly : one.1.pass.assembly = other.1.pass.assembly
  macros : one.1.pass.macros = other.1.pass.macros

theorem agrees_of_readAll [Evaluator] {assembler : Assembler} {one other : Text} {last : Text}
    (overlong : (Source.ofText other).overlong = (Source.ofText one).overlong)
    (read : (Pass.start assembler.predefines).readAll (Source.ofText other).lines =
      ({ ((Pass.start assembler.predefines).readAll (Source.ofText one).lines).1 with
          line := last },
        ((Pass.start assembler.predefines).readAll (Source.ofText one).lines).2)) :
    Agrees (assembler.parse one) (assembler.parse other) := by
  rw [parse_eq, parse_eq, Pass.run, Pass.run, read, overlong]
  rcases (Pass.start assembler.predefines).readAll (Source.ofText one).lines with
    ⟨pass, _ | failure⟩
  · dsimp only
    cases (Source.ofText one).overlong with
    | true => exact ⟨rfl, rfl, rfl⟩
    | false =>
        cases defining : pass.defining with
        | some name =>
            simp only [Pass.finish, defining]
            exact ⟨rfl, rfl, rfl⟩
        | none =>
            simp only [Pass.finish, defining]
            rcases Pass.link pass.assembly.labels pass.assembly.statements with
              ⟨linked, _ | failure⟩
            · exact ⟨rfl, rfl, rfl⟩
            · exact ⟨rfl, rfl, rfl⟩
  · exact ⟨rfl, rfl, rfl⟩

/-- A source in which one line is written in another way that is read alike. -/
theorem agrees_of_alike [Evaluator] {assembler : Assembler} {head one other tail : Text}
    (starts : head = [] ∨ head.getLast? = some 10) (ends : tail = [] ∨ tail.head? = some 10)
    (wholeOne : one ≠ [] ∧ 10 ∉ one ∧ one.length < Source.lineLimit)
    (wholeOther : other ≠ [] ∧ 10 ∉ other ∧ other.length < Source.lineLimit)
    (outside : ∀ pass, (Pass.start assembler.predefines).readAll (Source.ofText head).lines =
      (pass, none) → pass.defining = none)
    (plain : Source.delimits one = false) (alike : Source.Alike one other) :
    Agrees (assembler.parse (head ++ (one ++ tail)))
      (assembler.parse (head ++ (other ++ tail))) := by
  have sourceOne := Source.ofText_around starts wholeOne.1 wholeOne.2.1 wholeOne.2.2 ends
  have sourceOther := Source.ofText_around starts wholeOther.1 wholeOther.2.1 wholeOther.2.2 ends
  cases long : (Source.ofText head).overlong with
  | true =>
      rw [long, if_pos rfl] at sourceOne sourceOther
      apply agrees_of_readAll
      · rw [sourceOne, sourceOther]
      · rw [sourceOne, sourceOther]
  | false =>
      rw [long, if_neg (by decide)] at sourceOne sourceOther
      rw [← Source.delimits_withoutReturn] at plain
      obtain ⟨last, read⟩ := Pass.readAll_of_alike (Source.ofText (tail.drop 1)).lines outside plain
        (Source.alike_withoutReturn alike)
      apply agrees_of_readAll
      · rw [sourceOne, sourceOther]
      · rw [sourceOne, sourceOther]
        exact read

/-- A byte between quotes means its value: where a line outside the macros holds `'c'` and no
other quote, the decimal value of the byte may be written for it. Only the comment mark keeps its
meaning between quotes, and then the line ends with the first quote. -/
theorem parse_literal [Evaluator] (assembler : Assembler) {head front back tail : Text}
    {byte : UInt8} (starts : head = [] ∨ head.getLast? = some 10)
    (ends : tail = [] ∨ tail.head? = some 10) (unbroken : 10 ∉ front ∧ 10 ∉ back)
    (unquoted : 39 ∉ front ∧ 39 ∉ back) (single : byte ≠ 39 ∧ byte ≠ 92 ∧ byte ≠ 10)
    (readable : (front ++ ([39, byte, 39] ++ back)).length < Source.lineLimit)
    (outside : ∀ pass,
      (Pass.start assembler.predefines).readAll (Source.ofText head).lines = (pass, none) →
        pass.defining = none)
    (plain : Source.delimits (front ++ ([39, byte, 39] ++ back)) = false) :
    (byte ≠ 59 →
      Agrees (assembler.parse (head ++ (front ++ ([39, byte, 39] ++ back) ++ tail)))
        (assembler.parse (head ++ (front ++ (Numeral.decimal byte.toNat ++ back) ++ tail)))) ∧
    (byte = 59 →
      Agrees (assembler.parse (head ++ (front ++ ([39, byte, 39] ++ back) ++ tail)))
        (assembler.parse (head ++ (front ++ [39] ++ tail)))) := by
  have whole : 10 ∉ front ++ ([39, byte, 39] ++ back) := by
    simp [unbroken, single.2.2.symm]
  have nonempty : front ++ ([39, byte, 39] ++ back) ≠ [] := by
    simp
  have short := readable
  simp only [List.length_append, List.length_cons, List.length_nil] at short
  constructor
  · intro counted
    have digits : (Numeral.decimal byte.toNat).length ≤ 3 := by
      rw [Numeral.decimal, List.length_map]
      exact Numeral.length_digits_le (by decide) _ 2 (Nat.lt_trans byte.toNat_lt (by decide))
    apply agrees_of_alike starts ends ⟨nonempty, whole, readable⟩ ?_ outside plain
      (Source.alike_quoted unquoted.1 unquoted.2 single.1 single.2.1 counted)
    refine ⟨?_, ?_, ?_⟩
    · simp [Numeral.decimal_ne_nil]
    · simp [unbroken, Numeral.not_mem_decimal]
    · simp only [List.length_append]
      omega
  · intro comment
    have alike : Source.Alike (front ++ ([39, byte, 39] ++ back)) (front ++ [39]) := by
      subst comment
      by_cases earlier : 59 ∈ front
      · exact Source.alike_of_comment earlier _ _
      · apply Source.alike_of_content
        have absent : 59 ∉ front ++ [39] := by
          simp [earlier]
        rw [← Source.content_cut (39 :: back) absent]
        simp
    apply agrees_of_alike starts ends ⟨nonempty, whole, readable⟩ ?_ outside plain
      alike
    refine ⟨?_, ?_, ?_⟩
    · simp
    · simp [unbroken]
    · simp only [List.length_append, List.length_singleton]
      omega

open Standard

/-- A comma between quotes, behind a macro and before another line. -/
theorem parse_literal_comma :
    Agrees
      (Assembler.parse {} (ascii ".macro nop\n.endm\nhere: ld v1 \x27,\x27 ; comma\ncall here"))
      (Assembler.parse {} (ascii ".macro nop\n.endm\nhere: ld v1 44 ; comma\ncall here")) := by
  have outside : ∀ pass,
      (Pass.start []).readAll (Source.ofText (ascii ".macro nop\n.endm\n")).lines = (pass, none) →
        pass.defining = none := by
    intro pass read
    have closed : ((Pass.start []).readAll
        (Source.ofText (ascii ".macro nop\n.endm\n")).lines).1.defining = none := by
      decide +kernel
    rw [read] at closed
    exact closed
  have quoted : ascii ".macro nop\n.endm\nhere: ld v1 \x27,\x27 ; comma\ncall here" =
      ascii ".macro nop\n.endm\n" ++
        (ascii "here: ld v1 " ++ ([39, 44, 39] ++ ascii " ; comma") ++ ascii "\ncall here") := by
    decide +kernel
  have written : ascii ".macro nop\n.endm\nhere: ld v1 44 ; comma\ncall here" =
      ascii ".macro nop\n.endm\n" ++ (ascii "here: ld v1 " ++
        (Numeral.decimal (44 : UInt8).toNat ++ ascii " ; comma") ++ ascii "\ncall here") := by
    decide +kernel
  rw [quoted, written]
  exact (@parse_literal _ {} (ascii ".macro nop\n.endm\n") (ascii "here: ld v1 ")
    (ascii " ; comma") (ascii "\ncall here") 44 (.inr rfl) (.inr rfl) (by decide) (by decide)
    (by decide) (by decide) outside (by decide +kernel)).1 (by decide)

/-- The comment mark between quotes is refused where its value is accepted. -/
theorem semicolon_literal_refused :
    (Assembler.parse {} (ascii "ld v0 \x27;\x27")).2 =
        .error (.atLine 1 (ascii "ld v0 \x27") (.notNumber (ascii "\x27"))) ∧
      (Assembler.parse {} (ascii "ld v0 59")).2 =
        .ok ⟨[⟨1, 0, [ascii "ld", ascii "v0", ascii "59"], [0x603B], none⟩]⟩ := by
  decide +kernel

end Assembler

end Nibble
