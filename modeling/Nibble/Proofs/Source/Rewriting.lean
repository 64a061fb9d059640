import Nibble.Proofs.Assembly.Recursion
import Nibble.Proofs.Number
import Nibble.Proofs.Source.Lines
import Nibble.Proofs.Text.Words

set_option autoImplicit false

/-! One line of a source. A source is taken apart around a line and a line around a part of it that
white space does not reach, so that two ways of writing the part can be compared. -/

namespace Nibble

open Text (ascii isInk IsEdged trimLeft trimRight)

theorem Numeral.isEdged_decimal (number : Nat) : IsEdged (decimal number) := by
  apply IsEdged.of_all (decimal_ne_nil number)
  intro byte member
  have range := range_of_mem_decimal member
  simp only [isInk, Bool.and_eq_true, decide_eq_true_eq, UInt8.le_iff_toNat_le, UInt8.reduceToNat]
  omega

namespace Substitution

theorem exists_glyph (byte : UInt8) :
    ∃ glyph, Text.glyphs [byte] = [glyph] ∧ glyph.bytes = [byte] := by
  have whole := Glyph.bytes_first byte []
  rw [List.drop_nil, List.append_nil] at whole
  refine ⟨Glyph.first byte [], ?_, whole⟩
  rw [Text.glyphs, List.drop_nil, Text.glyphs]

theorem literals_quoted {front back : Text} {byte : UInt8} (before : 39 ∉ front)
    (behind : 39 ∉ back) (unquoted : byte ≠ 39) (unescaped : byte ≠ 92) :
    literals 0 (Text.glyphs (front ++ ([39, byte, 39] ++ back))) =
      front ++ (Numeral.decimal byte.toNat ++ back) := by
  obtain ⟨glyph, single, bytes⟩ := exists_glyph byte
  have other : ∀ mark : UInt8, mark < 0x80 → byte ≠ mark → glyph.code ≠ mark.toNat := by
    intro mark small different
    have absent : mark ∉ [byte] := by
      intro member
      exact different (List.mem_singleton.mp member).symm
    apply Text.code_ne_of_not_mem small absent
    rw [single]
    exact List.mem_singleton_self glyph
  have notQuote : glyph.code ≠ 39 := other 39 (by decide) unquoted
  have notEscape : glyph.code ≠ 92 := other 92 (by decide) unescaped
  have value : byteValue? glyph = some byte.toNat := by
    simp only [byteValue?, bytes, if_neg unescaped]
  have parts : Text.glyphs (front ++ ([39, byte, 39] ++ back)) =
      Text.glyphs front ++
        Glyph.ofByte 39 :: glyph :: Glyph.ofByte 39 :: Text.glyphs back := by
    have quoted : Text.glyphs ([byte] ++ 39 :: back) =
        Text.glyphs [byte] ++ Glyph.ofByte 39 :: Text.glyphs back :=
      Text.glyphs_append_cons [byte] back (by decide)
    rw [single] at quoted
    show Text.glyphs (front ++ 39 :: ([byte] ++ 39 :: back)) = _
    rw [Text.glyphs_append_cons front _ (by decide), quoted]
    rfl
  have literal : literal? (Glyph.ofByte 39 :: glyph :: Glyph.ofByte 39 :: Text.glyphs back) =
      some (Numeral.decimal byte.toNat, 3) := by
    have quote : (Glyph.ofByte 39).code = 39 := rfl
    simp only [literal?, quote, notEscape, notQuote, value, ne_eq, not_true_eq_false,
      not_false_eq_true, false_and, and_self, if_false, if_true]
  rw [parts, literals_append (Text.code_ne_of_not_mem (by decide) before), literals, literal,
    Text.ofGlyphs_glyphs]
  -- The literal is passed, and what follows holds no quote.
  show front ++ (Numeral.decimal byte.toNat ++ literals 0 (Text.glyphs back)) = _
  rw [literals_eq_ofGlyphs (Text.code_ne_of_not_mem (by decide) behind), Text.ofGlyphs_glyphs]

theorem literals_unquoted {text : Text} (absent : 39 ∉ text) : literals 0 text.glyphs = text := by
  rw [literals_eq_ofGlyphs (Text.code_ne_of_not_mem (by decide) absent), Text.ofGlyphs_glyphs]

theorem expressions_append (valueOf : Text → Except Failure Nat) {front : Text}
    (absent : 36 ∉ front) (rest : Text) :
    expressions valueOf 0 (front ++ rest) =
      (front ++ (expressions valueOf 0 rest).1, (expressions valueOf 0 rest).2) := by
  induction front with
  | nil => rfl
  | cons byte others ih =>
      have closed : expression? (byte :: (others ++ rest)) = none := by
        unfold expression?
        split
        · next same =>
            obtain ⟨rfl, _⟩ := List.cons.inj same
            exact absurd List.mem_cons_self absent
        · rfl
      rw [List.cons_append, expressions, closed,
        ih fun member => absent (List.mem_cons_of_mem _ member)]
      rfl

theorem expressions_passed (valueOf : Text → Except Failure Nat) (passed : Nat) (text : Text) :
    expressions valueOf passed text = expressions valueOf 0 (text.drop passed) := by
  induction text generalizing passed with
  | nil =>
      rw [List.drop_nil, expressions, expressions]
  | cons byte rest ih =>
      cases passed with
      | zero => rfl
      | succ passed =>
          rw [expressions, ih, List.drop_succ_cons]

/-- An expression ends with the last closing parenthesis. -/
theorem expression?_closed {inner back : Text} (single : 36 ∉ inner ∧ 36 ∉ back)
    (last : 41 ∉ back) : expression? (36 :: 40 :: (inner ++ 41 :: back)) = some inner := by
  have whole : (inner ++ 41 :: back).takeWhile (· != 36) = inner ++ 41 :: back := by
    rw [List.takeWhile_eq_self_iff]
    apply Text.bne_of_not_mem
    simp [single]
  have closing : (inner ++ 41 :: back).reverse.dropWhile (· != 41) = 41 :: inner.reverse := by
    have behind : ∀ byte ∈ back.reverse, (byte != 41) = true := by
      apply Text.bne_of_not_mem
      simpa using last
    rw [List.reverse_append, List.reverse_cons, List.append_assoc,
      List.dropWhile_append_of_pos behind]
    rfl
  rw [expression?, whole, closing]
  simp only [List.reverse_reverse]

theorem expressions_single {valueOf : Text → Except Failure Nat} {front inner back : Text}
    {value : Nat} (before : 36 ∉ front) (single : 36 ∉ inner ∧ 36 ∉ back) (last : 41 ∉ back)
    (evaluates : valueOf inner = .ok value) :
    expressions valueOf 0 (front ++ (36 :: 40 :: (inner ++ 41 :: back))) =
      (front ++ (Numeral.hexLiteral 0 value ++ back), none) := by
  have rest : expressions valueOf (inner.length + 2) (40 :: (inner ++ 41 :: back)) =
      (back, none) := by
    have passed : (40 :: (inner ++ 41 :: back)).drop (inner.length + 2) = back := by
      rw [List.drop_succ_cons, List.drop_append]
      simp
    have unopened : ∀ byte ∈ back, byte ≠ 36 := by
      intro byte member same
      exact single.2 (same ▸ member)
    rw [expressions_passed, passed, expressions_eq_self valueOf unopened]
  have first : expressions valueOf 0 (36 :: 40 :: (inner ++ 41 :: back)) =
      (Numeral.hexLiteral 0 value ++ back, none) := by
    rw [expressions, expression?_closed single last]
    simp only [rest, evaluates]
  rw [expressions_append valueOf before, first]

/-- Whether an expression may begin somewhere in a text. -/
def opensExpression : Text → Bool
  | [] => false
  | byte :: rest => byte == 36 && rest.head? == some 40 || opensExpression rest

theorem opensExpression_cons {byte : UInt8} {rest : Text}
    (other : byte = 36 → rest.head? ≠ some 40) :
    opensExpression (byte :: rest) = opensExpression rest := by
  have unmarked : (byte == 36 && rest.head? == some 40) = false := by
    rw [← Bool.not_eq_true, Bool.and_eq_true, beq_iff_eq, beq_iff_eq]
    rintro ⟨dollar, paren⟩
    exact other dollar paren
  rw [opensExpression, unmarked, Bool.false_or]

theorem expressions_unopened (valueOf : Text → Except Failure Nat) {text : Text}
    (unopened : opensExpression text = false) : expressions valueOf 0 text = (text, none) := by
  induction text with
  | nil => rfl
  | cons byte rest ih =>
      have other : byte = 36 → rest.head? ≠ some 40 := by
        rintro rfl first
        obtain ⟨more, rfl⟩ := List.head?_eq_some_iff.mp first
        cases unopened
      have closed : expression? (byte :: rest) = none := by
        unfold expression?
        split
        · next same =>
          obtain ⟨rfl, rfl⟩ := List.cons.inj same
          exact absurd rfl (other rfl)
        · rfl
      rw [opensExpression_cons other] at unopened
      rw [expressions, closed, ih unopened]

theorem isInfix_of_opensExpression {text : Text} (opens : opensExpression text = true) :
    ascii "$(" <:+: text := by
  induction text with
  | nil => cases opens
  | cons byte rest ih =>
      by_cases other : byte = 36 → rest.head? ≠ some 40
      · rw [opensExpression_cons other] at opens
        exact (ih opens).trans (List.suffix_cons byte rest).isInfix
      · simp only [Classical.not_imp, ne_eq, Decidable.not_not] at other
        obtain ⟨rfl, first⟩ := other
        obtain ⟨more, rfl⟩ := List.head?_eq_some_iff.mp first
        exact ⟨[], more, rfl⟩

/-- No expression begins across what parts two words. -/
theorem opensExpression_parted (front : Text) {glyph : Glyph} (back : Text) (parts : glyph.Parts) :
    opensExpression (front ++ (glyph.bytes ++ back)) =
      (opensExpression front || opensExpression back) := by
  have notDollar : 36 ∉ glyph.bytes := parts.not_mem (by decide) (by decide)
  have notParen : 40 ∉ glyph.bytes := parts.not_mem (by decide) (by decide)
  obtain ⟨lead, more, bytes, _⟩ := parts.whole
  -- The dollar sign and the parenthesis would have to stand on the same side.
  have skipped : ∀ middle : Text, 36 ∉ middle →
      opensExpression (middle ++ back) = opensExpression back := by
    intro middle absent
    induction middle with
    | nil => rfl
    | cons byte rest ih =>
        rw [List.cons_append, opensExpression_cons, ih fun member => absent (.tail _ member)]
        rintro rfl
        exact absurd List.mem_cons_self absent
  induction front with
  | nil => exact skipped glyph.bytes notDollar
  | cons byte rest ih =>
      by_cases other : byte = 36 → rest.head? ≠ some 40
      · have whole : byte = 36 → (rest ++ (glyph.bytes ++ back)).head? ≠ some 40 := by
          intro dollar
          cases rest with
          | nil =>
              rw [bytes] at notParen ⊢
              rintro ⟨⟩
              exact notParen List.mem_cons_self
          | cons next others => exact other dollar
        rw [List.cons_append, opensExpression_cons whole, opensExpression_cons other, ih]
      · simp only [Classical.not_imp, ne_eq, Decidable.not_not] at other
        obtain ⟨rfl, first⟩ := other
        obtain ⟨others, rfl⟩ := List.head?_eq_some_iff.mp first
        rfl

/-! ### Words -/

theorem words_of_expressions [Evaluator] {equates : Table Text} {line text : Text}
    (unquoted : 39 ∉ line)
    (replaced : expressions (expressionValue equates) 0 line = (text, none)) :
    words equates line = .ok (Text.wordsOf text) := by
  rw [words, literals_unquoted unquoted, replaced]
  rfl

theorem opensExpression_of_not_mem {text : Text} (absent : 36 ∉ text) :
    opensExpression text = false := by
  rw [← Bool.not_eq_true]
  intro opens
  exact absent ((isInfix_of_opensExpression opens).subset List.mem_cons_self)

theorem words_unopened [Evaluator] (equates : Table Text) {line : Text} (unquoted : 39 ∉ line)
    (unopened : opensExpression line = false) : words equates line = .ok (Text.wordsOf line) :=
  words_of_expressions unquoted (expressions_unopened _ unopened)

end Substitution

namespace Source

/-- What counts of a line, around a part that holds no comment and has printed ends. -/
theorem content_around {front middle : Text} (back : Text) (before : 59 ∉ front)
    (inside : 59 ∉ middle) (edged : IsEdged middle) :
    content (front ++ (middle ++ back)) =
      trimLeft front ++ (middle ++ trimRight (back.before 59)) := by
  rw [content, Text.before, List.takeWhile_append_of_pos (Text.bne_of_not_mem before),
    List.takeWhile_append_of_pos (Text.bne_of_not_mem inside), Text.trim_around front _ edged]
  rfl

theorem content_cut {front : Text} (back : Text) (before : 59 ∉ front) :
    content (front ++ 59 :: back) = content front := by
  have outside := Text.bne_of_not_mem before
  rw [content, content, Text.before, Text.before, List.takeWhile_append_of_pos outside,
    List.takeWhile_cons_of_neg (by decide), List.append_nil,
    List.takeWhile_eq_self_iff.mpr outside]

/-! ### The first word of a line -/

theorem head?_fieldGlyphs {characters : List Glyph} {first : Glyph} {rest : List Glyph}
    (found : characters.dropWhile Glyph.isBlank = first :: rest) :
    (Text.fieldGlyphs characters).head? =
      some ((first :: rest).takeWhile fun glyph => !glyph.isBlank) := by
  have inked := List.head?_dropWhile_not Glyph.isBlank characters
  rw [found] at inked
  rw [Text.fieldGlyphs_eq, found, List.takeWhile_cons_of_pos (by simpa using inked)]
  rfl

/-- The word that ends in front of a character, if white space stands between them. -/
def wordBefore? (characters : List Glyph) : Option Text :=
  let inside := characters.dropWhile Glyph.isBlank
  if inside.any Glyph.isBlank then
    some (Text.ofGlyphs (inside.takeWhile fun glyph => !glyph.isBlank))
  else none

/-- The first word of a text ends before a printed part of it or holds the first byte of the
part. -/
theorem head?_fields_around (front : Text) {byte : UInt8} (rest : Text) (ink : isInk byte = true) :
    ∃ word, (Text.fields (front ++ byte :: rest)).head? = some word ∧
      (wordBefore? front.glyphs = some word ∨ wordBefore? front.glyphs = none ∧ byte ∈ word) := by
  have inked := Text.not_isBlank_of_isInk ink
  have parts := Text.glyphs_append_cons front rest (Text.lt_of_isInk ink)
  obtain ⟨inside, same⟩ : ∃ inside, front.glyphs.dropWhile Glyph.isBlank = inside := ⟨_, rfl⟩
  have found : (Text.glyphs (front ++ byte :: rest)).dropWhile Glyph.isBlank =
      inside ++ Glyph.ofByte byte :: Text.glyphs rest := by
    rw [parts, Text.dropWhile_append_inked inked, same]
  have first : (Text.fields (front ++ byte :: rest)).head? =
      some (Text.ofGlyphs ((inside ++ Glyph.ofByte byte :: Text.glyphs rest).takeWhile
        fun glyph => !glyph.isBlank)) := by
    rw [Text.fields, List.head?_map]
    cases shape : inside ++ Glyph.ofByte byte :: Text.glyphs rest with
    | nil => exact absurd shape (List.append_ne_nil_of_right_ne_nil _ (List.cons_ne_nil _ _))
    | cons head tail => rw [head?_fieldGlyphs (found.trans shape), Option.map_some]
  refine ⟨_, first, ?_⟩
  unfold wordBefore?
  rw [same]
  dsimp only
  split
  · next broken =>
    refine .inl ?_
    have short : (inside.takeWhile fun glyph => !glyph.isBlank).length ≠ inside.length := by
      intro whole
      obtain ⟨glyph, member, blank⟩ := List.any_eq_true.mp broken
      have all := List.takeWhile_eq_self_iff.mp ((List.takeWhile_prefix _).eq_of_length whole)
      have inside := all glyph member
      rw [blank] at inside
      cases inside
    rw [List.takeWhile_append, if_neg short]
  · next unbroken =>
    refine .inr ⟨rfl, ?_⟩
    have all : ∀ glyph ∈ inside, (!glyph.isBlank) = true := by
      intro glyph member
      rw [Bool.not_eq_true']
      cases blank : glyph.isBlank with
      | false => rfl
      | true => exact absurd (List.any_eq_true.mpr ⟨glyph, member, blank⟩) unbroken
    rw [List.takeWhile_append_of_pos all, List.takeWhile_cons_of_pos (by simp [inked]),
      Text.ofGlyphs_append, List.mem_append]
    refine .inr (List.mem_flatMap.mpr ⟨Glyph.ofByte byte, List.mem_cons_self, ?_⟩)
    exact List.mem_singleton_self byte

theorem delimits_eq (text : Text) :
    delimits text = (decide ((Text.fields (content text)).head? = some (ascii ".macro")) ||
      decide ((Text.fields (content text)).head? = some (ascii ".endm"))) := by
  unfold delimits
  cases Text.fields (content text) with
  | nil => rfl
  | cons first rest => simp

/-- Whether a line begins or ends a macro does not depend on a part of it that begins with another
byte than the words for that. -/
theorem delimits_around {front middle : Text} (back : Text) (before : 59 ∉ front)
    (inside : 59 ∉ middle) (edged : IsEdged middle)
    (odd : ∀ byte ∈ middle.head?, byte ∉ ascii ".macro" ∧ byte ∉ ascii ".endm") :
    delimits (front ++ (middle ++ back)) =
      (decide (wordBefore? (trimLeft front).glyphs = some (ascii ".macro")) ||
        decide (wordBefore? (trimLeft front).glyphs = some (ascii ".endm"))) := by
  rw [delimits_eq, content_around back before inside edged]
  obtain ⟨byte, rest, rfl, ink⟩ := edged.first
  obtain ⟨word, first, early | ⟨wordless, holds⟩⟩ :=
    head?_fields_around (trimLeft front) (rest ++ trimRight (back.before 59)) ink
  · rw [List.cons_append, first, early]
  · have other := odd byte rfl
    have notBegin : word ≠ ascii ".macro" := by
      rintro rfl
      exact other.1 holds
    have notEnd : word ≠ ascii ".endm" := by
      rintro rfl
      exact other.2 holds
    rw [List.cons_append, first, wordless]
    simp [notBegin, notEnd]

/-! ### The lines around a line -/

theorem content_withoutReturn (line : Text) : content (withoutReturn line) = content line := by
  unfold withoutReturn
  split
  · next final =>
    obtain ⟨front, rfl⟩ := List.getLast?_eq_some_iff.mp final
    rw [List.dropLast_concat, content, content, Text.before, Text.before]
    by_cases comment : 59 ∈ front
    · obtain ⟨kept, rest, rfl, absent⟩ := List.eq_append_cons_of_mem comment
      rw [List.append_assoc, List.cons_append,
        List.takeWhile_append_of_pos (Text.bne_of_not_mem absent),
        List.takeWhile_append_of_pos (Text.bne_of_not_mem absent)]
      rfl
    · have whole := Text.bne_of_not_mem comment
      rw [List.takeWhile_append_of_pos whole, List.takeWhile_eq_self_iff.mpr whole]
      exact (Text.trim_concat_blank front (by decide) rfl).symm
  · rfl

/-- A text is read up to a line feed in it, unless a line before is too long, and then from
there. -/
theorem ofText_append_feed {head : Text} (ended : head = [] ∨ head.getLast? = some 10)
    (rest : Text) :
    ofText (head ++ rest) =
      if (ofText head).overlong then ofText head
      else ⟨(ofText head).lines ++ (ofText rest).lines, (ofText rest).overlong⟩ := by
  induction measured : head.length using Nat.strongRecOn generalizing head with
  | ind size ih =>
      by_cases empty : head = []
      · rw [empty, ofText]
        rfl
      · have final := ended.resolve_left empty
        -- The first line feed ends the first line; the last byte may be the same.
        obtain ⟨line, more, rfl, absent⟩ :=
          List.eq_append_cons_of_mem (List.mem_of_getLast? final)
        have unbroken := Text.bne_of_not_mem absent
        have later : more = [] ∨ more.getLast? = some 10 := by
          rcases List.eq_nil_or_concat more with empty | ⟨others, last, shape⟩
          · exact .inl empty
          · right
            rw [shape, List.concat_eq_append, ← List.cons_append, ← List.append_assoc,
              List.getLast?_concat] at final
            rw [shape, List.concat_eq_append, List.getLast?_concat]
            exact final
        have shorter : more.length < size := by
          rw [← measured, List.length_append, List.length_cons]
          omega
        rw [List.append_assoc, List.cons_append, ofText_cons unbroken, ofText_cons unbroken,
          ih _ shorter later rfl]
        split
        · rfl
        · dsimp only
          split
          · next long => rw [long]
          · rfl

theorem ofText_around {head line tail : Text} (starts : head = [] ∨ head.getLast? = some 10)
    (nonempty : line ≠ []) (unbroken : 10 ∉ line) (short : line.length < lineLimit)
    (ends : tail = [] ∨ tail.head? = some 10) :
    ofText (head ++ (line ++ tail)) =
      if (ofText head).overlong then ofText head
      else
        ⟨(ofText head).lines ++ withoutReturn line :: (ofText (tail.drop 1)).lines,
          (ofText (tail.drop 1)).overlong⟩ := by
  have inside := Text.bne_of_not_mem unbroken
  have readable : ¬ line.length ≥ lineLimit := Nat.not_le_of_lt short
  have rest : ofText (line ++ tail) =
      ⟨withoutReturn line :: (ofText (tail.drop 1)).lines, (ofText (tail.drop 1)).overlong⟩ := by
    cases tail with
    | nil =>
        rw [List.append_nil, ofText_last nonempty inside, if_neg readable, List.drop_nil, ofText]
    | cons feed more =>
        cases ends.resolve_left (List.cons_ne_nil _ _)
        rw [ofText_cons inside, if_neg readable]
        rfl
  rw [ofText_append_feed starts, rest]

end Source

end Nibble
