import Nibble.Proofs.Text.Plain
import Nibble.Source.Lines
import Nibble.Source.Substitution
import Mathlib.Data.List.TakeWhile

set_option autoImplicit false

/-! Sources of plain lines. Joining lines with line feeds and splitting the result gives the lines
back, and nothing is replaced inside a line of plain words. -/

namespace Nibble

namespace Substitution

theorem literals_append {characters : List Glyph}
    (unquoted : ∀ glyph ∈ characters, glyph.code ≠ 39) (rest : List Glyph) :
    literals 0 (characters ++ rest) = Text.ofGlyphs characters ++ literals 0 rest := by
  induction characters with
  | nil => rfl
  | cons glyph others ih =>
      have plain : literal? (glyph :: (others ++ rest)) = none := by
        unfold literal?
        split
        · next same =>
            obtain ⟨rfl, _⟩ := List.cons.inj same
            rw [if_pos (unquoted _ List.mem_cons_self)]
        · rfl
      rw [List.cons_append, literals, plain, Text.ofGlyphs, List.flatMap_cons, List.append_assoc]
      exact congrArg (glyph.bytes ++ ·)
        (ih fun other member => unquoted other (List.mem_cons_of_mem _ member))

theorem literals_eq_ofGlyphs {characters : List Glyph}
    (unquoted : ∀ glyph ∈ characters, glyph.code ≠ 39) :
    literals 0 characters = Text.ofGlyphs characters := by
  have whole := literals_append unquoted []
  rw [List.append_nil, literals, List.append_nil] at whole
  exact whole

theorem expressions_eq_self (valueOf : Text → Except Failure Nat) {text : Text}
    (absent : ∀ byte ∈ text, byte ≠ 36) : expressions valueOf 0 text = (text, none) := by
  induction text with
  | nil => rfl
  | cons byte rest ih =>
      have unopened : expression? (byte :: rest) = none := by
        unfold expression?
        split
        · next same =>
            cases same
            exact absurd rfl (absent 36 List.mem_cons_self)
        · rfl
      rw [expressions, unopened,
        ih fun other member => absent other (List.mem_cons_of_mem _ member)]

theorem words_spaced [Evaluator] (equates : Table Text) {line : List Text}
    (plain : ∀ word ∈ line, word.IsPlain) :
    words equates (Text.spaced line) = .ok line := by
  have unquoted : ∀ glyph ∈ (Text.spaced line).map Glyph.ofByte, glyph.code ≠ 39 := by
    intro glyph member same
    obtain ⟨byte, inside, rfl⟩ := List.mem_map.mp member
    have quote : byte = 39 := UInt8.toNat_inj.mp (same : byte.toNat = (39 : UInt8).toNat)
    exact Text.ne_of_mem_spaced plain (by decide) (by decide) byte inside quote
  have uncommaed : (Text.spaced line).map (fun byte => if byte = 44 then 32 else byte) =
      Text.spaced line := by
    calc (Text.spaced line).map (fun byte => if byte = 44 then 32 else byte)
        _ = (Text.spaced line).map id := by
            apply List.map_congr_left
            intro byte member
            exact if_neg (Text.ne_of_mem_spaced plain (by decide) (by decide) byte member)
        _ = Text.spaced line := List.map_id _
  unfold words
  rw [Text.glyphs_spaced plain, literals_eq_ofGlyphs unquoted, Text.ofGlyphs_map_ofByte,
    expressions_eq_self _ (Text.ne_of_mem_spaced plain (by decide) (by decide))]
  simp only [uncommaed, Text.fields_spaced plain]

end Substitution

namespace Source

theorem content_spaced {line : List Text} (plain : ∀ word ∈ line, word.IsPlain) :
    content (Text.spaced line) = Text.spaced line := by
  have uncommented : ∀ byte ∈ Text.spaced line, (byte != 59) = true := by
    intro byte member
    rw [bne_iff_ne]
    exact Text.ne_of_mem_spaced plain (by decide) (by decide) byte member
  rw [content, Text.before, List.takeWhile_eq_self_iff.mpr uncommented, Text.trim_spaced plain]

/-- A line that can be read and comes back as it is. -/
structure IsWhole (line : Text) : Prop where
  nonempty : line ≠ []
  unbroken : ∀ byte ∈ line, byte ≠ 10
  unreturned : line.getLast? ≠ some 13
  short : line.length < lineLimit

theorem ofText_of_ne_nil {text : Text} (nonempty : text ≠ []) :
    ofText text =
      if (text.takeWhile (· != 10)).length ≥ lineLimit then ⟨[], true⟩
      else
        match text.dropWhile (· != 10) with
        | [] => ⟨[withoutReturn (text.takeWhile (· != 10))], false⟩
        | _ :: more =>
            ⟨withoutReturn (text.takeWhile (· != 10)) :: (ofText more).lines,
              (ofText more).overlong⟩ := by
  cases text with
  | nil => exact absurd rfl nonempty
  | cons byte rest =>
      rw [ofText]
      split
      · rfl
      · split
        · next found => simp only [found]
        · next found => simp only [found]

theorem withoutReturn_of_isWhole {line : Text} (whole : IsWhole line) :
    withoutReturn line = line :=
  if_neg whole.unreturned

theorem IsWhole.inside {line : Text} (whole : IsWhole line) :
    ∀ byte ∈ line, (byte != 10) = true := by
  intro byte member
  rw [bne_iff_ne]
  exact whole.unbroken byte member

theorem ofText_last {line : Text} (nonempty : line ≠ [])
    (unbroken : ∀ byte ∈ line, (byte != 10) = true) :
    ofText line =
      if line.length ≥ lineLimit then ⟨[], true⟩ else ⟨[withoutReturn line], false⟩ := by
  rw [ofText_of_ne_nil nonempty, List.takeWhile_eq_self_iff.mpr unbroken,
    List.dropWhile_eq_nil_iff.mpr unbroken]

theorem ofText_cons {line : Text} (unbroken : ∀ byte ∈ line, (byte != 10) = true) (rest : Text) :
    ofText (line ++ 10 :: rest) =
      if line.length ≥ lineLimit then ⟨[], true⟩
      else ⟨withoutReturn line :: (ofText rest).lines, (ofText rest).overlong⟩ := by
  have taken : (line ++ 10 :: rest).takeWhile (· != 10) = line := by
    rw [List.takeWhile_append_of_pos unbroken, List.takeWhile_cons_of_neg (by decide),
      List.append_nil]
  have left : (line ++ 10 :: rest).dropWhile (· != 10) = 10 :: rest := by
    rw [List.dropWhile_append_of_pos unbroken, List.dropWhile_cons_of_neg (by decide)]
  rw [ofText_of_ne_nil (List.append_ne_nil_of_right_ne_nil _ (List.cons_ne_nil _ _)), taken, left]

theorem ofText_of_isWhole {line : Text} (whole : IsWhole line) : ofText line = ⟨[line], false⟩ := by
  rw [ofText_last whole.nonempty whole.inside, if_neg (Nat.not_le_of_lt whole.short),
    withoutReturn_of_isWhole whole]

theorem ofText_append {line : Text} (whole : IsWhole line) (rest : Text) :
    ofText (line ++ 10 :: rest) = ⟨line :: (ofText rest).lines, (ofText rest).overlong⟩ := by
  rw [ofText_cons whole.inside, if_neg (Nat.not_le_of_lt whole.short),
    withoutReturn_of_isWhole whole]

/-- The lines of a source stay what they are when more is written behind it, on a line of its
own. -/
theorem lines_prefix (text more : Text) :
    (ofText text).lines <+: (ofText (text ++ 10 :: more)).lines := by
  induction measured : text.length using Nat.strongRecOn generalizing text with
  | ind size ih =>
      by_cases empty : text = []
      · rw [empty, ofText]
        exact List.nil_prefix
      · rw [ofText_of_ne_nil empty, ofText_of_ne_nil (List.append_ne_nil_of_left_ne_nil empty _)]
        cases left : text.dropWhile (· != 10) with
        | nil =>
            -- The last line of the text ends at the line feed that is put behind it.
            have whole := List.dropWhile_eq_nil_iff.mp left
            have taken : (text ++ 10 :: more).takeWhile (· != 10) = text := by
              rw [List.takeWhile_append_of_pos whole, List.takeWhile_cons_of_neg (by decide),
                List.append_nil]
            have rest : (text ++ 10 :: more).dropWhile (· != 10) = 10 :: more := by
              rw [List.dropWhile_append_of_pos whole, List.dropWhile_cons_of_neg (by decide)]
            rw [taken, rest, List.takeWhile_eq_self_iff.mpr whole]
            split
            · exact List.nil_prefix
            · exact ⟨_, rfl⟩
        | cons feed others =>
            have broken : ¬ ∀ byte ∈ text, (byte != 10) = true := by
              intro whole
              rw [List.dropWhile_eq_nil_iff.mpr whole] at left
              cases left
            have parts : text.takeWhile (· != 10) ++ feed :: others = text := by
              rw [← left]
              exact List.takeWhile_append_dropWhile
            have taken : (text ++ 10 :: more).takeWhile (· != 10) = text.takeWhile (· != 10) := by
              rw [List.takeWhile_append, if_neg]
              intro all
              apply broken
              exact List.takeWhile_eq_self_iff.mp ((List.takeWhile_prefix _).eq_of_length all)
            have rest : (text ++ 10 :: more).dropWhile (· != 10) =
                feed :: (others ++ 10 :: more) := by
              rw [List.dropWhile_append, left]
              rfl
            have shorter : others.length < size := by
              rw [← measured, ← parts, List.length_append, List.length_cons]
              omega
            rw [taken, rest]
            split
            · exact List.nil_prefix
            · exact (List.prefix_cons_inj _).mpr (ih _ shorter others rfl)

/-- Lines joined by line feeds, with or without one at the end, are the lines of the source. -/
theorem ofText_joined {lines : List Text} {ending : Text} (nonempty : lines ≠ [])
    (whole : ∀ line ∈ lines, IsWhole line) (ended : ending = [] ∨ ending = [10]) :
    ofText (List.intercalate [10] lines ++ ending) = ⟨lines, false⟩ := by
  induction lines with
  | nil => exact absurd rfl nonempty
  | cons line rest ih =>
      have head := whole line List.mem_cons_self
      cases rest with
      | nil =>
          have single : List.intercalate [10] [line] = line := by
            simp [List.intercalate]
          rw [single]
          rcases ended with rfl | rfl
          · rw [List.append_nil, ofText_of_isWhole head]
          · rw [ofText_append head, ofText]
      | cons next others =>
          have joined : List.intercalate [10] (line :: next :: others) ++ ending =
              line ++ 10 :: (List.intercalate [10] (next :: others) ++ ending) := by
            simp [List.intercalate]
          rw [joined, ofText_append head, ih (List.cons_ne_nil _ _) fun later member =>
            whole later (List.mem_cons_of_mem _ member)]

theorem isWhole_spaced {first : Text} {operands : List Text}
    (plain : ∀ word ∈ first :: operands, word.IsPlain)
    (short : (Text.spaced (first :: operands)).length < lineLimit) :
    IsWhole (Text.spaced (first :: operands)) where
  nonempty := Text.spaced_ne_nil operands (plain first List.mem_cons_self).nonempty
  unbroken := Text.ne_of_mem_spaced plain (by decide) (by decide)
  unreturned := by
    intro last
    have odd := Text.getLast?_spaced plain 13 last
    cases odd
  short := short

end Source

end Nibble
