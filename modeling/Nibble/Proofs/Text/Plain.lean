import Nibble.Text.Blank

set_option autoImplicit false

/-! Plain words: small letters, digits and points. Lines of plain words with one space between
neighbours read back as the words they are made of. -/

namespace Nibble

def Glyph.ofByte (byte : UInt8) : Glyph :=
  ⟨byte.toNat, [byte]⟩

namespace Text

theorem glyphs_cons_of_lt {lead : UInt8} (rest : Text) (small : lead < 0x80) :
    glyphs (lead :: rest) = Glyph.ofByte lead :: glyphs rest := by
  have first : Glyph.first lead rest = Glyph.ofByte lead := by
    unfold Glyph.first
    rw [if_pos small]
    rfl
  rw [glyphs, first]
  rfl

theorem glyphs_of_ascii {text : Text} (small : ∀ byte ∈ text, byte < 0x80) :
    text.glyphs = text.map Glyph.ofByte := by
  induction text with
  | nil => rw [glyphs, List.map_nil]
  | cons lead rest ih =>
      rw [glyphs_cons_of_lt rest (small lead List.mem_cons_self), List.map_cons,
        ih fun byte member => small byte (List.mem_cons_of_mem _ member)]

theorem ofGlyphs_map_ofByte (text : Text) : ofGlyphs (text.map Glyph.ofByte) = text := by
  induction text with
  | nil => rfl
  | cons lead rest ih =>
      rw [ofGlyphs, List.map_cons, List.flatMap_cons]
      exact congrArg (lead :: ·) ih

/-! ### Fields -/

theorem fieldGlyphs_eq (characters : List Glyph) :
    fieldGlyphs characters =
      match characters.dropWhile Glyph.isBlank with
      | [] => []
      | head :: rest =>
          (head :: rest.takeWhile fun glyph => !glyph.isBlank) ::
            fieldGlyphs (rest.dropWhile fun glyph => !glyph.isBlank) := by
  rw [fieldGlyphs]
  split
  · next found => rw [found]
  · next head rest found => simp only [found]

theorem fieldGlyphs_cons_blank {glyph : Glyph} (rest : List Glyph) (blank : glyph.isBlank = true) :
    fieldGlyphs (glyph :: rest) = fieldGlyphs rest := by
  rw [fieldGlyphs_eq, fieldGlyphs_eq, List.dropWhile_cons_of_pos blank]

/-- A run of characters that are not white space is the first field when the text ends behind it or
goes on with white space. -/
theorem fieldGlyphs_append {run rest : List Glyph} (nonempty : run ≠ [])
    (inked : ∀ glyph ∈ run, glyph.isBlank = false)
    (ended : ∀ glyph ∈ rest.head?, glyph.isBlank = true) :
    fieldGlyphs (run ++ rest) = run :: fieldGlyphs rest := by
  cases run with
  | nil => exact absurd rfl nonempty
  | cons head tail =>
      have headInked := inked head List.mem_cons_self
      have tailInked : ∀ glyph ∈ tail, (!glyph.isBlank) = true := by
        intro glyph member
        rw [inked glyph (List.mem_cons_of_mem _ member), Bool.not_false]
      have restEnded : rest.takeWhile (fun glyph => !glyph.isBlank) = [] ∧
          rest.dropWhile (fun glyph => !glyph.isBlank) = rest := by
        cases rest with
        | nil => exact ⟨rfl, rfl⟩
        | cons next others =>
            have blank := ended next rfl
            constructor
            · exact List.takeWhile_cons_of_neg (by simp [blank])
            · exact List.dropWhile_cons_of_neg (by simp [blank])
      rw [List.cons_append, fieldGlyphs_eq, List.dropWhile_cons_of_neg (by simp [headInked])]
      simp only [List.takeWhile_append_of_pos tailInked, List.dropWhile_append_of_pos tailInked,
        restEnded.1, restEnded.2, List.append_nil]

/-! ### Plain words -/

def isPlainByte (byte : UInt8) : Bool :=
  byte == 46 || (48 ≤ byte && byte ≤ 57) || (97 ≤ byte && byte ≤ 122)

/-- A word of small letters, digits and points. -/
structure IsPlain (word : Text) : Prop where
  nonempty : word ≠ []
  bytes : ∀ byte ∈ word, isPlainByte byte = true

theorem isPlain_iff (word : Text) :
    word.IsPlain ↔ (!word.isEmpty && word.all isPlainByte) = true := by
  rw [Bool.and_eq_true, Bool.not_eq_true', List.isEmpty_eq_false_iff, List.all_eq_true]
  exact ⟨fun plain => ⟨plain.nonempty, plain.bytes⟩, fun both => ⟨both.1, both.2⟩⟩

instance (word : Text) : Decidable word.IsPlain :=
  decidable_of_iff _ (isPlain_iff word).symm

theorem isPlainByte_iff (byte : UInt8) :
    isPlainByte byte = true ↔
      byte.toNat = 46 ∨ (48 ≤ byte.toNat ∧ byte.toNat ≤ 57) ∨
        (97 ≤ byte.toNat ∧ byte.toNat ≤ 122) := by
  simp only [isPlainByte, Bool.or_eq_true, beq_iff_eq, Bool.and_eq_true, decide_eq_true_eq,
    UInt8.le_iff_toNat_le, ← UInt8.toNat_inj, or_assoc]
  rfl

theorem lt_of_isPlainByte {byte : UInt8} (plain : isPlainByte byte = true) : byte < 0x80 := by
  have range := (isPlainByte_iff byte).mp plain
  rw [UInt8.lt_iff_toNat_lt]
  show byte.toNat < 128
  omega

theorem not_isBlank_of_isPlainByte {byte : UInt8} (plain : isPlainByte byte = true) :
    (Glyph.ofByte byte).isBlank = false := by
  have range : (Glyph.ofByte byte).code = 46 ∨
      (48 ≤ (Glyph.ofByte byte).code ∧ (Glyph.ofByte byte).code ≤ 57) ∨
      (97 ≤ (Glyph.ofByte byte).code ∧ (Glyph.ofByte byte).code ≤ 122) :=
    (isPlainByte_iff byte).mp plain
  generalize Glyph.ofByte byte = glyph at range
  simp only [Glyph.isBlank, Bool.or_eq_false_iff, Bool.and_eq_false_iff,
    decide_eq_false_iff_not, beq_eq_false_iff_ne]
  omega

/-! ### Lines of plain words -/

theorem spaced_nil : spaced [] = [] := rfl

theorem spaced_singleton (word : Text) : spaced [word] = word := by
  simp [spaced, List.intercalate]

theorem spaced_cons_cons (first second : Text) (rest : List Text) :
    spaced (first :: second :: rest) = first ++ 32 :: spaced (second :: rest) := by
  simp [spaced, List.intercalate]

theorem forall_mem_spaced (holds : UInt8 → Prop) {words : List Text} (space : holds 32)
    (inside : ∀ word ∈ words, ∀ byte ∈ word, holds byte) :
    ∀ byte ∈ spaced words, holds byte := by
  induction words with
  | nil =>
      intro byte member
      cases member
  | cons first rest ih =>
      have tail := ih fun word member => inside word (List.mem_cons_of_mem _ member)
      have head := inside first List.mem_cons_self
      cases rest with
      | nil =>
          rw [spaced_singleton]
          exact head
      | cons second others =>
          intro byte member
          rw [spaced_cons_cons, List.mem_append, List.mem_cons] at member
          rcases member with early | same | late
          · exact head byte early
          · subst same
            exact space
          · exact tail byte late

theorem length_spaced_le {words : List Text} {width : Nat}
    (short : ∀ word ∈ words, word.length ≤ width) :
    (spaced words).length ≤ words.length * (width + 1) := by
  induction words with
  | nil => exact Nat.zero_le _
  | cons first rest ih =>
      have tail := ih fun word member => short word (List.mem_cons_of_mem _ member)
      have head := short first List.mem_cons_self
      cases rest with
      | nil =>
          rw [spaced_singleton, List.length_singleton]
          omega
      | cons second others =>
          rw [spaced_cons_cons, List.length_append, List.length_cons, List.length_cons,
            Nat.succ_mul]
          omega

theorem ne_of_mem_spaced {words : List Text} (plain : ∀ word ∈ words, word.IsPlain) {mark : UInt8}
    (unspaced : mark ≠ 32) (odd : isPlainByte mark = false) :
    ∀ byte ∈ spaced words, byte ≠ mark := by
  apply forall_mem_spaced (· ≠ mark) unspaced.symm
  intro word member byte inside same
  rw [← same, (plain word member).bytes byte inside] at odd
  cases odd

theorem glyphs_spaced {words : List Text} (plain : ∀ word ∈ words, word.IsPlain) :
    (spaced words).glyphs = (spaced words).map Glyph.ofByte := by
  apply glyphs_of_ascii
  apply forall_mem_spaced (· < 0x80)
  · decide
  · intro word member byte inside
    exact lt_of_isPlainByte ((plain word member).bytes byte inside)

theorem map_ofByte_inked {word : Text} (plain : word.IsPlain) :
    ∀ glyph ∈ word.map Glyph.ofByte, glyph.isBlank = false := by
  intro glyph member
  obtain ⟨byte, inside, rfl⟩ := List.mem_map.mp member
  exact not_isBlank_of_isPlainByte (plain.bytes byte inside)

theorem fieldGlyphs_spaced {words : List Text} (plain : ∀ word ∈ words, word.IsPlain) :
    fieldGlyphs ((spaced words).map Glyph.ofByte) = words.map (List.map Glyph.ofByte) := by
  induction words with
  | nil =>
      rw [spaced_nil, List.map_nil, fieldGlyphs_eq]
      rfl
  | cons first rest ih =>
      have tail := ih fun word member => plain word (List.mem_cons_of_mem _ member)
      have head := plain first List.mem_cons_self
      have nonempty : first.map Glyph.ofByte ≠ [] := by
        rw [Ne, List.map_eq_nil_iff]
        exact head.nonempty
      cases rest with
      | nil =>
          have alone : fieldGlyphs (first.map Glyph.ofByte ++ []) =
              first.map Glyph.ofByte :: fieldGlyphs [] :=
            fieldGlyphs_append nonempty (map_ofByte_inked head) fun _ found => nomatch found
          rw [List.append_nil, fieldGlyphs_eq []] at alone
          rw [spaced_singleton, alone]
          rfl
      | cons second others =>
          -- The first word ends at the space, and what follows is a line of the other words.
          rw [spaced_cons_cons, List.map_append, List.map_cons]
          rw [fieldGlyphs_append nonempty (map_ofByte_inked head), fieldGlyphs_cons_blank, tail]
          · rfl
          · rfl
          · intro glyph found
            cases found
            rfl

theorem fields_spaced {words : List Text} (plain : ∀ word ∈ words, word.IsPlain) :
    fields (spaced words) = words := by
  rw [fields, glyphs_spaced plain, fieldGlyphs_spaced plain, List.map_map]
  calc words.map (ofGlyphs ∘ List.map Glyph.ofByte)
      _ = words.map id := by
          apply List.map_congr_left
          intro word _
          exact ofGlyphs_map_ofByte word
      _ = words := List.map_id words

theorem spaced_ne_nil {first : Text} (rest : List Text) (nonempty : first ≠ []) :
    spaced (first :: rest) ≠ [] := by
  cases rest with
  | nil =>
      rw [spaced_singleton]
      exact nonempty
  | cons second others =>
      rw [spaced_cons_cons]
      exact List.append_ne_nil_of_left_ne_nil nonempty _

theorem head?_spaced {words : List Text} (plain : ∀ word ∈ words, word.IsPlain) :
    ∀ byte ∈ (spaced words).head?, isPlainByte byte = true := by
  intro byte found
  cases words with
  | nil => cases found
  | cons first rest =>
      have head := plain first List.mem_cons_self
      have early : byte ∈ first.head? := by
        cases rest with
        | nil =>
            rw [spaced_singleton] at found
            exact found
        | cons second others =>
            rw [spaced_cons_cons, List.head?_append, List.head?_eq_some_head head.nonempty,
              Option.some_or] at found
            rw [List.head?_eq_some_head head.nonempty]
            exact found
      exact head.bytes byte (List.mem_of_mem_head? early)

theorem getLast?_spaced {words : List Text} (plain : ∀ word ∈ words, word.IsPlain) :
    ∀ byte ∈ (spaced words).getLast?, isPlainByte byte = true := by
  induction words with
  | nil =>
      intro byte found
      cases found
  | cons first rest ih =>
      have tail := ih fun word member => plain word (List.mem_cons_of_mem _ member)
      have head := plain first List.mem_cons_self
      cases rest with
      | nil =>
          intro byte found
          rw [spaced_singleton] at found
          exact head.bytes byte (List.mem_of_getLast? found)
      | cons second others =>
          have nonempty := spaced_ne_nil others (plain second (by simp)).nonempty
          intro byte found
          rw [spaced_cons_cons, List.getLast?_append, List.getLast?_cons] at found
          apply tail byte
          rw [List.getLast?_eq_some_getLast nonempty] at found ⊢
          exact found

theorem dropWhile_eq_self {items : List Glyph}
    (inked : ∀ glyph ∈ items.head?, glyph.isBlank = false) :
    items.dropWhile Glyph.isBlank = items := by
  cases items with
  | nil => rfl
  | cons first rest =>
      apply List.dropWhile_cons_of_neg
      rw [inked first rfl]
      decide

theorem trim_spaced {words : List Text} (plain : ∀ word ∈ words, word.IsPlain) :
    trim (spaced words) = spaced words := by
  have first : ∀ glyph ∈ ((spaced words).map Glyph.ofByte).head?, glyph.isBlank = false := by
    intro glyph found
    rw [List.head?_map, Option.mem_def, Option.map_eq_some_iff] at found
    obtain ⟨byte, early, rfl⟩ := found
    exact not_isBlank_of_isPlainByte (head?_spaced plain byte early)
  have last : ∀ glyph ∈ ((spaced words).map Glyph.ofByte).reverse.head?,
      glyph.isBlank = false := by
    intro glyph found
    rw [List.head?_reverse, List.getLast?_map, Option.mem_def, Option.map_eq_some_iff] at found
    obtain ⟨byte, late, rfl⟩ := found
    exact not_isBlank_of_isPlainByte (getLast?_spaced plain byte late)
  rw [trim, glyphs_spaced plain, dropWhile_eq_self first, dropWhile_eq_self last,
    List.reverse_reverse, ofGlyphs_map_ofByte]

end Text

end Nibble
