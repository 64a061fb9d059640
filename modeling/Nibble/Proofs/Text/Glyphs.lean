import Nibble.Proofs.Text.Plain
import Mathlib.Tactic.SplitIfs

set_option autoImplicit false

/-! Characters of joined texts. No byte of a text is lost, a text can be taken apart before every
byte that does not continue a character, and white space can be taken off around what is not white
space. -/

namespace Nibble

namespace Glyph

/-- The range of a second byte, which is smaller behind the first bytes of the shortest codes. -/
theorem second_range {lead byte : UInt8} (second : isSecond lead byte = true) :
    0x80 ≤ byte.toNat ∧ byte.toNat ≤ 0xBF ∧ (lead.toNat = 0xE0 → 0xA0 ≤ byte.toNat) ∧
      (lead.toNat = 0xF0 → 0x90 ≤ byte.toNat) := by
  simp only [isSecond, secondRange, Bool.and_eq_true, decide_eq_true_eq, UInt8.le_iff_toNat_le,
    ← UInt8.toNat_inj, UInt8.reduceToNat] at second
  split_ifs at second <;> simp only [UInt8.reduceToNat] at second <;> omega

theorem isTail_of_isSecond {lead byte : UInt8} (second : isSecond lead byte = true) :
    isTail byte = true := by
  obtain ⟨low, high, _⟩ := second_range second
  simp only [isTail, Bool.and_eq_true, decide_eq_true_eq, UInt8.le_iff_toNat_le]
  exact ⟨low, high⟩

/-- Bytes that do not continue a character play no part in the character before them. -/
theorem first_append (lead : UInt8) (rest : Text) {back : Text}
    (boundary : ∀ byte ∈ back.head?, isTail byte = false) :
    first lead (rest ++ back) = first lead rest := by
  cases back with
  | nil => rw [List.append_nil]
  | cons byte others =>
      have tail : isTail byte = false := boundary byte rfl
      have second : isSecond lead byte = false := by
        rw [← Bool.not_eq_true]
        intro continues
        rw [isTail_of_isSecond continues] at tail
        cases tail
      unfold first
      rcases rest with _ | ⟨one, _ | ⟨two, _ | ⟨three, more⟩⟩⟩
      · rcases others with _ | ⟨next, _ | ⟨last, others⟩⟩
        all_goals simp only [List.nil_append, second, Bool.false_and, Bool.false_eq_true, if_false]
      · rcases others with _ | ⟨next, others⟩
        all_goals
          simp only [List.cons_append, List.nil_append, tail, Bool.and_false, Bool.false_and,
            Bool.false_eq_true, if_false]
      · simp only [List.cons_append, List.nil_append, tail, Bool.and_false, Bool.false_eq_true,
          if_false]
      · rfl

/-- Everything that a text can begin with: an ASCII byte, a byte that begins no character, or a
character of several bytes, which is the same whatever stands behind it. -/
inductive Begins (lead : UInt8) (rest : Text) : Glyph → Prop where
  | single (small : lead < 0x80) : Begins lead rest (ofByte lead)
  | stray (high : ¬ lead < 0x80) : Begins lead rest (stray lead)
  | several (code : Nat) (more others : Text) (high : 0xC0 ≤ lead) (large : 0x80 ≤ code)
      (split : rest = more ++ others) (tails : ∀ byte ∈ more, isTail byte = true)
      (complete : ∀ back, first lead (more ++ back) = ⟨code, lead :: more⟩) :
      Begins lead rest ⟨code, lead :: more⟩

theorem begins_first (lead : UInt8) (rest : Text) : Begins lead rest (first lead rest) := by
  have atLeast : ∀ bound : UInt8, ¬ lead < bound → bound.toNat ≤ lead.toNat := fun bound high =>
    UInt8.le_iff_toNat_le.mp (UInt8.not_lt.mp high)
  have below : ∀ bound : UInt8, lead < bound → lead.toNat < bound.toNat := fun bound low =>
    UInt8.lt_iff_toNat_lt.mp low
  unfold first
  split_ifs with one two three four five
  · exact .single one
  · exact .stray one
  · rcases rest with _ | ⟨second, rest⟩
    · exact .stray one
    · dsimp only
      split_ifs with continues
      · have low : 0xC2 ≤ lead.toNat := atLeast _ two
        have high : lead.toNat < 0xE0 := below _ three
        refine .several _ [second] rest ?_ (by omega) rfl ?_ fun back => ?_
        · exact UInt8.le_iff_toNat_le.mpr (Nat.le_trans (by decide) low)
        · simp only [List.forall_mem_cons, List.not_mem_nil, false_implies, implies_true, and_true]
          exact isTail_of_isSecond continues
        · simp only [first, List.cons_append, one, two, three, continues, if_false, if_true]
      · exact .stray one
  · rcases rest with _ | ⟨second, _ | ⟨third, rest⟩⟩
    · exact .stray one
    · exact .stray one
    · dsimp only
      split_ifs with continues
      · have low : 0xE0 ≤ lead.toNat := atLeast _ three
        have high : lead.toNat < 0xF0 := below _ four
        rw [Bool.and_eq_true] at continues
        have range := second_range continues.1
        refine .several _ [second, third] rest ?_ ?_ rfl ?_ fun back => ?_
        · exact UInt8.le_iff_toNat_le.mpr (Nat.le_trans (by decide) low)
        · unfold payload
          omega
        · simp only [List.forall_mem_cons, List.not_mem_nil, false_implies, implies_true, and_true]
          exact ⟨isTail_of_isSecond continues.1, continues.2⟩
        · simp only [first, List.cons_append, one, two, three, four, continues, Bool.and_self,
            if_false, if_true]
      · exact .stray one
  · rcases rest with _ | ⟨second, _ | ⟨third, _ | ⟨fourth, rest⟩⟩⟩
    · exact .stray one
    · exact .stray one
    · exact .stray one
    · dsimp only
      split_ifs with continues
      · have low : 0xF0 ≤ lead.toNat := atLeast _ four
        have high : lead.toNat < 0xF5 := below _ five
        simp only [Bool.and_eq_true] at continues
        have range := second_range continues.1.1
        refine .several _ [second, third, fourth] rest ?_ ?_ rfl ?_ fun back => ?_
        · exact UInt8.le_iff_toNat_le.mpr (Nat.le_trans (by decide) low)
        · unfold payload
          omega
        · simp only [List.forall_mem_cons, List.not_mem_nil, false_implies, implies_true, and_true]
          exact ⟨isTail_of_isSecond continues.1.1, continues.1.2, continues.2⟩
        · simp only [first, List.cons_append, one, two, three, four, five, continues,
            Bool.and_self, if_false, if_true]
      · exact .stray one
  · exact .stray one

theorem bytes_first (lead : UInt8) (rest : Text) :
    (first lead rest).bytes ++ rest.drop ((first lead rest).bytes.length - 1) = lead :: rest := by
  have start := begins_first lead rest
  generalize first lead rest = glyph at start
  cases start with
  | single | stray => rfl
  | several code more others _ _ split =>
      subst split
      show lead :: more ++ (more ++ others).drop more.length = lead :: (more ++ others)
      rw [List.drop_left, List.cons_append]

end Glyph

namespace Text

/-- No byte is lost. -/
theorem ofGlyphs_glyphs (text : Text) : ofGlyphs text.glyphs = text := by
  induction text using glyphs.induct with
  | case1 => rw [glyphs]; rfl
  | case2 lead rest ih =>
      rw [glyphs, ofGlyphs, List.flatMap_cons]
      rw [ofGlyphs] at ih
      rw [ih, Glyph.bytes_first]

/-- A text can be taken apart before a byte that does not continue a character. -/
theorem glyphs_append (front : Text) {back : Text}
    (boundary : ∀ byte ∈ back.head?, Glyph.isTail byte = false) :
    glyphs (front ++ back) = glyphs front ++ glyphs back := by
  induction front using glyphs.induct with
  | case1 => rw [glyphs, List.nil_append, List.nil_append]
  | case2 lead rest ih =>
      have within : (Glyph.first lead rest).bytes.length - 1 ≤ rest.length := by
        have whole := congrArg List.length (Glyph.bytes_first lead rest)
        rw [List.length_append, List.length_drop, List.length_cons] at whole
        omega
      rw [List.cons_append, glyphs, glyphs, Glyph.first_append lead rest boundary,
        List.drop_append_of_le_length within, ih, List.cons_append]

theorem isTail_of_lt {byte : UInt8} (small : byte < 0x80) : Glyph.isTail byte = false := by
  simp only [Glyph.isTail, Bool.and_eq_false_iff, decide_eq_false_iff_not]
  exact .inl (UInt8.not_le.mpr small)

theorem glyphs_append_cons (front : Text) {byte : UInt8} (back : Text) (small : byte < 0x80) :
    glyphs (front ++ byte :: back) = glyphs front ++ Glyph.ofByte byte :: glyphs back := by
  rw [glyphs_append front, glyphs_cons_of_lt back small]
  intro first same
  cases same
  exact isTail_of_lt small

/-- A character with an ASCII code is a byte of the text. -/
theorem mem_of_mem_glyphs {text : Text} {glyph : Glyph} (member : glyph ∈ text.glyphs)
    (small : glyph.code < 0x80) : ∃ byte ∈ text, glyph = Glyph.ofByte byte := by
  induction text using glyphs.induct with
  | case1 =>
      rw [glyphs] at member
      cases member
  | case2 lead rest ih =>
      rw [glyphs] at member
      rcases List.mem_cons.mp member with rfl | later
      · have start := Glyph.begins_first lead rest
        generalize Glyph.first lead rest = glyph at start small
        cases start with
        | single => exact ⟨lead, List.mem_cons_self, rfl⟩
        | stray =>
            change Glyph.replacementCode < 0x80 at small
            exact absurd small (by decide)
        | several code _ _ _ large => exact absurd small (Nat.not_lt_of_le large)
      · obtain ⟨byte, inside, same⟩ := ih later
        exact ⟨byte, List.mem_cons_of_mem _ (List.mem_of_mem_drop inside), same⟩

theorem code_ne_of_not_mem {text : Text} {mark : UInt8} (small : mark < 0x80)
    (absent : mark ∉ text) : ∀ glyph ∈ text.glyphs, glyph.code ≠ mark.toNat := by
  intro glyph member same
  have low : glyph.code < 0x80 := by
    rw [same]
    exact UInt8.lt_iff_toNat_lt.mp small
  obtain ⟨byte, inside, rfl⟩ := mem_of_mem_glyphs member low
  exact absent (UInt8.toNat_inj.mp same ▸ inside)

theorem bne_of_not_mem {text : Text} {mark : UInt8} (absent : mark ∉ text) :
    ∀ byte ∈ text, (byte != mark) = true := by
  intro byte member
  rw [bne_iff_ne]
  intro same
  exact absent (same ▸ member)

/-! ### White space -/

/-- The bytes of printed ASCII characters. -/
def isInk (byte : UInt8) : Bool :=
  33 ≤ byte && byte ≤ 126

theorem lt_of_isInk {byte : UInt8} (ink : isInk byte = true) : byte < 0x80 := by
  simp only [isInk, Bool.and_eq_true, decide_eq_true_eq] at ink
  exact UInt8.lt_of_le_of_lt ink.2 (by decide)

theorem not_isBlank_of_isInk {byte : UInt8} (ink : isInk byte = true) :
    (Glyph.ofByte byte).isBlank = false := by
  simp only [isInk, Bool.and_eq_true, decide_eq_true_eq, UInt8.le_iff_toNat_le,
    UInt8.reduceToNat] at ink
  have range : 33 ≤ (Glyph.ofByte byte).code ∧ (Glyph.ofByte byte).code ≤ 126 := ink
  generalize Glyph.ofByte byte = glyph at range
  simp only [Glyph.isBlank, Bool.or_eq_false_iff, Bool.and_eq_false_iff,
    decide_eq_false_iff_not, beq_eq_false_iff_ne]
  omega

/-- A text whose first and last bytes are printed. -/
structure IsEdged (text : Text) : Prop where
  first : ∃ byte rest, text = byte :: rest ∧ isInk byte = true
  last : ∃ rest byte, text = rest ++ [byte] ∧ isInk byte = true

theorem IsEdged.of_all {text : Text} (nonempty : text ≠ [])
    (ink : ∀ byte ∈ text, isInk byte = true) : IsEdged text where
  first := by
    cases text with
    | nil => exact absurd rfl nonempty
    | cons byte rest => exact ⟨byte, rest, rfl, ink byte List.mem_cons_self⟩
  last := ⟨text.dropLast, text.getLast nonempty, (List.dropLast_concat_getLast nonempty).symm,
    ink _ (List.getLast_mem nonempty)⟩

/-- A text can be taken apart on both sides of a part with printed ends. -/
theorem glyphs_around (front : Text) {middle : Text} (back : Text) (edged : IsEdged middle) :
    glyphs (front ++ (middle ++ back)) = glyphs front ++ (glyphs middle ++ glyphs back) := by
  have left : glyphs (front ++ (middle ++ back)) = glyphs front ++ glyphs (middle ++ back) := by
    obtain ⟨byte, rest, rfl, ink⟩ := edged.first
    apply glyphs_append
    intro first same
    cases same
    exact isTail_of_lt (lt_of_isInk ink)
  obtain ⟨rest, byte, rfl, ink⟩ := edged.last
  have small := lt_of_isInk ink
  rw [left, List.append_assoc, List.singleton_append, glyphs_append_cons rest back small,
    glyphs_append_cons rest [] small, glyphs, List.append_assoc, List.singleton_append]

theorem dropWhile_append_inked {characters rest : List Glyph} {glyph : Glyph}
    (inked : glyph.isBlank = false) :
    (characters ++ glyph :: rest).dropWhile Glyph.isBlank =
      characters.dropWhile Glyph.isBlank ++ glyph :: rest := by
  rw [List.dropWhile_append]
  split
  · next empty =>
    rw [List.isEmpty_iff.mp empty, List.dropWhile_cons_of_neg (by simp [inked]), List.nil_append]
  · rfl

/-- A text without the white space at its beginning, or at its end. -/
def trimLeft (text : Text) : Text :=
  ofGlyphs (text.glyphs.dropWhile Glyph.isBlank)

def trimRight (text : Text) : Text :=
  ofGlyphs ((text.glyphs.reverse.dropWhile Glyph.isBlank).reverse)

theorem ofGlyphs_append (first second : List Glyph) :
    ofGlyphs (first ++ second) = ofGlyphs first ++ ofGlyphs second :=
  List.flatMap_append

theorem subset_of_sublist {characters : List Glyph} {text : Text}
    (kept : characters.Sublist text.glyphs) : ofGlyphs characters ⊆ text := by
  intro byte member
  obtain ⟨glyph, present, inside⟩ := List.mem_flatMap.mp member
  rw [← ofGlyphs_glyphs text]
  exact List.mem_flatMap.mpr ⟨glyph, kept.subset present, inside⟩

theorem trimLeft_subset (text : Text) : trimLeft text ⊆ text :=
  subset_of_sublist (List.dropWhile_sublist _)

theorem trimRight_subset (text : Text) : trimRight text ⊆ text := by
  apply subset_of_sublist
  rw [← List.reverse_sublist, List.reverse_reverse]
  exact List.dropWhile_sublist _

theorem trim_concat_blank (text : Text) {byte : UInt8} (small : byte < 0x80)
    (blank : (Glyph.ofByte byte).isBlank = true) : trim (text ++ [byte]) = trim text := by
  rw [trim, trim, glyphs_append_cons text [] small, glyphs, List.dropWhile_append]
  split
  · next empty =>
    rw [List.isEmpty_iff.mp empty, List.dropWhile_cons_of_pos blank]
    rfl
  · rw [List.reverse_append, List.reverse_singleton, List.singleton_append,
      List.dropWhile_cons_of_pos blank]

theorem trim_around (front : Text) {middle : Text} (back : Text) (edged : IsEdged middle) :
    trim (front ++ (middle ++ back)) = trimLeft front ++ (middle ++ trimRight back) := by
  obtain ⟨byte, rest, begins, inkFirst⟩ := edged.first
  obtain ⟨others, final, ends, inkLast⟩ := edged.last
  have opening : glyphs middle = Glyph.ofByte byte :: glyphs rest := by
    rw [begins, glyphs_cons_of_lt rest (lt_of_isInk inkFirst)]
  have closing : (glyphs middle).reverse = Glyph.ofByte final :: (glyphs others).reverse := by
    rw [ends, glyphs_append_cons others [] (lt_of_isInk inkLast), glyphs, List.reverse_append]
    rfl
  have left : (glyphs front ++ (glyphs middle ++ glyphs back)).dropWhile Glyph.isBlank =
      (glyphs front).dropWhile Glyph.isBlank ++ (glyphs middle ++ glyphs back) := by
    rw [opening, List.cons_append, dropWhile_append_inked (not_isBlank_of_isInk inkFirst)]
  rw [trim, glyphs_around front back edged, left]
  simp only [List.reverse_append, List.append_assoc]
  rw [closing, List.cons_append, dropWhile_append_inked (not_isBlank_of_isInk inkLast),
    ← List.cons_append, ← closing]
  simp only [List.reverse_append, List.reverse_reverse, List.append_assoc, ofGlyphs_append,
    ofGlyphs_glyphs]
  rfl

end Text

end Nibble
