import Nibble.Proofs.Text.Glyphs
import Mathlib.Data.List.TakeWhile

set_option autoImplicit false

/-! The words of a text in which commas count as white space. A text can be taken apart before and
behind every character between words, and its words are those of the two parts; all that is said
about words here follows from this. -/

namespace Nibble

namespace Glyph

/-- A character that stands between words: white space or a comma. -/
def separates (glyph : Glyph) : Bool :=
  glyph.isBlank || glyph.code == 44

/-- A character that is the same whatever stands around its bytes. -/
def Whole (glyph : Glyph) : Prop :=
  ∃ lead more, glyph.bytes = lead :: more ∧ isTail lead = false ∧
    (∀ byte ∈ more, isTail byte = true) ∧ ∀ back, first lead (more ++ back) = glyph

theorem whole_ofByte {byte : UInt8} (small : byte < 0x80) : Whole (ofByte byte) := by
  refine ⟨byte, [], rfl, Text.isTail_of_lt small, ?_, ?_⟩
  · intro other member
    cases member
  · intro back
    unfold first
    rw [if_pos small]
    rfl

/-- Every character of a text is whole, unless it stands for a byte that is no character. -/
theorem whole_of_mem_glyphs {text : Text} {glyph : Glyph} (member : glyph ∈ text.glyphs)
    (valid : glyph.code ≠ replacementCode) : Whole glyph := by
  induction text using Text.glyphs.induct with
  | case1 =>
      rw [Text.glyphs] at member
      cases member
  | case2 lead rest ih =>
      rw [Text.glyphs] at member
      rcases List.mem_cons.mp member with rfl | later
      · have start := begins_first lead rest
        generalize first lead rest = glyph at start valid
        cases start with
        | single small => exact whole_ofByte small
        | stray => exact absurd rfl valid
        | several code more others high _ _ tails complete =>
            refine ⟨lead, more, rfl, ?_, tails, complete⟩
            simp only [isTail, Bool.and_eq_false_iff, decide_eq_false_iff_not]
            right
            intro low
            exact absurd (UInt8.le_trans high low) (by decide)
      · exact ih later

theorem Whole.not_mem {glyph : Glyph} (whole : Whole glyph) {mark : UInt8} (small : mark < 0x80)
    (other : glyph.code ≠ mark.toNat) : mark ∉ glyph.bytes := by
  obtain ⟨lead, more, bytes, _, tails, complete⟩ := whole
  rw [bytes, List.mem_cons]
  rintro (rfl | later)
  · have single := complete []
    unfold first at single
    rw [if_pos small] at single
    exact other (congrArg Glyph.code single).symm
  · have tail := tails mark later
    rw [Text.isTail_of_lt small] at tail
    cases tail

theorem code_ne_of_isBlank {glyph : Glyph} (blank : glyph.isBlank = true) {code : Nat}
    (inked : 33 ≤ code ∧ code ≤ 126 ∨ code = replacementCode) : glyph.code ≠ code := by
  intro same
  unfold replacementCode at inked
  simp only [isBlank, same, Bool.or_eq_true, Bool.and_eq_true, decide_eq_true_eq,
    beq_iff_eq] at blank
  omega

/-- A character that parts two words: a comma, or white space that is a whole character. -/
def Parts (glyph : Glyph) : Prop :=
  glyph = ofByte 44 ∨ glyph.isBlank = true ∧ Whole glyph

theorem Parts.whole {glyph : Glyph} (parts : Parts glyph) : Whole glyph := by
  rcases parts with rfl | ⟨_, whole⟩
  · exact whole_ofByte (by decide)
  · exact whole

theorem Parts.not_mem {glyph : Glyph} (parts : Parts glyph) {mark : UInt8}
    (ink : Text.isInk mark = true) (other : mark ≠ 44) : mark ∉ glyph.bytes := by
  rcases parts with rfl | ⟨blank, whole⟩
  · intro member
    exact other (List.mem_singleton.mp member)
  · apply whole.not_mem (Text.lt_of_isInk ink)
    apply code_ne_of_isBlank blank
    left
    simpa only [Text.isInk, Bool.and_eq_true, decide_eq_true_eq, UInt8.le_iff_toNat_le,
      UInt8.reduceToNat] using ink

theorem parts_of_separates {text : Text} {glyph : Glyph} (member : glyph ∈ text.glyphs)
    (between : glyph.separates = true) : Parts glyph := by
  rw [separates, Bool.or_eq_true, beq_iff_eq] at between
  rcases between with blank | comma
  · exact .inr ⟨blank, whole_of_mem_glyphs member (code_ne_of_isBlank blank (.inr rfl))⟩
  · obtain ⟨byte, _, rfl⟩ := Text.mem_of_mem_glyphs member (comma ▸ by decide)
    exact .inl (congrArg ofByte (UInt8.toNat_inj.mp comma))

end Glyph

namespace Text

theorem glyphs_whole (front : Text) {glyph : Glyph} (back : Text) (whole : glyph.Whole) :
    glyphs (front ++ (glyph.bytes ++ back)) = glyphs front ++ glyph :: glyphs back := by
  obtain ⟨lead, more, bytes, boundary, _, complete⟩ := whole
  have head : glyphs (glyph.bytes ++ back) = glyph :: glyphs back := by
    rw [bytes, List.cons_append, glyphs, complete back, bytes]
    show glyph :: glyphs ((more ++ back).drop more.length) = _
    rw [List.drop_left]
  rw [glyphs_append front, head]
  intro byte first
  rw [bytes] at first
  cases first
  exact boundary

theorem fieldGlyphs_append_blank (front : List Glyph) {glyph : Glyph} (back : List Glyph)
    (blank : glyph.isBlank = true) :
    fieldGlyphs (front ++ glyph :: back) = fieldGlyphs front ++ fieldGlyphs back := by
  induction front using fieldGlyphs.induct with
  | case1 front wordless =>
      rw [fieldGlyphs_eq, fieldGlyphs_eq front, fieldGlyphs_eq back, wordless,
        List.dropWhile_append, wordless, List.dropWhile_cons_of_pos blank]
      rfl
  | case2 front head rest found _ ih =>
      have taken : (rest ++ glyph :: back).takeWhile (fun glyph => !glyph.isBlank) =
          rest.takeWhile fun glyph => !glyph.isBlank := by
        rw [List.takeWhile_append, List.takeWhile_cons_of_neg (by simp [blank]), List.append_nil]
        split
        · next whole => exact ((List.takeWhile_prefix _).eq_of_length whole).symm
        · rfl
      have dropped : (rest ++ glyph :: back).dropWhile (fun glyph => !glyph.isBlank) =
          (rest.dropWhile fun glyph => !glyph.isBlank) ++ glyph :: back := by
        rw [List.dropWhile_append, List.dropWhile_cons_of_neg (by simp [blank])]
        split
        · next empty => rw [List.isEmpty_iff.mp empty, List.nil_append]
        · rfl
      rw [fieldGlyphs_eq, fieldGlyphs_eq front, found, List.dropWhile_append, found]
      simp only [List.isEmpty_cons, Bool.false_eq_true, if_false, List.cons_append]
      rw [taken, dropped, ih]

/-! ### Words -/

/-- The words of a text: what stands between white space and commas. -/
def wordsOf (text : Text) : List Text :=
  fields (text.map fun byte => if byte = 44 then 32 else byte)

theorem wordsOf_nil : wordsOf [] = [] := by
  rw [wordsOf, List.map_nil, fields, glyphs, fieldGlyphs]
  rfl

theorem uncommaed_of_not_mem {text : Text} (absent : 44 ∉ text) :
    (text.map fun byte => if byte = 44 then 32 else byte) = text := by
  have kept : ∀ byte ∈ text, (if byte = 44 then 32 else byte) = id byte := by
    intro byte member
    apply if_neg
    rintro rfl
    exact absent member
  rw [List.map_congr_left kept, List.map_id]

/-- What stands between words splits a text into two with words of their own. -/
theorem wordsOf_separated (front : Text) {glyph : Glyph} (back : Text) (parts : glyph.Parts) :
    wordsOf (front ++ (glyph.bytes ++ back)) = wordsOf front ++ wordsOf back := by
  obtain ⟨space, blank, whole, replaced⟩ : ∃ space : Glyph, space.isBlank = true ∧ space.Whole ∧
      (glyph.bytes.map fun byte => if byte = 44 then 32 else byte) = space.bytes := by
    rcases parts with rfl | ⟨blank, whole⟩
    · exact ⟨Glyph.ofByte 32, rfl, Glyph.whole_ofByte (by decide), rfl⟩
    · have absent : 44 ∉ glyph.bytes :=
        whole.not_mem (by decide) (Glyph.code_ne_of_isBlank blank (.inl (by decide)))
      exact ⟨glyph, blank, whole, uncommaed_of_not_mem absent⟩
  rw [wordsOf, List.map_append, List.map_append, replaced, fields, glyphs_whole _ _ whole,
    fieldGlyphs_append_blank _ _ blank, List.map_append]
  rfl

theorem wordsOf_append_closed {front : Text} (back : Text)
    (closed : front.glyphs.getLast?.any Glyph.separates = true) :
    wordsOf (front ++ back) = wordsOf front ++ wordsOf back := by
  rw [Option.any_eq_true] at closed
  obtain ⟨glyph, last, between⟩ := closed
  obtain ⟨others, shape⟩ := List.getLast?_eq_some_iff.mp last
  have split : front = ofGlyphs others ++ (glyph.bytes ++ []) := by
    rw [← ofGlyphs_glyphs front, shape, ofGlyphs_append]
    simp [ofGlyphs]
  have parts := Glyph.parts_of_separates (List.mem_of_getLast? last) between
  have start := wordsOf_separated (ofGlyphs others) [] parts
  rw [← split, wordsOf_nil, List.append_nil] at start
  calc wordsOf (front ++ back)
      _ = wordsOf (ofGlyphs others ++ (glyph.bytes ++ back)) := by
        rw [split, List.append_nil, List.append_assoc]
      _ = wordsOf front ++ wordsOf back := by
        rw [wordsOf_separated _ back parts, start]

theorem wordsOf_append_open (front : Text) {back : Text}
    (opened : back.glyphs.head?.all Glyph.separates = true) :
    wordsOf (front ++ back) = wordsOf front ++ wordsOf back := by
  cases shape : back.glyphs with
  | nil =>
      have empty : back = [] := by
        rw [← ofGlyphs_glyphs back, shape]
        rfl
      rw [empty, List.append_nil, wordsOf_nil, List.append_nil]
  | cons glyph others =>
      rw [shape] at opened
      have between : glyph.separates = true := opened
      have split : back = [] ++ (glyph.bytes ++ ofGlyphs others) := by
        rw [← ofGlyphs_glyphs back, shape]
        simp [ofGlyphs]
      have member : glyph ∈ back.glyphs := by
        rw [shape]
        exact List.mem_cons_self
      have parts := Glyph.parts_of_separates member between
      have start := wordsOf_separated [] (ofGlyphs others) parts
      rw [← split, wordsOf_nil, List.nil_append] at start
      calc wordsOf (front ++ back)
          _ = wordsOf (front ++ (glyph.bytes ++ ofGlyphs others)) := by
            rw [split, List.nil_append]
          _ = wordsOf front ++ wordsOf back := by
            rw [wordsOf_separated front _ parts, start]

/-- A text without white space and commas. -/
def IsJoined (text : Text) : Prop :=
  ∀ glyph ∈ text.glyphs, glyph.separates = false

theorem wordsOf_word {word : Text} (nonempty : word ≠ []) (joined : IsJoined word) :
    wordsOf word = [word] := by
  have absent : 44 ∉ word := by
    intro comma
    obtain ⟨front, back, rfl⟩ := List.append_of_mem comma
    have member : Glyph.ofByte 44 ∈ glyphs (front ++ 44 :: back) := by
      rw [glyphs_append_cons front back (by decide)]
      exact List.mem_append_right _ List.mem_cons_self
    exact absurd (joined _ member) (by decide)
  have inked : ∀ glyph ∈ word.glyphs, glyph.isBlank = false := by
    intro glyph member
    have both := joined glyph member
    rw [Glyph.separates, Bool.or_eq_false_iff] at both
    exact both.1
  have inhabited : word.glyphs ≠ [] := by
    intro empty
    apply nonempty
    rw [← ofGlyphs_glyphs word, empty]
    rfl
  have single : fieldGlyphs word.glyphs = [word.glyphs] := by
    have ended : ∀ glyph ∈ ([] : List Glyph).head?, glyph.isBlank = true := by
      intro glyph first
      cases first
    have run := fieldGlyphs_append inhabited inked ended
    rw [List.append_nil] at run
    rw [run, fieldGlyphs]
    rfl
  rw [wordsOf, uncommaed_of_not_mem absent, fields, single, List.map_singleton, ofGlyphs_glyphs]

/-! ### Replacing words in place -/

/-- What stands for a word; where no word stands, nothing does. -/
def renamed (rename : Text → Text) (word : Text) : Text :=
  if word = [] then [] else rename word

/-- Replaces every word of a text and keeps what stands between the words. -/
def replaceWords (rename : Text → Text) (text : Text) : Text :=
  fromGlyphs text.glyphs
where
  /-- The first word, which may be empty, ends with the first character that parts words. -/
  fromGlyphs (characters : List Glyph) : Text :=
    let word := ofGlyphs (characters.takeWhile fun glyph => !glyph.separates)
    match found : characters.dropWhile fun glyph => !glyph.separates with
    | [] => renamed rename word
    | glyph :: rest =>
        have : rest.length < characters.length := by
          have shorter := length_dropWhile_le (fun glyph : Glyph => !glyph.separates) characters
          rw [found, List.length_cons] at shorter
          omega
        renamed rename word ++ (glyph.bytes ++ fromGlyphs rest)
  termination_by characters.length

/-- How a text and the text with replaced words are built up, word by word. -/
inductive WordByWord (rename : Text → Text) : Text → Text → Prop where
  | last (word : Text) (joined : IsJoined word) : WordByWord rename word (renamed rename word)
  | next (word : Text) (glyph : Glyph) (rest result : Text) (joined : IsJoined word)
      (parts : glyph.Parts) (later : WordByWord rename rest result) :
      WordByWord rename (word ++ (glyph.bytes ++ rest))
        (renamed rename word ++ (glyph.bytes ++ result))

/-- The characters behind a character of a text are those of the text behind it. -/
theorem glyphs_ofGlyphs_suffix {text : Text} {front back : List Glyph}
    (split : text.glyphs = front ++ back) : glyphs (ofGlyphs back) = back := by
  induction text using glyphs.induct generalizing front with
  | case1 =>
      rw [glyphs] at split
      rw [(List.append_eq_nil_iff.mp split.symm).2, ofGlyphs, List.flatMap_nil, glyphs]
  | case2 lead rest ih =>
      cases front with
      | nil => rw [← List.nil_append back, ← split, ofGlyphs_glyphs]
      | cons glyph others =>
          rw [glyphs, List.cons_append] at split
          exact ih (List.cons.inj split).2

theorem fromGlyphs_eq (rename : Text → Text) (characters : List Glyph) :
    replaceWords.fromGlyphs rename characters =
      match characters.dropWhile fun glyph => !glyph.separates with
      | [] => renamed rename (ofGlyphs (characters.takeWhile fun glyph => !glyph.separates))
      | glyph :: rest =>
          renamed rename (ofGlyphs (characters.takeWhile fun glyph => !glyph.separates)) ++
            (glyph.bytes ++ replaceWords.fromGlyphs rename rest) := by
  rw [replaceWords.fromGlyphs]
  split
  · next found => rw [found]
  · next glyph rest found => simp only [found]

theorem wordByWord_replaceWords (rename : Text → Text) (text : Text) :
    WordByWord rename text (replaceWords rename text) := by
  unfold replaceWords
  generalize shape : text.glyphs = characters
  induction characters using replaceWords.fromGlyphs.induct generalizing text with
  | case1 characters none =>
      have all := List.dropWhile_eq_nil_iff.mp none
      have joined : IsJoined text := by
        intro glyph member
        simpa using all glyph (shape ▸ member)
      have whole : ofGlyphs (characters.takeWhile fun glyph => !glyph.separates) = text := by
        rw [List.takeWhile_eq_self_iff.mpr all, ← shape, ofGlyphs_glyphs]
      rw [fromGlyphs_eq, none, whole]
      exact .last text joined
  | case2 characters glyph rest found _ ih =>
      obtain ⟨run, taken⟩ : ∃ run, (characters.takeWhile fun glyph => !glyph.separates) = run :=
        ⟨_, rfl⟩
      have split : text.glyphs = run ++ glyph :: rest := by
        rw [shape, ← taken, ← found, List.takeWhile_append_dropWhile]
      have separates : glyph.separates = true := by
        have stopped := List.head?_dropWhile_not (fun glyph : Glyph => !glyph.separates) characters
        rw [found] at stopped
        simpa using stopped
      have member : glyph ∈ text.glyphs := by
        rw [split]
        exact List.mem_append_right _ List.mem_cons_self
      have parts := Glyph.parts_of_separates member separates
      have parted : text = ofGlyphs run ++ (glyph.bytes ++ ofGlyphs rest) := by
        rw [← ofGlyphs_glyphs text, split, ofGlyphs_append]
        rfl
      have later : glyphs (ofGlyphs rest) = rest := by
        have suffix : text.glyphs = (run ++ [glyph]) ++ rest := by
          rw [split, List.append_assoc, List.singleton_append]
        exact glyphs_ofGlyphs_suffix suffix
      -- What parts the words is whole, so the word before it is read alone as it is read here.
      have first : glyphs (ofGlyphs run) = run := by
        have both := glyphs_whole (ofGlyphs run) (ofGlyphs rest) parts.whole
        rw [← parted, split, later] at both
        exact (List.append_cancel_right both).symm
      have joined : IsJoined (ofGlyphs run) := by
        intro other inside
        rw [first, ← taken] at inside
        simpa using List.mem_takeWhile_imp inside
      rw [fromGlyphs_eq, found, taken]
      rw [parted]
      exact .next _ glyph _ _ joined parts (ih _ later)

section WordByWord

variable {rename : Text → Text} {text result : Text}

theorem wordsOf_of_isJoined {word : Text} (joined : IsJoined word) :
    wordsOf word = if word = [] then [] else [word] := by
  split
  · next empty => rw [empty, wordsOf_nil]
  · next nonempty => exact wordsOf_word nonempty joined

theorem isJoined_of_mem_wordsOf {word : Text} (member : word ∈ wordsOf text) :
    word ≠ [] ∧ IsJoined word := by
  have own : ∀ {part : Text}, IsJoined part → word ∈ wordsOf part → word ≠ [] ∧ IsJoined word := by
    intro part joined inside
    rw [wordsOf_of_isJoined joined] at inside
    split at inside
    · cases inside
    · next nonempty =>
      rw [List.mem_singleton.mp inside]
      exact ⟨nonempty, joined⟩
  have layout := wordByWord_replaceWords id text
  generalize replaceWords id text = result at layout
  induction layout with
  | last part joined => exact own joined member
  | next part glyph rest result joined parts _ ih =>
      rw [wordsOf_separated part rest parts, List.mem_append] at member
      rcases member with here | later
      · exact own joined here
      · exact ih later

theorem WordByWord.wordsOf_eq (layout : WordByWord rename text result)
    (images : ∀ word ∈ wordsOf text, rename word ≠ [] ∧ IsJoined (rename word)) :
    wordsOf result = (wordsOf text).map rename := by
  have own : ∀ {part : Text}, IsJoined part →
      (∀ word ∈ wordsOf part, rename word ≠ [] ∧ IsJoined (rename word)) →
        wordsOf (renamed rename part) = (wordsOf part).map rename := by
    intro part joined good
    rw [wordsOf_of_isJoined joined] at good ⊢
    unfold renamed
    split
    · exact wordsOf_nil
    · next nonempty =>
      rw [if_neg nonempty] at good
      obtain ⟨nonempty, whole⟩ := good part List.mem_cons_self
      exact wordsOf_word nonempty whole
  induction layout with
  | last part joined => exact own joined images
  | next part glyph rest result joined parts _ ih =>
      rw [wordsOf_separated part rest parts] at images ⊢
      rw [wordsOf_separated _ result parts, List.map_append,
        own joined fun word member => images word (List.mem_append_left _ member),
        ih fun word member => images word (List.mem_append_right _ member)]

/-- What holds of a text with parted words exactly if it holds of the parts is kept when words are
replaced by words of which it holds. -/
theorem WordByWord.kept (layout : WordByWord rename text result) (holds : Text → Prop)
    (partwise : ∀ (front : Text) (glyph : Glyph) (back : Text), glyph.Parts →
      (holds (front ++ (glyph.bytes ++ back)) ↔ holds front ∧ holds back))
    (images : ∀ word ∈ wordsOf text, holds word → holds (rename word)) (whole : holds text) :
    holds result := by
  have own : ∀ {part : Text}, IsJoined part →
      (∀ word ∈ wordsOf part, holds word → holds (rename word)) → holds part →
        holds (renamed rename part) := by
    intro part joined good here
    rw [wordsOf_of_isJoined joined] at good
    unfold renamed
    split
    · next empty =>
      rw [empty] at here
      exact here
    · next nonempty =>
      rw [if_neg nonempty] at good
      exact good part List.mem_cons_self here
  induction layout with
  | last part joined => exact own joined images whole
  | next part glyph rest result joined parts _ ih =>
      rw [wordsOf_separated part rest parts] at images
      obtain ⟨here, later⟩ := (partwise part glyph rest parts).mp whole
      apply (partwise _ glyph result parts).mpr
      constructor
      · exact own joined (fun word member => images word (List.mem_append_left _ member)) here
      · exact ih (fun word member => images word (List.mem_append_right _ member)) later

end WordByWord

end Text

end Nibble
