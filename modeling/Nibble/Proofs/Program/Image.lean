import Nibble.Program.Basic

set_option autoImplicit false

/-! The memory image of a program. The byte of an image at an address is that of the last word
which covers the address, and zero where there is none. Where the statements of a program stand one
behind the other inside memory, no two words cover one address, so the image holds every word at
its own address and nothing else. -/

namespace Nibble

/-- Statements in ascending order without overlap, none of them empty, between the beginning of
memory and a bound. -/
structure LaidOut (bound : Int) (statements : List Statement) : Prop where
  nonempty : ∀ statement ∈ statements, statement.codes ≠ []
  inside : ∀ statement ∈ statements, 0 ≤ statement.address ∧ statement.limit ≤ bound
  ascending : statements.Pairwise fun earlier later => earlier.limit ≤ later.address

namespace Statement

theorem limit_eq (statement : Statement) :
    statement.limit = statement.address + 2 * statement.codes.length := rfl

theorem toNat_truncate {address : Int} (low : 0 ≤ address) (high : address < 65536) :
    ((truncate address).toNat : Int) = address := by
  unfold truncate
  rw [UInt16.toNat_ofNat', Nat.mod_eq_of_lt (by omega)]
  omega

theorem mem_placed_iff {statement : Statement} {placed : PlacedWord} :
    placed ∈ statement.placed ↔
      ∃ (index : Nat) (code : Word), statement.codes[index]? = some code ∧
        placed = (truncate (statement.address + 2 * index), code) := by
  unfold Statement.placed
  rw [List.mem_map]
  constructor
  · rintro ⟨⟨code, index⟩, member, rfl⟩
    exact ⟨index, code, List.mk_mem_zipIdx_iff_getElem?.mp member, rfl⟩
  · rintro ⟨index, code, found, rfl⟩
    exact ⟨(code, index), List.mk_mem_zipIdx_iff_getElem?.mpr found, rfl⟩

end Statement

namespace Program

theorem mem_codes_iff {program : Program} {placed : PlacedWord} :
    placed ∈ program.codes ↔
      ∃ statement ∈ program.statements, ∃ (index : Nat) (code : Word),
        statement.codes[index]? = some code ∧
        placed = (Statement.truncate (statement.address + 2 * index), code) := by
  unfold Program.codes
  rw [List.mem_flatMap]
  simp only [Statement.mem_placed_iff]

/-! ### The bytes of an image -/

/-- The byte at an address, from the last of the words that cover it. -/
def byteAt (codes : List PlacedWord) (address : Nat) (fallback : UInt8) : UInt8 :=
  codes.foldl
    (fun current placed =>
      if address = placed.1.toNat then placed.2.high
      else if address = placed.1.toNat + 1 then placed.2.low
      else current)
    fallback

theorem byteAt_cons (placed : PlacedWord) (rest : List PlacedWord) (address : Nat)
    (fallback : UInt8) :
    byteAt (placed :: rest) address fallback =
      byteAt rest address
        (if address = placed.1.toNat then placed.2.high
          else if address = placed.1.toNat + 1 then placed.2.low else fallback) := rfl

theorem size_writeWord (bytes : Array UInt8) (offset : Nat) (word : Word) :
    (writeWord bytes offset word).size = bytes.size := by
  simp only [writeWord, Array.size_setIfInBounds]

theorem getElem?_writeWord (bytes : Array UInt8) (offset index : Nat) (word : Word)
    (inside : index < bytes.size) :
    (writeWord bytes offset word)[index]? =
      if index = offset then some word.high
      else if index = offset + 1 then some word.low
      else bytes[index]? := by
  simp only [writeWord, Array.getElem?_setIfInBounds, Array.size_setIfInBounds]
  split
  · next second =>
    subst second
    rw [if_pos inside, if_neg (by omega), if_pos rfl]
  · next second =>
    split
    · next first =>
      subst first
      rw [if_pos rfl, if_pos inside]
    · next first => rw [if_neg (Ne.symm first), if_neg (Ne.symm second)]

theorem getElem?_writeAll (codes : List PlacedWord) (low : Nat) (bytes : Array UInt8)
    (index : Nat) (byte : UInt8) (start : bytes[index]? = some byte)
    (above : ∀ placed ∈ codes, low ≤ placed.1.toNat) :
    (codes.foldl (fun bytes placed => writeWord bytes (placed.1.toNat - low) placed.2) bytes)[index]?
      = some (byteAt codes (low + index) byte) := by
  induction codes generalizing bytes byte with
  | nil => exact start
  | cons placed rest ih =>
      have inside : index < bytes.size := (Array.getElem?_eq_some_iff.mp start).1
      have bottom : low ≤ placed.1.toNat := above placed List.mem_cons_self
      simp only [List.foldl_cons, byteAt]
      refine ih _ _ ?_ fun later member => above later (List.mem_cons_of_mem _ member)
      rw [getElem?_writeWord _ _ _ _ inside, start]
      by_cases first : low + index = placed.1.toNat
      · rw [if_pos (by omega), if_pos first]
      · rw [if_neg (by omega), if_neg first]
        by_cases second : low + index = placed.1.toNat + 1
        · rw [if_pos (by omega), if_pos second]
        · rw [if_neg (by omega), if_neg second]

theorem size_writeAll (codes : List PlacedWord) (low : Nat) (bytes : Array UInt8) :
    (codes.foldl (fun bytes placed => writeWord bytes (placed.1.toNat - low) placed.2) bytes).size
      = bytes.size := by
  induction codes generalizing bytes with
  | nil => rfl
  | cons placed rest ih =>
      rw [List.foldl_cons, ih, size_writeWord]

/-- One value at an address: some word covers it, and every word that does has this value there. -/
theorem byteAt_eq {codes : List PlacedWord} {address : Nat} {value fallback : UInt8}
    (high : ∀ placed ∈ codes, address = placed.1.toNat → placed.2.high = value)
    (low : ∀ placed ∈ codes, address = placed.1.toNat + 1 → placed.2.low = value)
    (covered : fallback = value ∨
      ∃ placed ∈ codes, address = placed.1.toNat ∨ address = placed.1.toNat + 1) :
    byteAt codes address fallback = value := by
  induction codes generalizing fallback with
  | nil =>
      rcases covered with same | ⟨_, member, _⟩
      · exact same
      · cases member
  | cons placed rest ih =>
      have later := fun fallback covered =>
        @ih fallback (fun other member => high other (List.mem_cons_of_mem _ member))
          (fun other member => low other (List.mem_cons_of_mem _ member)) covered
      simp only [byteAt, List.foldl_cons]
      -- Once the value is reached, the later words that cover the address keep it.
      by_cases first : address = placed.1.toNat
      · rw [if_pos first]
        exact later _ (.inl (high placed List.mem_cons_self first))
      · rw [if_neg first]
        by_cases second : address = placed.1.toNat + 1
        · rw [if_pos second]
          exact later _ (.inl (low placed List.mem_cons_self second))
        · rw [if_neg second]
          refine later _ ?_
          rcases covered with same | ⟨other, member, place⟩
          · exact .inl same
          · rcases List.mem_cons.mp member with rfl | inRest
            · omega
            · exact .inr ⟨other, inRest, place⟩

end Program

/-! ### Statements one behind the other -/

namespace LaidOut

variable {bound : Int} {statements : List Statement}

theorem apart (laid : LaidOut bound statements) {one other : Statement}
    (present : one ∈ statements) (otherPresent : other ∈ statements) :
    one = other ∨ one.limit ≤ other.address ∨ other.limit ≤ one.address := by
  have symmetric := laid.ascending
  induction statements with
  | nil => cases present
  | cons first rest ih =>
      obtain ⟨behind, ascending⟩ := List.pairwise_cons.mp symmetric
      rcases List.mem_cons.mp present with rfl | inRest
      · rcases List.mem_cons.mp otherPresent with rfl | otherInRest
        · exact .inl rfl
        · exact .inr (.inl (behind other otherInRest))
      · rcases List.mem_cons.mp otherPresent with rfl | otherInRest
        · exact .inr (.inr (behind one inRest))
        · exact ih
            ⟨fun statement member => laid.nonempty statement (List.mem_cons_of_mem _ member),
              fun statement member => laid.inside statement (List.mem_cons_of_mem _ member),
              ascending⟩ inRest otherInRest ascending

theorem address_lt_limit (laid : LaidOut bound statements) {statement : Statement}
    (present : statement ∈ statements) : statement.address < statement.limit := by
  have positive := List.length_pos_iff.mpr (laid.nonempty statement present)
  rw [Statement.limit_eq]
  omega

/-- Where the words of the program stand: each at its place in its statement. -/
theorem placed_of_mem {program : Program} (laid : LaidOut 4096 program.statements)
    {placed : PlacedWord} (member : placed ∈ program.codes) :
    ∃ statement ∈ program.statements, ∃ index : Nat,
      statement.codes[index]? = some placed.2 ∧
      (placed.1.toNat : Int) = statement.address + 2 * index ∧
      (placed.1.toNat : Int) + 2 ≤ statement.limit := by
  obtain ⟨statement, present, index, code, found, rfl⟩ := Program.mem_codes_iff.mp member
  have within := (List.getElem?_eq_some_iff.mp found).1
  have inside := laid.inside statement present
  have ends := statement.limit_eq
  have place : ((Statement.truncate (statement.address + 2 * index)).toNat : Int) =
      statement.address + 2 * index := Statement.toNat_truncate (by omega) (by omega)
  exact ⟨statement, present, index, found, place, by rw [place]; omega⟩

theorem mem_codes {program : Program} (laid : LaidOut 4096 program.statements)
    {statement : Statement} (present : statement ∈ program.statements) {index : Nat} {code : Word}
    (found : statement.codes[index]? = some code) :
    ∃ placed ∈ program.codes, placed.2 = code ∧
      (placed.1.toNat : Int) = statement.address + 2 * index := by
  have within := (List.getElem?_eq_some_iff.mp found).1
  have inside := laid.inside statement present
  have ends := statement.limit_eq
  refine ⟨_, Program.mem_codes_iff.mpr ⟨statement, present, index, code, found, rfl⟩, rfl, ?_⟩
  exact Statement.toNat_truncate (by omega) (by omega)

/-- A word that shares a byte with a word of a statement is that word. -/
theorem placed_unique {program : Program} (laid : LaidOut 4096 program.statements)
    {statement : Statement} (present : statement ∈ program.statements) {index : Nat} {code : Word}
    (found : statement.codes[index]? = some code) {placed : PlacedWord}
    (member : placed ∈ program.codes)
    (above : statement.address + 2 * index < (placed.1.toNat : Int) + 2)
    (below : (placed.1.toNat : Int) < statement.address + 2 * index + 2) :
    placed.2 = code ∧ (placed.1.toNat : Int) = statement.address + 2 * index := by
  obtain ⟨other, otherPresent, otherIndex, otherFound, place, ends⟩ := laid.placed_of_mem member
  have within := (List.getElem?_eq_some_iff.mp found).1
  have limit := statement.limit_eq
  -- Words of two statements share no byte, and inside one statement a byte fixes the index.
  rcases laid.apart present otherPresent with rfl | before | after
  · have sameIndex : otherIndex = index := by omega
    subst sameIndex
    rw [found] at otherFound
    exact ⟨(Option.some.inj otherFound).symm, place⟩
  · omega
  · omega

theorem byteAt_code {program : Program} (laid : LaidOut 4096 program.statements)
    {statement : Statement} (present : statement ∈ program.statements) {index : Nat} {code : Word}
    (found : statement.codes[index]? = some code) (address : Nat)
    (place : (address : Int) = statement.address + 2 * index) :
    Program.byteAt program.codes address 0 = code.high ∧
      Program.byteAt program.codes (address + 1) 0 = code.low := by
  obtain ⟨placed, member, same, stands⟩ := laid.mem_codes present found
  constructor
  · apply Program.byteAt_eq
    · intro other otherMember covers
      rw [(laid.placed_unique present found otherMember (by omega) (by omega)).1]
    · intro other otherMember covers
      have stands := (laid.placed_unique present found otherMember (by omega) (by omega)).2
      omega
    · exact .inr ⟨placed, member, .inl (by omega)⟩
  · apply Program.byteAt_eq
    · intro other otherMember covers
      have stands := (laid.placed_unique present found otherMember (by omega) (by omega)).2
      omega
    · intro other otherMember covers
      rw [(laid.placed_unique present found otherMember (by omega) (by omega)).1]
    · exact .inr ⟨placed, member, .inr (by omega)⟩

theorem byteAt_gap {program : Program} (laid : LaidOut 4096 program.statements) {address : Nat}
    (gap : ∀ statement ∈ program.statements,
      ¬ (statement.address ≤ address ∧ address < statement.limit)) :
    Program.byteAt program.codes address 0 = 0 := by
  have outside : ∀ placed ∈ program.codes,
      address ≠ placed.1.toNat ∧ address ≠ placed.1.toNat + 1 := by
    intro placed member
    obtain ⟨statement, present, index, _, place, ends⟩ := laid.placed_of_mem member
    have apart := gap statement present
    omega
  exact Program.byteAt_eq (fun placed member covers => absurd covers (outside placed member).1)
    (fun placed member covers => absurd covers (outside placed member).2) (.inl rfl)

/-! ### The image of such statements -/

theorem address_le_first {first : Statement} {rest : List Statement}
    (laid : LaidOut bound (first :: rest)) {statement : Statement}
    (present : statement ∈ first :: rest) : first.address ≤ statement.address := by
  have size := laid.address_lt_limit (List.mem_cons_self : first ∈ first :: rest)
  rcases List.mem_cons.mp present with rfl | inRest
  · exact Int.le_refl _
  · have behind := (List.pairwise_cons.mp laid.ascending).1 statement inRest
    omega

theorem limit_le_last {init : List Statement} {last : Statement}
    (laid : LaidOut bound (init ++ [last])) {statement : Statement}
    (present : statement ∈ init ++ [last]) : statement.limit ≤ last.limit := by
  have size := laid.address_lt_limit (List.mem_append_right init (List.mem_singleton_self last))
  rcases List.mem_append.mp present with inInit | isLast
  · have behind := (List.pairwise_append.mp laid.ascending).2.2 statement inInit last
      (List.mem_singleton_self last)
    omega
  · have same := List.mem_singleton.mp isLast
    subst same
    exact Int.le_refl _

end LaidOut

namespace Program

/-! ### The range of a program -/

theorem high_le_iff (program : Program) (bound : Nat) :
    program.high ≤ bound ↔ ∀ placed ∈ program.codes, placed.1.toNat + 2 ≤ bound := by
  have general (codes : List PlacedWord) (start : Nat) :
      codes.foldl (fun greatest placed => max greatest (placed.1.toNat + 2)) start ≤ bound ↔
        start ≤ bound ∧ ∀ placed ∈ codes, placed.1.toNat + 2 ≤ bound := by
    induction codes generalizing start with
    | nil => simp
    | cons placed rest ih =>
        rw [List.foldl_cons, ih, Nat.max_le, List.forall_mem_cons, and_assoc]
  rw [high, general]
  exact and_iff_right (Nat.zero_le bound)

theorem le_low_iff (program : Program) (bound : Nat) :
    bound ≤ program.low ↔
      bound ≤ Memory.size ∧ ∀ placed ∈ program.codes, bound ≤ placed.1.toNat := by
  rw [low]
  generalize Memory.size = start
  induction program.codes generalizing start with
  | nil => simp
  | cons placed rest ih =>
      rw [List.foldl_cons, ih, Nat.le_min, List.forall_mem_cons, and_assoc]

theorem low_le {program : Program} {placed : PlacedWord} (member : placed ∈ program.codes) :
    program.low ≤ placed.1.toNat :=
  ((program.le_low_iff _).mp (Nat.le_refl _)).2 placed member

theorem le_high {program : Program} {placed : PlacedWord} (member : placed ∈ program.codes) :
    placed.1.toNat + 2 ≤ program.high :=
  (program.high_le_iff _).mp (Nat.le_refl _) placed member

theorem low_eq {program : Program} {least : Nat} (small : least ≤ Memory.size)
    (lower : ∀ placed ∈ program.codes, least ≤ placed.1.toNat)
    (attained : ∃ placed ∈ program.codes, placed.1.toNat = least) : program.low = least := by
  obtain ⟨placed, member, rfl⟩ := attained
  exact Nat.le_antisymm (low_le member) ((program.le_low_iff _).mpr ⟨small, lower⟩)

theorem high_eq {program : Program} {greatest : Nat}
    (upper : ∀ placed ∈ program.codes, placed.1.toNat + 2 ≤ greatest)
    (attained : ∃ placed ∈ program.codes, placed.1.toNat + 2 = greatest) :
    program.high = greatest := by
  obtain ⟨placed, member, rfl⟩ := attained
  exact Nat.le_antisymm ((program.high_le_iff _).mpr upper) (le_high member)

theorem low_lt_high {program : Program} (nonempty : program.high ≠ 0) :
    program.low < program.high := by
  by_cases order : program.high ≤ program.low
  · -- No word reaches below the end of the last one, so there is none.
    refine absurd (Nat.eq_zero_of_le_zero ((program.high_le_iff 0).mpr ?_)) nonempty
    intro placed member
    have low := low_le member
    have high := le_high member
    omega
  · exact Nat.lt_of_not_le order

theorem byteAt_outside {program : Program} {address : Nat}
    (outside : address < program.low ∨ program.high ≤ address) :
    byteAt program.codes address 0 = 0 := by
  refine byteAt_eq ?_ ?_ (.inl rfl)
  · intro placed member place
    have low := low_le member
    have high := le_high member
    omega
  · intro placed member place
    have low := low_le member
    have high := le_high member
    omega

/-- The image of a program with words that fit reaches from the least address to the greatest, and
its bytes are those of the words at their addresses. -/
theorem image_of_fits {program : Program} (nonempty : program.high ≠ 0)
    (fits : program.high ≤ Memory.size) :
    ∃ image, program.image = .ok image ∧ image.origin.toNat = program.low ∧
      image.bytes.length = program.high - program.low ∧
      ∀ index, index < image.bytes.length →
        image.bytes[index]? = some (byteAt program.codes (program.low + index) 0) := by
  have order := low_lt_high nonempty
  have small : program.low < 65536 := Nat.lt_of_lt_of_le order (Nat.le_trans fits (by decide))
  unfold Program.image
  rw [if_neg nonempty, if_neg (Nat.not_lt.mpr fits)]
  refine ⟨_, rfl, ?_, ?_, ?_⟩
  · rw [UInt16.toNat_ofNat', Nat.mod_eq_of_lt small]
  · rw [Array.length_toList, size_writeAll, Array.size_replicate]
  · intro index inside
    rw [Array.length_toList, size_writeAll, Array.size_replicate] at inside
    rw [Array.getElem?_toList]
    refine getElem?_writeAll _ _ _ _ _ ?_ fun placed member => low_le member
    rw [Array.getElem?_replicate, if_pos inside]

theorem image_of_large {program : Program} (large : Memory.size < program.high) :
    program.image = .error (.plain .programSize) := by
  unfold Program.image
  rw [if_neg (Nat.ne_of_gt (Nat.lt_of_le_of_lt (Nat.zero_le _) large)), if_pos large]

/-! ### Programs one behind the other -/

theorem low_of_laidOut {program : Program} (laid : LaidOut 4096 program.statements)
    {first : Statement} {rest : List Statement} (shape : program.statements = first :: rest) :
    program.low = first.address.toNat := by
  have present : first ∈ program.statements := by
    rw [shape]
    exact List.mem_cons_self
  have inside := laid.inside first present
  have size := laid.address_lt_limit present
  refine low_eq ?_ ?_ ?_
  · change first.address.toNat ≤ 4096
    omega
  · intro placed member
    obtain ⟨statement, among, index, _, place, _⟩ := laid.placed_of_mem member
    rw [shape] at laid among
    have order := laid.address_le_first among
    omega
  · obtain ⟨code, found⟩ : ∃ code, first.codes[0]? = some code :=
      ⟨_, List.getElem?_eq_getElem (List.length_pos_iff.mpr (laid.nonempty first present))⟩
    obtain ⟨placed, member, _, place⟩ := laid.mem_codes present found
    exact ⟨placed, member, by omega⟩

theorem high_of_laidOut {program : Program} (laid : LaidOut 4096 program.statements)
    {last : Statement} {init : List Statement} (shape : program.statements = init ++ [last]) :
    program.high = last.limit.toNat := by
  have present : last ∈ program.statements := by
    rw [shape]
    exact List.mem_append_right _ (List.mem_singleton_self _)
  have size := last.limit_eq
  refine high_eq ?_ ?_
  · intro placed member
    obtain ⟨statement, among, index, _, _, ends⟩ := laid.placed_of_mem member
    rw [shape] at laid among
    have order := laid.limit_le_last among
    omega
  · have positive := List.length_pos_iff.mpr (laid.nonempty last present)
    obtain ⟨code, found⟩ : ∃ code, last.codes[last.codes.length - 1]? = some code :=
      ⟨_, List.getElem?_eq_getElem (by omega)⟩
    obtain ⟨placed, member, _, place⟩ := laid.mem_codes present found
    exact ⟨placed, member, by omega⟩

/-- The image of statements one behind the other reaches from the first to the end of the last,
and its bytes are those of the words at their addresses. -/
theorem image_eq_ok {program : Program} (laid : LaidOut 4096 program.statements)
    {first last : Statement} (begins : program.statements.head? = some first)
    (ends : program.statements.getLast? = some last) :
    ∃ bytes, program.image = .ok ⟨Statement.truncate first.address, bytes⟩ ∧
      (bytes.length : Int) = last.limit - first.address ∧
      ∀ index, index < bytes.length →
        bytes[index]? = some (byteAt program.codes (first.address.toNat + index) 0) := by
  obtain ⟨rest, shape⟩ := List.head?_eq_some_iff.mp begins
  obtain ⟨init, ending⟩ := List.getLast?_eq_some_iff.mp ends
  have low := low_of_laidOut laid shape
  have high := high_of_laidOut laid ending
  have firstPresent : first ∈ program.statements := by rw [shape]; exact List.mem_cons_self
  have firstInside := laid.inside first firstPresent
  have firstSize := laid.address_lt_limit firstPresent
  have lastInside := laid.inside last (by rw [ending]; simp)
  have order : first.limit ≤ last.limit := by
    rw [ending] at laid firstPresent
    exact laid.limit_le_last firstPresent
  have fits : program.high ≤ 4096 := by omega
  obtain ⟨image, known, origin, length, content⟩ := image_of_fits (by omega) fits
  have place : image.origin = Statement.truncate first.address := by
    apply UInt16.toNat_inj.mp
    have stands := Statement.toNat_truncate firstInside.1 (by omega)
    omega
  refine ⟨image.bytes, ?_, by omega, ?_⟩
  · rw [known, ← place]
  · rw [← low]
    exact content

theorem entry_of_laidOut {program : Program} {bound : Int} (laid : LaidOut bound program.statements)
    {first : Statement} (begins : program.statements.head? = some first) :
    program.entry = Statement.truncate first.address := by
  obtain ⟨rest, shape⟩ := List.head?_eq_some_iff.mp begins
  have nonempty : first.codes ≠ [] := laid.nonempty first (by rw [shape]; exact List.mem_cons_self)
  unfold entry
  rw [shape, List.find?_cons_of_pos (by simpa using nonempty)]

theorem image_of_nil {program : Program} (empty : program.statements = []) :
    program.image = .ok ⟨0, []⟩ := by
  have codes : program.codes = [] := by
    unfold Program.codes
    rw [empty]
    rfl
  unfold image
  rw [if_pos (by unfold high; rw [codes]; rfl)]

/-- What the image of statements one behind the other shows of them. -/
structure Depicts (program : Program) (image : Image) : Prop where
  origin_eq_entry : image.origin = program.entry
  eq_empty : program.statements = [] → image = ⟨0, []⟩
  origin_eq_first : ∀ first, program.statements.head? = some first →
    (image.origin.toNat : Int) = first.address
  length_eq : ∀ last, program.statements.getLast? = some last →
    (image.bytes.length : Int) = last.limit - image.origin.toNat
  /-- Every word stands in two bytes at its address, the high one first. -/
  word_at : ∀ statement ∈ program.statements, ∀ (index : Nat) (code : Word),
    statement.codes[index]? = some code →
      ∃ offset : Nat, (offset : Int) = statement.address + 2 * index - image.origin.toNat ∧
        image.bytes[offset]? = some code.high ∧ image.bytes[offset + 1]? = some code.low
  /-- Where no statement stands there is a zero. -/
  zero_at : ∀ offset : Nat, offset < image.bytes.length →
    (∀ statement ∈ program.statements,
      ¬ (statement.address ≤ image.origin.toNat + offset ∧
        image.origin.toNat + offset < statement.limit)) →
    image.bytes[offset]? = some 0

theorem depicts_empty {program : Program} (empty : program.statements = []) :
    program.Depicts ⟨0, []⟩ where
  origin_eq_entry := by
    unfold entry
    rw [empty]
    rfl
  eq_empty := fun _ => rfl
  origin_eq_first := fun first begins => by rw [empty] at begins; cases begins
  length_eq := fun last ends => by rw [empty] at ends; cases ends
  word_at := fun statement present => by rw [empty] at present; cases present
  zero_at := fun offset inside => absurd inside (Nat.not_lt_zero _)

theorem exists_image_depicts {program : Program} (laid : LaidOut 4096 program.statements) :
    ∃ image, program.image = .ok image ∧ program.Depicts image := by
  cases shape : program.statements with
  | nil => exact ⟨_, image_of_nil shape, depicts_empty shape⟩
  | cons first rest =>
      have begins : program.statements.head? = some first := by rw [shape]; rfl
      obtain ⟨last, ends⟩ : ∃ last, program.statements.getLast? = some last :=
        ⟨_, List.getLast?_eq_some_getLast (by rw [shape]; exact List.cons_ne_nil _ _)⟩
      obtain ⟨bytes, known, length, content⟩ := image_eq_ok laid begins ends
      obtain ⟨init, ending⟩ := List.getLast?_eq_some_iff.mp ends
      have present : first ∈ program.statements := by rw [shape]; exact List.mem_cons_self
      have inside := laid.inside first present
      have size := laid.address_lt_limit present
      have origin := Statement.toNat_truncate inside.1 (by omega)
      refine ⟨_, known,
        { origin_eq_entry := (entry_of_laidOut laid begins).symm
          eq_empty := fun empty => absurd (shape.symm.trans empty) (List.cons_ne_nil _ _)
          origin_eq_first := ?_, length_eq := ?_, word_at := ?_, zero_at := ?_ }⟩
      · intro head found
        rw [begins] at found
        cases found
        exact origin
      · intro final found
        rw [ends] at found
        cases found
        rw [length, origin]
      · intro statement member index code found
        have within := (List.getElem?_eq_some_iff.mp found).1
        have limit := statement.limit_eq
        have least : first.address ≤ statement.address := by
          rw [shape] at laid member
          exact laid.address_le_first member
        have most : statement.limit ≤ last.limit := by
          rw [ending] at laid member
          exact laid.limit_le_last member
        obtain ⟨offset, place⟩ : ∃ offset : Nat,
            (offset : Int) = statement.address + 2 * index - first.address :=
          ⟨(statement.address + 2 * index - first.address).toNat, by omega⟩
        have bytesAt := laid.byteAt_code member found (first.address.toNat + offset) (by omega)
        refine ⟨offset, by rw [place, origin], ?_, ?_⟩
        · rw [content offset (by omega), bytesAt.1]
        · rw [content (offset + 1) (by omega), ← Nat.add_assoc, bytesAt.2]
      · intro offset within gap
        rw [content offset within]
        congr 1
        refine laid.byteAt_gap fun statement member => ?_
        have apart := gap statement member
        dsimp only at apart
        omega

end Program

end Nibble
