import Mathlib.Data.List.Basic
import Mathlib.Data.List.Forall2
import Nibble.Program.Basic

set_option autoImplicit false

/-! Elements handed over one at a time. Sequences that are handed over one after the other are one
long sequence to every consumer, whatever it keeps and whenever it stops: it gets the elements in
their order up to and including the first one that it refuses, and nothing behind that one, be it in
the same sequence or in a later one. The words of a program are handed over in this way too. -/

namespace Nibble

namespace Consumer

variable {α σ : Type}

/-- The state after some elements, whatever the consumer answered to them. -/
def after (consume : Consumer α σ) (state : σ) (elements : List α) : σ :=
  elements.foldl (fun current element => (consume current element).1) state

/-- Whether the consumer goes on from an element that it is handed behind others. -/
def accepts (consume : Consumer α σ) (state : σ) (earlier : List α) (element : α) : Bool :=
  (consume (consume.after state earlier) element).2

def AcceptsAll (consume : Consumer α σ) (state : σ) (elements : List α) : Prop :=
  ∀ earlier element later, elements = earlier ++ element :: later →
    consume.accepts state earlier element = true

/-- What a consumer has to be handed of a sequence, and whether it goes on from all of it. -/
inductive Takes (consume : Consumer α σ) (state : σ) (elements : List α) :
    List α → Bool → Prop where
  | all (accepted : consume.AcceptsAll state elements) : Takes consume state elements elements true
  | upTo (earlier : List α) (refused : α) (later : List α)
      (split : elements = earlier ++ refused :: later)
      (accepted : consume.AcceptsAll state earlier)
      (stops : consume.accepts state earlier refused = false) :
      Takes consume state elements (earlier ++ [refused]) false

/-- The same consumer with a record of everything that it is handed. -/
def recording (consume : Consumer α σ) : Consumer α (σ × List α) := fun state element =>
  let next := consume state.1 element
  ((next.1, state.2 ++ [element]), next.2)

/-! ### One element more -/

theorem after_concat (consume : Consumer α σ) (state : σ) (earlier : List α) (element : α) :
    consume.after state (earlier ++ [element]) =
      (consume (consume.after state earlier) element).1 := by
  rw [after, List.foldl_concat]
  rfl

theorem acceptsAll_nil (consume : Consumer α σ) (state : σ) : consume.AcceptsAll state [] := by
  intro earlier element later split
  have longer : earlier ++ element :: later ≠ [] :=
    List.append_ne_nil_of_right_ne_nil _ (List.cons_ne_nil _ _)
  exact absurd split.symm longer

theorem acceptsAll_cons_iff {consume : Consumer α σ} {state : σ} {element : α} {rest : List α} :
    consume.AcceptsAll state (element :: rest) ↔
      (consume state element).2 = true ∧ consume.AcceptsAll (consume state element).1 rest := by
  constructor
  · intro accepted
    refine ⟨accepted [] element rest rfl, ?_⟩
    intro earlier next later split
    exact accepted (element :: earlier) next later (by rw [split, List.cons_append])
  · intro both earlier next later split
    cases earlier with
    | nil =>
        obtain ⟨rfl, rfl⟩ := List.cons.inj split
        exact both.1
    | cons head tail =>
        obtain ⟨rfl, behind⟩ := List.cons.inj split
        exact both.2 tail next later behind

theorem Takes.cons_accepted {consume : Consumer α σ} {state : σ} {element : α}
    {rest handed : List α} {complete : Bool} (goes : (consume state element).2 = true)
    (taken : consume.Takes (consume state element).1 rest handed complete) :
    consume.Takes state (element :: rest) (element :: handed) complete := by
  cases taken with
  | all accepted => exact .all (acceptsAll_cons_iff.mpr ⟨goes, accepted⟩)
  | upTo earlier refused later split accepted stops =>
      refine .upTo (element :: earlier) refused later ?_ ?_ stops
      · rw [split, List.cons_append]
      · exact acceptsAll_cons_iff.mpr ⟨goes, accepted⟩

theorem Takes.cons_refused {consume : Consumer α σ} {state : σ} {element : α}
    (stops : (consume state element).2 = false) (rest : List α) :
    consume.Takes state (element :: rest) [element] false :=
  .upTo [] element rest rfl (consume.acceptsAll_nil state) stops

theorem exists_takes (consume : Consumer α σ) (state : σ) (elements : List α) :
    ∃ handed complete, consume.Takes state elements handed complete := by
  induction elements generalizing state with
  | nil => exact ⟨[], true, .all (consume.acceptsAll_nil state)⟩
  | cons element rest ih =>
      cases answer : (consume state element).2 with
      | true =>
          obtain ⟨handed, complete, taken⟩ := ih (consume state element).1
          exact ⟨element :: handed, complete, taken.cons_accepted answer⟩
      | false => exact ⟨[element], false, .cons_refused answer rest⟩

/-! ### Records -/

theorem after_recording (consume : Consumer α σ) (state : σ) (record elements : List α) :
    consume.recording.after (state, record) elements =
      (consume.after state elements, record ++ elements) := by
  unfold after
  induction elements generalizing state record with
  | nil =>
      rw [List.append_nil]
      rfl
  | cons element rest ih =>
      rw [List.foldl_cons, List.foldl_cons, recording, ih, List.append_assoc]
      rfl

theorem accepts_recording (consume : Consumer α σ) (state : σ) (record earlier : List α)
    (element : α) :
    consume.recording.accepts (state, record) earlier element =
      consume.accepts state earlier element := by
  rw [accepts, after_recording]
  rfl

theorem AcceptsAll.recording {consume : Consumer α σ} {state : σ} {elements : List α}
    (accepted : consume.AcceptsAll state elements) (record : List α) :
    consume.recording.AcceptsAll (state, record) elements := by
  intro earlier element later split
  rw [accepts_recording]
  exact accepted earlier element later split

/-- Keeping a record changes nothing of what a consumer is handed. -/
theorem Takes.recording {consume : Consumer α σ} {state : σ} {elements handed : List α}
    {complete : Bool} (taken : consume.Takes state elements handed complete) (record : List α) :
    consume.recording.Takes (state, record) elements handed complete := by
  cases taken with
  | all accepted => exact .all (accepted.recording record)
  | upTo earlier refused later split accepted stops =>
      refine .upTo earlier refused later split (accepted.recording record) ?_
      rw [accepts_recording]
      exact stops

end Consumer

/-! ### The contract -/

/-- Every consumer, from every state on, is handed the elements of the sequence in order, all of
them or those up to and including the first that it refuses. A record of them holds nothing else. -/
def Iteration.Obeys {α : Type} (iterate : Iteration α) (elements : List α) : Prop :=
  ∀ (σ : Type) (consume : Consumer α σ) (state : σ), ∃ handed complete,
    consume.Takes state elements handed complete ∧
      iterate σ consume state = (consume.after state handed, complete) ∧
      iterate (σ × List α) consume.recording (state, []) =
        ((consume.after state handed, handed), complete)

namespace Sequence

variable {α σ : Type}

theorem feed_cons (consume : Consumer α σ) (state : σ) (element : α) (rest : List α) :
    feed consume state (element :: rest) =
      if (consume state element).2 then feed consume (consume state element).1 rest
      else consume state element := by
  rw [feed]
  rcases consume state element with ⟨last, _ | _⟩
  · rfl
  · rfl

/-- The second part is looked at only if the first is handed over without a refusal. -/
theorem feed_append (consume : Consumer α σ) (state : σ) (front back : List α) :
    feed consume state (front ++ back) =
      if (feed consume state front).2 then feed consume (feed consume state front).1 back
      else feed consume state front := by
  induction front generalizing state with
  | nil => rfl
  | cons element rest ih =>
      rw [List.cons_append, feed_cons, feed_cons]
      by_cases goes : (consume state element).2 = true
      · rw [if_pos goes, if_pos goes, ih]
      · rw [if_neg goes, if_neg goes, if_neg goes]

theorem feed_of_acceptsAll {consume : Consumer α σ} {state : σ} {elements : List α}
    (accepted : consume.AcceptsAll state elements) :
    feed consume state elements = (consume.after state elements, true) := by
  induction elements generalizing state with
  | nil => rfl
  | cons element rest ih =>
      obtain ⟨first, others⟩ := Consumer.acceptsAll_cons_iff.mp accepted
      rw [feed_cons, if_pos first, ih others]
      rfl

theorem feed_of_takes {consume : Consumer α σ} {state : σ} {elements handed : List α}
    {complete : Bool} (taken : consume.Takes state elements handed complete) :
    feed consume state elements = (consume.after state handed, complete) := by
  cases taken with
  | all accepted => exact feed_of_acceptsAll accepted
  | upTo earlier refused later split accepted stops =>
      have refusal : ¬ (consume (consume.after state earlier) refused).2 = true :=
        Bool.eq_false_iff.mp stops
      rw [split, feed_append, feed_of_acceptsAll accepted, if_pos rfl, feed_cons, if_neg refusal,
        Consumer.after_concat]
      exact Prod.ext rfl stops

theorem obeys_feed (elements : List α) :
    Iteration.Obeys (fun _ consume state => feed consume state elements) elements := by
  intro σ consume state
  obtain ⟨handed, complete, taken⟩ := consume.exists_takes state elements
  refine ⟨handed, complete, taken, feed_of_takes taken, ?_⟩
  show feed consume.recording (state, []) elements = _
  rw [feed_of_takes (taken.recording []), Consumer.after_recording, List.nil_append]

end Sequence

/-! ### One iteration after the other -/

namespace Iteration

variable {α : Type}

/-- The contract leaves an iteration no choice. -/
theorem Obeys.eq_feed {iterate : Iteration α} {elements : List α} (obeys : iterate.Obeys elements) :
    iterate = fun _ consume state => Sequence.feed consume state elements := by
  funext σ consume state
  obtain ⟨handed, complete, taken, result, _recorded⟩ := obeys σ consume state
  rw [result, Sequence.feed_of_takes taken]

/-- A stop ends the iteration that it happens in and the loop over the iterations with it. -/
theorem obeys_chain {iterations : List (Iteration α)} {sequences : List (List α)}
    (obey : List.Forall₂ Obeys iterations sequences) :
    (chain iterations).Obeys sequences.flatten := by
  have handed : chain iterations =
      fun _ consume state => Sequence.feed consume state sequences.flatten := by
    induction obey with
    | nil => rfl
    | @cons iterate sequence _ others obeys _ ih =>
        funext σ consume state
        rw [chain, obeys.eq_feed, ih, List.flatten_cons, Sequence.feed_append]
        dsimp only
        rcases Sequence.feed consume state sequence with ⟨last, _ | _⟩
        · rfl
        · rfl
  rw [handed]
  exact Sequence.obeys_feed sequences.flatten

end Iteration

theorem Sequence.obeys_feedEach {α : Type} (sequences : List (List α)) :
    Iteration.Obeys (fun _ consume state => feedEach consume state sequences)
      sequences.flatten := by
  apply Iteration.obeys_chain
  rw [List.forall₂_map_left_iff, List.forall₂_same]
  intro sequence _present
  exact obeys_feed sequence

/-! ### Maps -/

section Maps

open Std (HashMap)

variable {κ ν : Type}

/-- The value that stands with a key for the last time. -/
def Sequence.IsLast (pairs : List (κ × ν)) (key : κ) (value : ν) : Prop :=
  ∃ before after, pairs = before ++ (key, value) :: after ∧ ∀ pair ∈ after, pair.1 ≠ key

theorem Sequence.not_isLast_nil {key : κ} {value : ν} : ¬ IsLast [] key value := by
  intro last
  obtain ⟨before, after, split, _absent⟩ := last
  exact List.append_ne_nil_of_right_ne_nil _ (List.cons_ne_nil _ _) split.symm

theorem Sequence.isLast_cons_iff {first : κ × ν} {rest : List (κ × ν)} {key : κ} {value : ν} :
    IsLast (first :: rest) key value ↔
      IsLast rest key value ∨ first = (key, value) ∧ ∀ pair ∈ rest, pair.1 ≠ key := by
  constructor
  · intro last
    obtain ⟨before, after, split, absent⟩ := last
    cases before with
    | nil =>
        obtain ⟨rfl, rfl⟩ := List.cons.inj split
        exact .inr ⟨rfl, absent⟩
    | cons head tail =>
        obtain ⟨rfl, behind⟩ := List.cons.inj split
        exact .inl ⟨tail, after, behind, absent⟩
  · intro either
    rcases either with ⟨before, after, split, absent⟩ | ⟨same, absent⟩
    · exact ⟨first :: before, after, by rw [split, List.cons_append], absent⟩
    · exact ⟨[], rest, by rw [same, List.nil_append], absent⟩

variable [DecidableEq κ] [Hashable κ]

/-- Writes every pair into a map, and never stops. -/
def Consumer.filling : Consumer (κ × ν) (HashMap κ ν) := fun map pair =>
  (map.insert pair.1 pair.2, true)

theorem Consumer.getElem?_after_filling (initial : HashMap κ ν) (pairs : List (κ × ν)) (key : κ)
    (value : ν) :
    (filling.after initial pairs)[key]? = some value ↔
      Sequence.IsLast pairs key value ∨
        (∀ pair ∈ pairs, pair.1 ≠ key) ∧ initial[key]? = some value := by
  induction pairs generalizing initial with
  | nil =>
      constructor
      · intro found
        exact .inr ⟨List.forall_mem_nil _, found⟩
      · intro either
        rcases either with last | ⟨_absent, found⟩
        · exact absurd last Sequence.not_isLast_nil
        · exact found
  | cons first rest ih =>
      show (filling.after (initial.insert first.1 first.2) rest)[key]? = some value ↔ _
      rw [ih, HashMap.getElem?_insert, Sequence.isLast_cons_iff, List.forall_mem_cons, or_assoc]
      -- Where the key does not come back, the first pair decides.
      refine or_congr_right ?_
      by_cases same : first.1 = key
      · rw [if_pos (beq_iff_eq.mpr same)]
        constructor
        · intro kept
          exact .inl ⟨Prod.ext same (Option.some.inj kept.2), kept.1⟩
        · intro either
          rcases either with ⟨rfl, absent⟩ | older
          · exact ⟨absent, rfl⟩
          · exact absurd same older.1.1
      · rw [if_neg (mt beq_iff_eq.mp same)]
        constructor
        · intro kept
          exact .inr ⟨⟨same, kept.1⟩, kept.2⟩
        · intro either
          rcases either with ⟨rfl, _absent⟩ | older
          · exact absurd rfl same
          · exact ⟨older.1.2, older.2⟩

/-- A map that an iteration fills, whatever it holds before, gets the last value for every key of
the pairs and keeps its other entries. -/
def Iteration.Fills (iterate : Iteration (κ × ν)) (pairs : List (κ × ν)) : Prop :=
  ∀ initial : HashMap κ ν, ∃ filled, iterate _ Consumer.filling initial = (filled, true) ∧
    ∀ key value, filled[key]? = some value ↔
      Sequence.IsLast pairs key value ∨
        (∀ pair ∈ pairs, pair.1 ≠ key) ∧ initial[key]? = some value

theorem Iteration.Obeys.fills {iterate : Iteration (κ × ν)} {pairs : List (κ × ν)}
    (obeys : iterate.Obeys pairs) : iterate.Fills pairs := by
  intro initial
  obtain ⟨handed, complete, taken, result, _recorded⟩ := obeys _ Consumer.filling initial
  cases taken with
  | all accepted => exact ⟨_, result, Consumer.getElem?_after_filling initial pairs⟩
  | upTo earlier refused later split accepted stops => cases stops

end Maps

/-! ### The words of a program -/

/-- The address of a word, by arithmetic on sixty-four bits of which sixteen are kept. -/
def Statement.addressAt (statement : Statement) (index : Nat) : UInt16 :=
  (Int64.ofInt statement.address + 2 * Int64.ofNat index).toUInt64.toUInt16

theorem Statement.addressAt_eq (statement : Statement) (index : Nat) :
    statement.addressAt index = truncate (statement.address + 2 * index) := by
  have sum : Int64.ofInt statement.address + 2 * Int64.ofNat index =
      Int64.ofInt (statement.address + 2 * index) := by
    rw [Int64.ofInt_add, Int64.ofInt_mul]
    rfl
  apply UInt16.toNat_inj.mp
  rw [addressAt, sum, truncate, UInt64.toNat_toUInt16, UInt16.toNat_ofNat',
    ← UInt64.toNat_toBitVec, Int64.toBitVec_toUInt64, Int64.toBitVec_ofInt, BitVec.toNat_ofInt]
  omega

theorem Statement.placed_eq (statement : Statement) :
    statement.placed =
      statement.codes.mapIdx fun index word => (statement.addressAt index, word) := by
  rw [placed, List.mapIdx_eq_zipIdx_map]
  simp only [addressAt_eq]

theorem Program.obeys_feedCodes (program : Program) :
    Iteration.Obeys (fun _ consume state => program.feedCodes consume state)
      (program.statements.flatMap fun statement =>
        statement.codes.mapIdx fun index word => (statement.addressAt index, word)) := by
  simp only [← Statement.placed_eq, List.flatMap_def]
  exact Sequence.obeys_feedEach (program.statements.map Statement.placed)

/-- Iterations keep their contract. To every consumer, in any state and with any decision when to
stop, iterations that keep it are chained to one over their concatenation, and so are sequences; the
words of a program are handed over as the words of its statements one after the other, each with
sixteen bits of its address: up to and including the first element that the consumer refuses, and
nothing behind it. A map that is filled with pairs, which stops nothing, has for every key the last
value that stands with it, and keeps its other entries. -/
theorem Sequence.feeding_obeys_contract {κ ν : Type} {iterations : List (Iteration (κ × ν))}
    {sequences : List (List (κ × ν))}
    (obey : List.Forall₂ Iteration.Obeys iterations sequences) (program : Program) :
    (Iteration.chain iterations).Obeys sequences.flatten ∧
      Iteration.Obeys (fun _ consume state => feedEach consume state sequences)
        sequences.flatten ∧
      (∀ [DecidableEq κ] [Hashable κ],
        (Iteration.chain iterations).Fills sequences.flatten ∧
          Iteration.Fills (fun _ consume state => feedEach consume state sequences)
            sequences.flatten) ∧
      Iteration.Obeys (fun _ consume state => program.feedCodes consume state)
        (program.statements.flatMap fun statement =>
          statement.codes.mapIdx fun index word => (statement.addressAt index, word)) := by
  have chained := Iteration.obeys_chain obey
  have listed := obeys_feedEach sequences
  refine ⟨chained, listed, ?_, program.obeys_feedCodes⟩
  intro _ _
  exact ⟨chained.fills, listed.fills⟩

/-- A pair, the words of a program, of which the second wraps around to the key of the pair, and an
empty sequence. -/
theorem Sequence.feeding_obeys_contract_around_program :
    let program : Program := ⟨[⟨1, 0xFFFF, [], [0x6001, 0x7002], none⟩]⟩
    let iterations : List (Iteration (UInt16 × Word)) :=
      [fun _ consume state => feed consume state [(1, 0x1234)],
        fun _ consume state => program.feedCodes consume state,
        fun _ consume state => feed consume state []]
    (Iteration.chain iterations).Obeys [(1, 0x1234), (0xFFFF, 0x6001), (1, 0x7002)] ∧
      (Iteration.chain iterations).Fills [(1, 0x1234), (0xFFFF, 0x6001), (1, 0x7002)] := by
  intro program iterations
  have obey : List.Forall₂ Iteration.Obeys iterations
      [[(1, 0x1234)], [(0xFFFF, 0x6001), (1, 0x7002)], []] :=
    .cons (obeys_feed _) (.cons program.obeys_feedCodes (.cons (obeys_feed _) .nil))
  obtain ⟨chained, _listed, fills, _words⟩ := feeding_obeys_contract obey program
  exact ⟨chained, fills.1⟩

-- The last element of a sequence is refused, between empty ones.
example :
    Sequence.feedEach (Consumer.recording fun count element => (count + 1, element != 2)) (0, [])
      [[], [1, 2], [], [3]] = ((2, [1, 2]), false) := by
  decide

end Nibble
