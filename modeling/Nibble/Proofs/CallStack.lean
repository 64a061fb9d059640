import Nibble.Proofs.Machine.Checked

set_option autoImplicit false

/-! The call stack as a list. Whatever it is asked for, in whatever order and from whatever slots
and pointer on, a stack answers like a list of at most sixteen addresses that grows and shrinks at
its end. The values that popped slots keep never show, and no slot is looked up that is not there.
-/

namespace Nibble

namespace CallStack

inductive Request where
  | push (address : UInt16)
  | pop
  | peek
  | reset
  | depth
deriving DecidableEq, Repr

/-- Whether an address was added; an address and whether there was one; nothing; all addresses. -/
inductive Answer where
  | added (accepted : Bool)
  | found (address : UInt16) (present : Bool)
  | done
  | held (addresses : List UInt16)
deriving DecidableEq, Repr

def Answer.ofAddress? : Option UInt16 → Answer
  | some address => .found address true
  | none => .found 0 false

def handle (stack : CallStack) : Request → CallStack × Answer
  | .push address =>
      match stack.push? address with
      | some pushed => (pushed, .added true)
      | none => (stack, .added false)
  | .pop =>
      match stack.pop? with
      | some (address, popped) => (popped, .found address true)
      | none => (stack, .found 0 false)
  | .peek => (stack, .ofAddress? stack.peek?)
  | .reset => (empty, .done)
  | .depth => (stack, .held stack.frames)

/-- What the same request does to a list with room for sixteen addresses. -/
def handleList (held : List UInt16) : Request → List UInt16 × Answer
  | .push address =>
      if held.length < 16 then (held ++ [address], .added true) else (held, .added false)
  | .pop => (held.dropLast, .ofAddress? held.getLast?)
  | .peek => (held, .ofAddress? held.getLast?)
  | .reset => ([], .done)
  | .depth => (held, .held held)

/-- Carries out requests in their order, and collects the answers. -/
def handleAll {σ : Type} (each : σ → Request → σ × Answer) : σ → List Request → σ × List Answer
  | state, [] => (state, [])
  | state, request :: rest =>
      let next := each state request
      let last := handleAll each next.1 rest
      (last.1, next.2 :: last.2)

/-! ### One request -/

theorem isEmpty_iff (stack : CallStack) : stack.isEmpty = true ↔ stack.frames.length = 0 := by
  rw [isEmpty, length_frames, beq_iff_eq]

theorem isFull_iff (stack : CallStack) : stack.isFull = true ↔ stack.frames.length = 16 := by
  have bound := stack.pointer_le
  rw [isFull, length_frames, decide_eq_true_eq]
  omega

theorem handle_push (stack : CallStack) (address : UInt16) :
    (stack.handle (.push address)).1.frames = (handleList stack.frames (.push address)).1 ∧
      (stack.handle (.push address)).2 = (handleList stack.frames (.push address)).2 := by
  simp only [handle, handleList, length_frames]
  by_cases room : stack.pointer < 16
  · have accepted : stack.push? address = some _ := dif_pos room
    have frames := frames_push? stack _ address accepted
    rw [accepted, if_pos room]
    exact ⟨frames, rfl⟩
  · have refused : stack.push? address = none := dif_neg room
    rw [refused, if_neg room]
    exact ⟨rfl, rfl⟩

theorem handle_pop (stack : CallStack) :
    (stack.handle .pop).1.frames = (handleList stack.frames .pop).1 ∧
      (stack.handle .pop).2 = (handleList stack.frames .pop).2 := by
  simp only [handle, handleList]
  cases result : stack.pop? with
  | none =>
      have nothing : stack.frames.getLast? = none := by
        rw [← Machine.peek?_eq_getLast?]
        exact Option.map_eq_none_iff.mp result
      rw [nothing, List.getLast?_eq_none_iff.mp nothing]
      exact ⟨rfl, rfl⟩
  | some top =>
      obtain ⟨address, popped⟩ := top
      have frames := frames_pop? stack popped address result
      rw [frames, List.dropLast_concat, List.getLast?_concat]
      exact ⟨rfl, rfl⟩

theorem handle_eq (stack : CallStack) (request : Request) :
    (stack.handle request).1.frames = (handleList stack.frames request).1 ∧
      (stack.handle request).2 = (handleList stack.frames request).2 := by
  cases request with
  | push address => exact handle_push stack address
  | pop => exact handle_pop stack
  | peek =>
      refine ⟨rfl, ?_⟩
      rw [handle, handleList, Machine.peek?_eq_getLast?]
  | reset => exact ⟨rfl, rfl⟩
  | depth => exact ⟨rfl, rfl⟩

theorem handleAll_eq (stack : CallStack) (requests : List Request) :
    (handleAll handle stack requests).1.frames =
        (handleAll handleList stack.frames requests).1 ∧
      (handleAll handle stack requests).2 = (handleAll handleList stack.frames requests).2 := by
  induction requests generalizing stack with
  | nil => exact ⟨rfl, rfl⟩
  | cons request rest ih =>
      have first := handle_eq stack request
      have later := ih (stack.handle request).1
      simp only [handleAll]
      rw [← first.1, ← first.2, ← later.2]
      exact ⟨later.1, rfl⟩

end CallStack

/-! ### Slots that may not be there -/

/-- Slots, and a pointer that nothing keeps in range. -/
structure Checked.Stack where
  slots : Vector UInt16 16
  pointer : Int

namespace Checked.Stack

open CallStack (Request Answer)

def peek? (stack : Stack) : Option (Option UInt16) :=
  if stack.pointer = 0 then some none
  else do
    let address ← cell? stack.slots (stack.pointer - 1)
    return some address

/-- Carries out one request. There is no result if a slot is used that is not there. -/
def handle? (stack : Stack) : Request → Option (Stack × Answer)
  | .push address =>
      if stack.pointer ≥ 16 then some (stack, .added false)
      else do
        let slots ← replace? stack.slots stack.pointer address
        return ({ slots, pointer := stack.pointer + 1 }, .added true)
  | .pop => do
      match ← stack.peek? with
      | some address => return ({ stack with pointer := stack.pointer - 1 }, .found address true)
      | none => return (stack, .found 0 false)
  | .peek => do return (stack, .ofAddress? (← stack.peek?))
  | .reset => some ({ slots := Vector.replicate 16 0, pointer := 0 }, .done)
  | .depth =>
      if 0 ≤ stack.pointer ∧ stack.pointer ≤ 16 then
        some (stack, .held (stack.slots.toList.take stack.pointer.toNat))
      else none

def handleAll? : Stack → List Request → Option (Stack × List Answer)
  | stack, [] => some (stack, [])
  | stack, request :: rest => do
      let next ← stack.handle? request
      let last ← handleAll? next.1 rest
      return (last.1, next.2 :: last.2)

end Checked.Stack

namespace CallStack

open Checked

def unbounded (stack : CallStack) : Checked.Stack where
  slots := stack.slots
  pointer := stack.pointer

theorem unbounded_peek? (stack : CallStack) : stack.unbounded.peek? = some stack.peek? := by
  have bound := stack.pointer_le
  unfold Stack.peek? peek? unbounded
  dsimp only
  by_cases empty : stack.pointer = 0
  · rw [if_pos (by omega), dif_neg (by omega)]
  · have index : (stack.pointer : Int) - 1 = ((stack.pointer - 1 : Nat) : Int) := by
      omega
    have inside : stack.pointer - 1 < 16 := by
      omega
    rw [if_neg (by omega), dif_pos (Nat.pos_of_ne_zero empty), index, cell?_natCast _ inside]
    rfl

/-- No request uses a slot that is not there. -/
theorem unbounded_handle? (stack : CallStack) (request : Request) :
    stack.unbounded.handle? request =
      some ((stack.handle request).1.unbounded, (stack.handle request).2) := by
  have bound := stack.pointer_le
  cases request with
  | push address =>
      unfold Stack.handle? handle push? unbounded
      dsimp only
      by_cases room : stack.pointer < 16
      · rw [if_neg (by omega), dif_pos room, replace?_natCast _ room]
        rfl
      · rw [if_pos (by omega), dif_neg room]
  | pop =>
      rw [Stack.handle?, unbounded_peek?, handle, pop?]
      cases top : stack.peek? with
      | none => rfl
      | some address =>
          have live : 0 < stack.pointer := by
            apply Nat.pos_of_ne_zero
            intro empty
            rw [peek?, dif_neg (by omega)] at top
            cases top
          have lowered : (stack.pointer : Int) - 1 = ((stack.pointer - 1 : Nat) : Int) := by
            omega
          simp only [Option.map_some, unbounded, ← lowered]
          rfl
  | peek =>
      rw [Stack.handle?, unbounded_peek?]
      rfl
  | reset => rfl
  | depth =>
      unfold Stack.handle? unbounded
      dsimp only
      rw [if_pos (by omega), Int.toNat_natCast]
      rfl

theorem unbounded_handleAll? (stack : CallStack) (requests : List Request) :
    stack.unbounded.handleAll? requests =
      some ((handleAll handle stack requests).1.unbounded, (handleAll handle stack requests).2) := by
  induction requests generalizing stack with
  | nil => rfl
  | cons request rest ih =>
      rw [Stack.handleAll?, unbounded_handle?]
      dsimp only [bind, Option.bind]
      rw [ih]
      rfl

/-- A stack is a list of at most sixteen addresses. From any slots and any pointer on, every
sequence of requests has the answers that a list gives which starts with the live slots, and leaves
the addresses of that list; the pointer is its length, and the stack is empty or full when the list
is. None of the requests uses a slot that is not there. -/
theorem serves_as_list (stack : CallStack) (requests : List Request) :
    let last := handleAll handle stack requests
    let held := handleAll handleList stack.frames requests
    last.2 = held.2 ∧ last.1.frames = held.1 ∧ held.1.length ≤ 16 ∧
      last.1.pointer = held.1.length ∧
      (last.1.isEmpty = true ↔ held.1.length = 0) ∧
      (last.1.isFull = true ↔ held.1.length = 16) ∧
      stack.unbounded.handleAll? requests = some (last.1.unbounded, last.2) := by
  intro last held
  obtain ⟨frames, answers⟩ := handleAll_eq stack requests
  have length : last.1.pointer = held.1.length := by
    rw [← frames, length_frames]
  refine ⟨answers, frames, ?_, length, ?_, ?_, unbounded_handleAll? stack requests⟩
  · rw [← length]
    exact last.1.pointer_le
  · rw [← frames]
    exact last.1.isEmpty_iff
  · rw [← frames]
    exact last.1.isFull_iff

end CallStack

end Nibble
