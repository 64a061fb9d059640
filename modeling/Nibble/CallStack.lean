set_option autoImplicit false

/-! The call stack: sixteen slots for return addresses and the number of slots in use. A slot
keeps its value after a pop; only the slots below the pointer are live. -/

namespace Nibble

structure CallStack where
  slots : Vector UInt16 16 := Vector.replicate 16 0
  /-- The number of live slots, which is the depth of nested calls. -/
  pointer : Nat := 0
  pointer_le : pointer ≤ 16 := by decide
deriving DecidableEq, Repr

namespace CallStack

def empty : CallStack := {}

def isEmpty (stack : CallStack) : Bool :=
  stack.pointer == 0

def isFull (stack : CallStack) : Bool :=
  stack.pointer ≥ 16

/-- The live return addresses, oldest first. -/
def frames (stack : CallStack) : List UInt16 :=
  stack.slots.toList.take stack.pointer

/-- Adds a return address; there is no result when every slot is live. -/
def push? (stack : CallStack) (address : UInt16) : Option CallStack :=
  if room : stack.pointer < 16 then
    some
      { slots := stack.slots.set stack.pointer address
        pointer := stack.pointer + 1
        pointer_le := room }
  else none

def peek? (stack : CallStack) : Option UInt16 :=
  if live : 0 < stack.pointer then
    have inside : stack.pointer - 1 < 16 := by have := stack.pointer_le; omega
    some stack.slots[stack.pointer - 1]
  else none

def pop? (stack : CallStack) : Option (UInt16 × CallStack) :=
  stack.peek?.map fun address =>
    (address,
      { stack with
        pointer := stack.pointer - 1
        pointer_le := Nat.le_trans (Nat.sub_le _ _) stack.pointer_le })

/-! ### The stack as a list -/

@[simp] theorem length_frames (stack : CallStack) : stack.frames.length = stack.pointer := by
  simp [frames, stack.pointer_le]

theorem frames_push? (stack pushed : CallStack) (address : UInt16)
    (accepted : stack.push? address = some pushed) :
    pushed.frames = stack.frames ++ [address] := by
  unfold push? at accepted
  split at accepted
  · next room =>
    cases accepted
    have least : min stack.pointer 16 = stack.pointer := Nat.min_eq_left stack.pointer_le
    simp only [frames, Vector.toList_set]
    rw [List.take_set, List.take_add_one]
    simp [room, least]
  · cases accepted

theorem frames_pop? (stack popped : CallStack) (address : UInt16)
    (result : stack.pop? = some (address, popped)) :
    stack.frames = popped.frames ++ [address] := by
  unfold pop? peek? at result
  split at result
  · next live =>
    simp only [Option.map_some, Option.some.injEq, Prod.mk.injEq] at result
    obtain ⟨rfl, rfl⟩ := result
    have inside : stack.pointer - 1 < 16 := by have := stack.pointer_le; omega
    have split : stack.pointer = (stack.pointer - 1) + 1 := by omega
    simp only [frames]
    conv => lhs; rw [split]
    rw [List.take_add_one]
    simp [inside]
  · cases result

end CallStack

end Nibble
