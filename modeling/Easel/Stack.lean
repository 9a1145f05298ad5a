import Easel.Error

/-! Stacks of bounded height. -/

namespace Easel

/-- Holds at most `limit` items; one more is an error with the message `overflow`. The item pushed
last is the first of the list. -/
structure Stack (α : Type) where
  limit : Nat
  overflow : String
  items : List α
  size : Nat
  size_eq : size = items.length

namespace Stack

variable {α : Type}

def withLimit (overflow : String) (limit : Nat) : Stack α := ⟨limit, overflow, [], 0, rfl⟩

def ofOverflow (overflow : String) : Stack α := withLimit overflow 65535

def clear (stack : Stack α) : Stack α := withLimit stack.overflow stack.limit

def isEmpty (stack : Stack α) : Bool := stack.items.isEmpty

def top? (stack : Stack α) : Option α := stack.items.head?

def push (stack : Stack α) (item : α) : Except Error (Stack α) :=
  if stack.size < stack.limit then
    .ok ⟨stack.limit, stack.overflow, item :: stack.items, stack.size + 1, by simp [stack.size_eq]⟩
  else .error (.outOfMemory stack.overflow)

def pop (stack : Stack α) : Except Error (α × Stack α) :=
  match stack with
  | ⟨limit, overflow, item :: items, size, size_eq⟩ =>
    .ok (item, ⟨limit, overflow, items, size - 1, by simp [size_eq]⟩)
  | ⟨_, _, [], _, _⟩ => .error .stackUnderflow

end Stack

end Easel
