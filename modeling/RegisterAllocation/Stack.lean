namespace RegisterAllocation

structure Stack (α : Type) where
  items : List α := []
  deriving DecidableEq, Repr

namespace Stack

def push {α : Type} (s : Stack α) (a : α) : Stack α := ⟨a :: s.items⟩

def pop? {α : Type} (s : Stack α) : Option (α × Stack α) :=
  match s.items with
  | [] => none
  | a :: rest => some (a, ⟨rest⟩)

def peek? {α : Type} (s : Stack α) : Option α := s.items.head?

def size {α : Type} (s : Stack α) : Nat := s.items.length

def get? {α : Type} (s : Stack α) (place : Int) : Option α :=
  if 1 ≤ place then s.items[(place - 1).toNat]? else none

theorem pop?_push {α : Type} (s : Stack α) (a : α) : (s.push a).pop? = some (a, s) := rfl

theorem get?_one {α : Type} (s : Stack α) : s.get? 1 = s.peek? := by
  simp [get?, peek?, List.head?_eq_getElem?]

end Stack

end RegisterAllocation
