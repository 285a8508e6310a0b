namespace RegisterAllocation

structure NameSequence where
  stem : String
  next : Nat := 0
  taken : List String := []
  deriving DecidableEq, Repr

namespace NameSequence

def nameAt (stem : String) (n : Nat) : String := stem ++ toString n

-- The first number from `n` on whose name is free. Every try that fails uses up one of the blocked
-- names, so as many tries as there are blocked names are enough.
def firstFree (stem : String) (blocked : List String) : Nat → Nat → Nat
  | 0, n => n
  | tries + 1, n =>
    if blocked.contains (nameAt stem n) then firstFree stem blocked tries (n + 1) else n

def draw (s : NameSequence) (used : List String) : String × NameSequence :=
  let blocked := s.taken ++ used
  let n := firstFree s.stem blocked blocked.length s.next
  (nameAt s.stem n, { s with next := n + 1 })

def drawMany (s : NameSequence) : Nat → List String × NameSequence
  | 0 => ([], s)
  | count + 1 =>
    let (name, s) := s.draw []
    let (names, s) := s.drawMany count
    (name :: names, s)

end NameSequence

end RegisterAllocation
