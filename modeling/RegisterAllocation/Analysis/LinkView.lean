import RegisterAllocation.Analysis.Sheet

namespace RegisterAllocation

-- A list of links as seen by someone who asked for it. The links of an instruction are written into
-- a row that is used again by the next linking, so a list held from before shows what is written
-- there later. A row that is too small is left behind for a larger one, and then keeps what it
-- shows.
structure LinkView where
  held : List Nat
  capacity : Nat
  left : Bool := false
  deriving DecidableEq, Repr

namespace LinkView

-- Rows grow by doubling, one link at a time.
def grown (capacity count : Nat) : Nat := if count ≤ capacity then capacity else count.nextPowerOfTwo

def after (v : LinkView) (links : List Nat) : LinkView :=
  if v.left then v
  else
    { v with
      held := links.take v.held.length ++ v.held.drop links.length
      left := v.capacity < links.length }

theorem length_held_after (v : LinkView) (links : List Nat) :
    (v.after links).held.length = v.held.length := by
  unfold after
  split
  · rfl
  · simp only [List.length_append, List.length_take, List.length_drop]
    omega

end LinkView

structure Room where
  pred : Nat := 0
  succ : Nat := 0
  deriving DecidableEq, Repr

def Room.after (r : Room) (links : Links) : Room where
  pred := LinkView.grown r.pred links.pred.length
  succ := LinkView.grown r.succ links.succ.length

structure LinkViews where
  pred : LinkView
  succ : LinkView
  deriving DecidableEq, Repr

namespace LinkViews

def ofLinks (r : Room) (links : Links) : LinkViews where
  pred := { held := links.pred, capacity := r.pred }
  succ := { held := links.succ, capacity := r.succ }

def after (v : LinkViews) (links : Links) : LinkViews where
  pred := v.pred.after links.pred
  succ := v.succ.after links.succ

end LinkViews

namespace Sheet

def links (s : Sheet) : List Links := s.notes.map Note.toLinks

def roomAfter (s : Sheet) (rooms : List Room) : List Room :=
  s.links.zipIdx.map fun (links, i) => (rooms.getD i {}).after links

def views (s : Sheet) (rooms : List Room) : List LinkViews :=
  s.links.zipIdx.map fun (links, i) => LinkViews.ofLinks (rooms.getD i {}) links

def viewsAfter (s : Sheet) (views : List LinkViews) : List LinkViews :=
  views.zipWith LinkViews.after s.links

end Sheet

end RegisterAllocation
