import RegisterAllocation.Function

namespace RegisterAllocation

structure Links where
  pred : List Nat := []
  succ : List Nat := []
  deriving DecidableEq, Repr

namespace Flow

-- The place of a label; of several labels with one name the last one counts.
def labelIndex? (name : String) : List Instruction → Option Nat
  | [] => none
  | inst :: rest =>
    match labelIndex? name rest with
    | some i => some (i + 1)
    | none => if inst = .label name then some 0 else none

-- An edge is drawn at both of its ends, and once, also where a branch goes to the next instruction.
def link (links : List Links) (source target : Nat) : List Links :=
  if (links.getD source {}).succ.contains target then links
  else
    (links.modify source fun l => { l with succ := l.succ ++ [target] }).modify target fun l =>
      { l with pred := l.pred ++ [source] }

def linkNext (count i : Nat) (inst : Instruction) (links : List Links) : List Links :=
  if inst.isTerminal || count ≤ i + 1 then links else link links i (i + 1)

-- Draws the edges of the instructions from index `i` on. A branch without its label ends the scan
-- and keeps the edge to the next instruction.
def linkFrom (body : List Instruction) :
    Nat → List Instruction → List Links → List Links × Option (Nat × String)
  | _, [], links => (links, none)
  | i, inst :: rest, links =>
    let links := linkNext body.length i inst links
    match inst.target? with
    | none => linkFrom body (i + 1) rest links
    | some target =>
      match labelIndex? target body with
      | some place => linkFrom body (i + 1) rest (link links i place)
      | none => (links, some (i, target))

end Flow

def Function.flow (f : Function) : List Links × Option (Nat × String) :=
  Flow.linkFrom f.body 0 f.body (List.replicate f.body.length {})

end RegisterAllocation
