import RegisterAllocation.Analysis.Flow
import RegisterAllocation.Analysis.UseDef

namespace RegisterAllocation

structure Note extends UseDef, Links

structure Liveness where
  ins : Array VarSet
  outs : Array VarSet
  passes : Nat := 0

namespace Liveness

def start (count : Nat) : Liveness where
  ins := Array.replicate count ∅
  outs := Array.replicate count ∅

def outOf (ins : Array VarSet) (note : Note) : VarSet :=
  note.succ.foldl (fun out s => out ∪ ins.getD s ∅) ∅

def inOf (note : Note) (out : VarSet) : VarSet := note.used ∪ (out \ note.defined)

def update (note : Note) (i : Nat) (state : Liveness × Bool) : Liveness × Bool :=
  let (lv, changed) := state
  let out := outOf lv.ins note
  let inn := inOf note out
  let same := inn == lv.ins.getD i ∅ && out == lv.outs.getD i ∅
  ({ lv with ins := lv.ins.setIfInBounds i inn, outs := lv.outs.setIfInBounds i out },
    changed || !same)

def pass (notes : List Note) (lv : Liveness) : Liveness × Bool :=
  notes.zipIdx.foldr (fun entry state => update entry.1 entry.2 state)
    ({ lv with passes := lv.passes + 1 }, false)

def iterate (notes : List Note) : Nat → Liveness → Except Nat Liveness
  | 0, lv => .error lv.passes
  | allowed + 1, lv =>
    match pass notes lv with
    | (lv, true) => iterate notes allowed lv
    | (lv, false) => .ok lv

-- Sets only grow, so a pass that changes something adds a variable to one of the two sets of an
-- instruction.
def passLimit (vars count : Nat) : Nat := vars * 2 * count + 1

def solve (vars : Nat) (notes : List Note) : Except Nat Liveness :=
  iterate notes (passLimit vars notes.length + 1) (start notes.length)

def setLines (t : VarTable) (sets : Array VarSet) : String :=
  String.join (sets.toList.map fun s => "(" ++ VarSet.text s t ++ ")\n")

def text (lv : Liveness) (t : VarTable) : String :=
  "(\n(in\n" ++ setLines t lv.ins ++ ")\n\n(out\n" ++ setLines t lv.outs ++ ")\n\n)\n"

end Liveness

end RegisterAllocation
