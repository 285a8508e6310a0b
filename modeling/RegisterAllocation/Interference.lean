import RegisterAllocation.Analysis.Sheet
import Std.Data.ExtTreeMap

namespace RegisterAllocation

structure Graph where
  adj : Std.ExtTreeMap VarId VarSet := ∅
  precolored : Std.ExtTreeMap VarId Nat := ∅

namespace Graph

def nodes (g : Graph) : List VarId := g.adj.keys

def size (g : Graph) : Nat := g.adj.size

def hasNode (g : Graph) (id : VarId) : Bool := g.adj.contains id

def neighborSet (g : Graph) (id : VarId) : VarSet := g.adj.getD id ∅

def neighbors (g : Graph) (id : VarId) : List VarId := (g.neighborSet id).toList

def degree (g : Graph) (id : VarId) : Nat := (g.neighborSet id).size

def hasEdge (g : Graph) (u v : VarId) : Bool := (g.neighborSet u).contains v

def color? (g : Graph) (id : VarId) : Option Nat := g.precolored[id]?

def addNode (g : Graph) (id : VarId) : Graph :=
  if g.hasNode id then g else { g with adj := g.adj.insert id ∅ }

def addNeighbor (g : Graph) (u v : VarId) : Graph :=
  { g with adj := g.adj.insert u ((g.neighborSet u).insert v) }

def addEdge (g : Graph) (u v : VarId) : Graph :=
  if u = v then g else (g.addNeighbor u v).addNeighbor v u

def removeNeighbor (id : VarId) (g : Graph) (u : VarId) : Graph :=
  { g with adj := g.adj.insert u ((g.neighborSet u).erase id) }

-- Removes a node with its edges. Its color, if it had one, is still on record.
def remove (g : Graph) (id : VarId) : Graph :=
  let g := (g.neighbors id).foldl (removeNeighbor id) g
  { g with adj := g.adj.erase id }

def setColor (g : Graph) (id : VarId) (color : Nat) : Graph :=
  { g with precolored := g.precolored.insert id color }

def addClique : List VarId → Graph → Graph
  | [], g => g
  | u :: rest, g => addClique rest (rest.foldl (fun g v => g.addEdge u v) g)

def ofRegisters (regs : List VarId) : Graph :=
  let g := regs.zipIdx.foldl (fun g (id, color) => (g.addNode id).setColor id color) {}
  addClique regs g

def addConflicts (sp : Option VarId) (g : Graph) (note : Note) (out : VarSet) : Graph :=
  note.defined.toList.foldl (fun g d =>
    out.toList.foldl (fun g v => if sp = some d ∨ sp = some v then g else g.addEdge d v) g) g

def build (s : Sheet) (lv : Liveness) (rf : RegisterFile) : Graph × Sheet :=
  let sp := s.function.table.id? rf.sp
  let (regs, t) := s.function.table.internAll rf.registers
  let vars := s.referenced.toList.filter fun id => sp ≠ some id
  let g := vars.foldl addNode (ofRegisters regs)
  let g := (s.notes.zip lv.outs.toList).foldl (fun g (note, out) => addConflicts sp g note out) g
  (g, s.withTable t)

def line (t : VarTable) (id : VarId) (neighbors : VarSet) : String :=
  if neighbors.isEmpty then t.nameOf id else t.nameOf id ++ " " ++ VarSet.text neighbors t

def text (g : Graph) (t : VarTable) : String :=
  let lines := VarTable.sortNames (g.adj.toList.map fun (id, neighbors) => line t id neighbors)
  String.join (lines.map (· ++ "\n"))

end Graph

end RegisterAllocation
