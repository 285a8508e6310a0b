import RegisterAllocation.Interference
import RegisterAllocation.Stack

namespace RegisterAllocation

structure Coloring where
  colors : Std.ExtTreeMap VarId Nat := ∅
  uncolored : List VarId := []
  bigFail : Bool := false
  optimistic : Nat := 0

inductive ColoringError where
  | notAllocatable (function register : String)
  | lostColor (function register : String)
  | sharedColor (function first second register : String)
  | fault (fault : Fault)
  deriving DecidableEq, Repr

def internalError : String := "internal register allocator error"

def ColoringError.message? : ColoringError → Option String
  | .notAllocatable function register =>
    some s!"function {function}: {internalError}: register {register} is not allocatable"
  | .lostColor function register =>
    some s!"function {function}: {internalError}: register {register} lost its colour"
  | .sharedColor function first second register =>
    some s!"function {function}: {internalError}: interfering {first} and {second} share colour {register}"
  | .fault f => f.message?

def RegisterFile.get (rf : RegisterFile) (color : Int) : Except Fault String :=
  match color with
  | .ofNat n => match rf.registers[n]? with
    | some name => .ok name
    | none => .error (.noColor color rf.k)
  | .negSucc _ => .error (.noColor color rf.k)

namespace Coloring

def virtualNodes (g : Graph) : List VarId := g.nodes.filter fun id => (g.color? id).isNone

def highest (w : Graph) (candidates : List VarId) : Option VarId :=
  candidates.foldl (fun best id =>
    match best with
    | none => some id
    | some b => if w.degree b < w.degree id then some id else best) none

-- The node to remove when every node has too many neighbours. Spill temporaries come last.
def optimisticPick (w : Graph) (virtual : List VarId) (temps : VarSet) : Option VarId :=
  let present := virtual.filter w.hasNode
  (highest w (present.filter fun id => !temps.contains id)).or
    (highest w (present.filter temps.contains))

inductive Simplified where
  | done (stack : Stack VarId) (optimistic : Nat)
  | gaveUp (remaining : List VarId) (optimistic : Nat)

-- Removes the nodes one by one: the first with fewer neighbours than colors, or else an optimistic
-- pick as long as the budget lasts. The number counts the nodes that are left.
def simplify (rf : RegisterFile) (virtual : List VarId) (temps : VarSet) :
    Nat → Graph → Stack VarId → Nat → Simplified
  | 0, _, stack, optimistic => .done stack optimistic
  | left + 1, w, stack, optimistic =>
    match virtual.find? fun id => w.hasNode id && w.degree id < rf.k with
    | some id => simplify rf virtual temps left (w.remove id) (stack.push id) optimistic
    | none =>
      if rf.retry < optimistic + 1 then .gaveUp (virtual.filter w.hasNode) (optimistic + 1)
      else
        match optimisticPick w virtual temps with
        | some id => simplify rf virtual temps left (w.remove id) (stack.push id) (optimistic + 1)
        | none => .done stack (optimistic + 1)

def precolors (g : Graph) : Std.ExtTreeMap VarId Nat :=
  g.nodes.foldl (fun colors id =>
    match g.color? id with
    | some c => colors.insert id c
    | none => colors) ∅

def neighborColors (g : Graph) (k : Nat) (colors : Std.ExtTreeMap VarId Nat) (id : VarId) :
    Except Fault (List Nat) :=
  let used := (g.neighbors id).filterMap fun n => colors[n]?
  match used.find? fun c => k ≤ c with
  | some c => .error (.colorBeyondFile c k)
  | none => .ok used

def freeColor? (k : Nat) (used : List Nat) : Option Nat :=
  (List.range k).find? fun c => !used.contains c

def select (g : Graph) (k : Nat) : List VarId → Coloring → Except Fault Coloring
  | [], attempt => .ok attempt
  | id :: rest, attempt => do
    let used ← neighborColors g k attempt.colors id
    match freeColor? k used with
    | some c => select g k rest { attempt with colors := attempt.colors.insert id c }
    | none => select g k rest { attempt with uncolored := id :: attempt.uncolored }

def registerError? (g : Graph) (f : Function) (rf : RegisterFile)
    (colors : Std.ExtTreeMap VarId Nat) : Option ColoringError :=
  (g.nodes.filter f.table.isRegister).findSome? fun id =>
    let name := f.table.nameOf id
    match rf.color? name with
    | none => some (.notAllocatable f.name name)
    | some c => if colors[id]? = some c then none else some (.lostColor f.name name)

def conflict? (g : Graph) (colors : Std.ExtTreeMap VarId Nat) : Option (VarId × VarId × Nat) :=
  g.nodes.findSome? fun u =>
    (colors[u]?).bind fun c =>
      ((g.neighbors u).find? fun v => colors[v]? = some c).map fun v => (u, v, c)

def verify (g : Graph) (f : Function) (rf : RegisterFile) (attempt : Coloring) :
    Except ColoringError Coloring :=
  match registerError? g f rf attempt.colors with
  | some e => .error e
  | none =>
    match conflict? g attempt.colors with
    | none => .ok attempt
    | some (u, v, c) =>
      match rf.get c with
      | .ok register => .error (.sharedColor f.name (f.table.nameOf u) (f.table.nameOf v) register)
      | .error fault => .error (.fault fault)

def color (g : Graph) (f : Function) (rf : RegisterFile) (temps : VarSet) :
    Except ColoringError Coloring :=
  let virtual := virtualNodes g
  match simplify rf virtual temps virtual.length g {} 0 with
  | .gaveUp remaining optimistic =>
    .ok { uncolored := remaining, bigFail := true, optimistic := optimistic }
  | .done stack optimistic =>
    match select g rf.k stack.items { colors := precolors g, optimistic := optimistic } with
    | .error fault => .error (.fault fault)
    | .ok attempt =>
      verify g f rf { attempt with
        uncolored := attempt.uncolored.mergeSort fun a b => decide (a ≤ b) }

def success (attempt : Coloring) : Bool := !attempt.bigFail && attempt.uncolored.isEmpty

def assigned (attempt : Coloring) (t : VarTable) : List (VarId × Nat) :=
  attempt.colors.toList.filter fun (id, _) => !t.isRegister id

def text (attempt : Coloring) (t : VarTable) (rf : RegisterFile) : Except Fault String := do
  let lines ← (attempt.assigned t).mapM fun (id, c) =>
    (rf.get c).map fun register => t.nameOf id ++ " " ++ register
  let colored := String.join ((VarTable.sortNames lines).map (· ++ "\n"))
  let failed := if attempt.bigFail then "big fail\n" else ""
  let left := Std.ExtTreeSet.ofList attempt.uncolored
  let rest := if attempt.uncolored.isEmpty then "" else "uncolored " ++ VarSet.text left t ++ "\n"
  return colored ++ failed ++ rest

end Coloring

end RegisterAllocation
