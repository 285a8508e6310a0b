import RegisterAllocation.Coloring
import RegisterAllocation.Spill

namespace RegisterAllocation

structure Stats where
  functions : Nat := 0
  iterations : Nat := 0
  spills : Nat := 0
  sweeps : Nat := 0
  replaced : Nat := 0
  deriving DecidableEq, Repr

def Stats.add (a b : Stats) : Stats where
  functions := a.functions + b.functions
  iterations := a.iterations + b.iterations
  spills := a.spills + b.spills
  sweeps := a.sweeps + b.sweeps
  replaced := a.replaced + b.replaced

inductive Stage where
  | analyze | build | color | spill | sweep | done
  deriving DecidableEq, Repr

def Stage.text : Stage → String
  | .analyze => "analyze"
  | .build => "build"
  | .color => "color"
  | .spill => "spill"
  | .sweep => "sweep"
  | .done => "done"

inductive Event where
  | stage (iteration : Nat) (stage : Stage)
  | liveness (iteration passes : Nat)
  | color (iteration nodes optimistic : Nat) (bigFail : Bool) (uncolored : List String)
  | sweep (spilled : List String)
  | spill (iteration : Nat) (spilled : List String) (locals : Word)
  | done (iterations spills : Nat) (locals : Word)
  deriving DecidableEq, Repr

def Event.text : Event → String
  | .stage iteration entered => s!"iteration {iteration}, state {entered.text}"
  | .liveness iteration passes => s!"iteration {iteration}, liveness after {passes} passes"
  | .color iteration nodes optimistic bigFail uncolored =>
    s!"iteration {iteration}, coloring {nodes} nodes, {optimistic} optimistic, "
      ++ s!"big fail {bigFail}, uncolored {uncolored}"
  | .sweep names => s!"sweep, spilled {names}"
  | .spill iteration spilled locals =>
    s!"iteration {iteration}, spilled {spilled}, locals " ++ locals.text
  | .done iterations spills locals =>
    s!"done after {iterations} iterations, {spills} spills, locals " ++ locals.text

inductive AllocationError where
  | analysis (function : String) (error : AnalysisError)
  | tooManyIterations (function : String) (bound : Nat)
  | nothingToSpill (function : String) (uncolored : List String)
  | coloring (error : ColoringError)
  | spill (error : SpillError)
  deriving DecidableEq, Repr

def allocationFailed : String := "register allocation failed"

def AllocationError.message? : AllocationError → Option String
  | .analysis _ (.fault f) => f.message?
  | .analysis function error => error.message?.map fun text => s!"function {function}: {text}"
  | .tooManyIterations function bound =>
    some s!"function {function}: {allocationFailed}: no allocation within {bound} iterations"
  | .nothingToSpill function uncolored =>
    let names := " ".intercalate uncolored
    some s!"function {function}: {allocationFailed}: nothing left to spill, uncolored [{names}]"
  | .coloring error => error.message?
  | .spill (.fault f) => f.message?
  | .spill error => error.message?.map fun text => s!"{internalError}: {text}"

namespace Allocation

-- The state between two stages: the function as spilled so far, the temporaries in it, the source
-- of their names and the work done.
structure State where
  sheet : Sheet
  names : NameSequence
  temps : VarSet := ∅
  stats : Stats := { functions := 1 }
  events : List Event := []

structure Built where
  state : State
  graph : Graph

structure Outcome where
  stats : Stats
  events : List Event
  result : Except AllocationError Function

def State.report (s : State) (e : Event) : State := { s with events := e :: s.events }

def State.enter (s : State) (stage : Stage) : State := s.report (.stage s.stats.iterations stage)

def State.table (s : State) : VarTable := s.sheet.function.table

def State.fail (s : State) (e : AllocationError) : Outcome where
  stats := s.stats
  events := s.events.reverse
  result := .error e

def virtuals (s : Sheet) : Nat :=
  (s.referenced.toList.filter fun id => !s.function.table.isRegister id).length

-- A variable is spilled once, and temporaries and registers never are.
def State.spillable (s : State) (id : VarId) : Bool :=
  !s.table.isRegister id && !s.temps.contains id && !s.sheet.function.isSpilled (s.table.nameOf id)

-- Spills some variables, one after the other. Numbers stay valid, as every table extends the one
-- before it.
def spillEach (s : State) : List VarId → State × Option SpillError
  | [] => (s, none)
  | id :: rest =>
    match s.sheet.spill id s.names with
    | (_, _, .error e) => (s, some e)
    | (_, names, .ok spilled) =>
      let ids := spilled.temps.filterMap spilled.function.table.id?
      spillEach { s with
        sheet := Sheet.ofFunction spilled.function
        names := names
        temps := ids.foldl (fun temps id => temps.insert id) s.temps
        stats := { s.stats with spills := s.stats.spills + 1 } } rest

def spillAll (s : State) (victims : List VarId) : Except Outcome State :=
  let names := victims.map s.table.nameOf
  match spillEach s victims with
  | (s, some e) => .error (s.fail (.spill e))
  | (s, none) =>
    .ok (s.report (.spill s.stats.iterations names s.sheet.function.locals))

def sweep (b : Built) (attempt : Coloring) : Except Outcome State :=
  let s := b.state.enter .sweep
  match b.graph.nodes.filter s.spillable with
  | [] =>
    let uncolored := attempt.uncolored.map s.table.nameOf
    .error (s.fail (.nothingToSpill s.sheet.function.name uncolored))
  | victims =>
    let s := { s with stats := { s.stats with sweeps := s.stats.sweeps + 1 } }
    spillAll (s.report (.sweep (victims.map s.table.nameOf))) victims

def spill (b : Built) (attempt : Coloring) : Except Outcome State :=
  let s := b.state.enter .spill
  match attempt.uncolored.filter s.spillable with
  | [] => sweep { b with state := s } attempt
  | victims => spillAll s victims

def registerMap (t : VarTable) : List (VarId × String) → List (VarId × VarId) × VarTable
  | [] => ([], t)
  | (id, register) :: rest =>
    let (reg, t) := t.intern register
    let (more, t) := registerMap t rest
    ((id, reg) :: more, t)

def assignRegisters (f : Function) (rf : RegisterFile) (attempt : Coloring) : Function × Nat :=
  let chosen := (attempt.assigned f.table).filterMap fun (id, c) =>
    (rf.registers[c]?).map fun register => (id, register)
  let (regs, t) := registerMap f.table chosen
  let ρ : VarId → VarId := fun id => (regs.lookup id).getD id
  ({ f with body := f.body.map (·.rename ρ), table := t }, regs.length)

def finish (s : State) (rf : RegisterFile) (attempt : Coloring) : Outcome :=
  let s := s.enter .done
  let (f, replaced) := assignRegisters s.sheet.function rf attempt
  let stats := { s.stats with replaced := s.stats.replaced + replaced }
  { stats := stats
    events := (s.report (.done stats.iterations stats.spills f.locals)).events.reverse
    result := .ok f }

def analyze (s : State) : State × Except AnalysisError Liveness :=
  let s := s.enter .analyze
  let s := { s with stats := { s.stats with iterations := s.stats.iterations + 1 } }
  let (sheet, result) := s.sheet.analyze
  ({ s with sheet := sheet }, result)

def build (s : State) (lv : Liveness) (rf : RegisterFile) : Built :=
  let s := (s.report (.liveness s.stats.iterations lv.passes)).enter .build
  let (graph, sheet) := Graph.build s.sheet lv rf
  { state := { s with sheet := sheet }, graph := graph }

-- Colors the graph, and spills and starts again where that fails, as long as iterations are left.
-- The first number counts those, the second is the bound that is reported when they run out.
def refine (rf : RegisterFile) (bound : Nat) : Nat → Built → Outcome
  | left, b =>
    let s := b.state.enter .color
    match Coloring.color b.graph s.sheet.function rf s.temps with
    | .error e => s.fail (.coloring e)
    | .ok attempt =>
      let s := s.report (.color s.stats.iterations b.graph.size attempt.optimistic attempt.bigFail
        (attempt.uncolored.map s.table.nameOf))
      if attempt.success then finish s rf attempt
      else
        let b := { b with state := s }
        match if attempt.bigFail then sweep b attempt else spill b attempt with
        | .error outcome => outcome
        | .ok s =>
          match analyze s with
          | (s, .error e) => s.fail (.analysis s.sheet.function.name e)
          | (s, .ok lv) =>
            match left with
            | 0 => s.fail (.tooManyIterations s.sheet.function.name bound)
            | left + 1 => refine rf bound left (build s lv rf)

end Allocation

-- Allocates the registers of a function. Also returned is the function itself as its analysis
-- leaves it: with the names of the registers in its table and its notes written.
def Sheet.allocate (s : Sheet) (rf : RegisterFile) : Sheet × Allocation.Outcome :=
  let start : Allocation.State := { sheet := s, names := { stem := rf.tempPrefix } }
  match Allocation.analyze start with
  | (s, .error e) => (s.sheet, s.fail (.analysis s.sheet.function.name e))
  | (s, .ok lv) =>
    let bound := Allocation.virtuals s.sheet + 2
    let b := Allocation.build s lv rf
    (b.state.sheet, Allocation.refine rf bound (bound - 1) b)

def Function.allocate (f : Function) (rf : RegisterFile) : Allocation.Outcome :=
  ((Sheet.ofFunction f).allocate rf).2

end RegisterAllocation
