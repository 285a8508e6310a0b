import RegisterAllocation.Allocation
import RegisterAllocation.Collector

namespace RegisterAllocation

def Stats.parts (s : Stats) : List Stats :=
  [{ functions := s.functions }, { iterations := s.iterations }, { spills := s.spills },
    { sweeps := s.sweeps }, { replaced := s.replaced }]

-- One change to what is known of a program. The changes of several workers come in any order.
inductive Effect where
  | count (work : Stats)
  | keep (i : Nat) (f : Function)
  | report (e : AllocationError)

def Allocation.Outcome.effects (i : Nat) (outcome : Outcome) : List Effect :=
  outcome.stats.parts.map .count ++
    match outcome.result with
    | .ok f => [.keep i f]
    | .error e => [.report e]

structure Progress where
  functions : List (Option Function)
  stats : Stats := {}
  errors : Collector AllocationError := {}

namespace Progress

def start (p : Program) : Progress where
  functions := p.functions.map fun _ => none

def perform (g : Progress) : Effect → Progress
  | .count work => { g with stats := g.stats.add work }
  | .keep i f => { g with functions := g.functions.set i (some f) }
  | .report e => { g with errors := g.errors.append [e] }

def performAll (g : Progress) (effects : List Effect) : Progress := effects.foldl perform g

def program? (g : Progress) (p : Program) : Option Program :=
  (g.functions.mapM id).map fun functions => { p with functions := functions }

end Progress

namespace Pool

-- The sizes of the shares of `count` functions over `workers`: as even as possible, the larger ones
-- first.
def shares (count workers : Nat) : List Nat :=
  (List.range workers).map fun w =>
    if w < count % workers then count / workers + 1 else count / workers

def rangesFrom : Nat → List Nat → List (Nat × Nat)
  | _, [] => []
  | start, share :: rest => (start, start + share) :: rangesFrom (start + share) rest

def ranges (count threads : Nat) : List (Nat × Nat) :=
  rangesFrom 0 (shares count (min threads count))

structure Worker where
  next : Nat
  stop : Nat
  pending : List Effect := []

def Worker.finished (w : Worker) : Bool := w.pending.isEmpty && w.stop ≤ w.next

-- The listener takes errors from the workers one at a time, and between two of them it may be stopped.
inductive Listener where
  | waiting
  | holding (e : AllocationError)
  | stopped

structure State where
  workers : List Worker
  listener : Listener := .waiting
  stopping : Bool := false
  progress : Progress

inductive Move where
  | allocate (worker : Nat)
  | act (worker : Nat)
  | buffer
  | stop
  | quit
  deriving DecidableEq, Repr

def start (p : Program) (threads : Nat) : State where
  workers := (ranges p.functions.length threads).map fun (first, last) => { next := first, stop := last }
  progress := Progress.start p

-- What becomes of an effect. An error is handed to the listener, which has to be waiting for it.
def State.see (s : State) : Effect → Option State
  | .report e =>
    match s.listener with
    | .waiting => some { s with listener := .holding e }
    | _ => none
  | .count work => some { s with progress := s.progress.perform (.count work) }
  | .keep i f => some { s with progress := s.progress.perform (.keep i f) }

-- One move, if it is possible: a worker allocates its next function, or sees to one of its effects;
-- the listener buffers the error it holds; it is told to stop when all the workers have finished;
-- and told so, it quits rather than wait.
def step (p : Program) (rf : RegisterFile) (s : State) : Move → Option State
  | .allocate w => do
    let worker ← s.workers[w]?
    if !worker.pending.isEmpty || worker.stop ≤ worker.next then none
    else
      let f ← p.functions[worker.next]?
      let pending := (f.allocate rf).effects worker.next
      some { s with
        workers := s.workers.set w { worker with next := worker.next + 1, pending := pending } }
  | .act w => do
    let worker ← s.workers[w]?
    match worker.pending with
    | [] => none
    | effect :: rest =>
      let s ← s.see effect
      some { s with workers := s.workers.set w { worker with pending := rest } }
  | .buffer =>
    match s.listener with
    | .holding e => some { s with listener := .waiting, progress := s.progress.perform (.report e) }
    | _ => none
  | .stop => if s.stopping || !s.workers.all Worker.finished then none else some { s with stopping := true }
  | .quit =>
    match s.listener, s.stopping with
    | .waiting, true => some { s with listener := .stopped }
    | _, _ => none

def run (p : Program) (rf : RegisterFile) (s : State) (schedule : List Move) : State :=
  schedule.foldl (fun s move => (step p rf s move).getD s) s

def turn (w : Nat) : List Move :=
  .allocate w :: (List.replicate 6 (.act w) ++ [.buffer])

def inTurn (count threads : Nat) : List Move :=
  let workers := min threads count
  (List.replicate (count / workers + 1) ((List.range workers).flatMap turn)).flatten ++ [.stop, .quit]

end Pool

structure ProgramOutcome where
  progress : Progress
  events : List (String × Event) := []

namespace Program

def allocateInOrder (rf : RegisterFile) (g : Progress) : Nat → List Function → ProgramOutcome
  | _, [] => { progress := g }
  | i, f :: rest =>
    let outcome := f.allocate rf
    let done := allocateInOrder rf (g.performAll (outcome.effects i)) (i + 1) rest
    { done with events := outcome.events.map (fun e => (f.name, e)) ++ done.events }

def allocate (p : Program) (rf : RegisterFile) (threads : Nat) : ProgramOutcome :=
  if threads < 2 then allocateInOrder rf (Progress.start p) 0 p.functions
  else
    let count := p.functions.length
    { progress := (Pool.run p rf (Pool.start p threads) (Pool.inTurn count threads)).progress }

end Program

end RegisterAllocation
