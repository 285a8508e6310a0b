import RegisterAllocation.Analysis.Liveness

namespace RegisterAllocation

inductive AnalysisError where
  | undefinedLabel (function : String) (index : Nat) (label : String)
  | noFixpoint (function : String) (passes : Nat)
  | fault (fault : Fault)
  deriving DecidableEq, Repr

def AnalysisError.message? : AnalysisError → Option String
  | .undefinedLabel function index label =>
    some s!"function {function}, instruction {index}: branch to undefined label {label}"
  | .noFixpoint function passes =>
    some s!"function {function}: liveness did not reach a fixpoint after {passes} passes"
  | .fault f => f.message?

-- A function with a note on each of its instructions. Analyses add names to the table and write
-- notes; the rest of the function stays.
structure Sheet where
  function : Function
  notes : List Note

namespace Sheet

def ofFunction (f : Function) : Sheet where
  function := f
  notes := f.body.map fun _ => {}

def append (s : Sheet) (insts : List Instruction) : Sheet where
  function := s.function.append insts
  notes := s.notes ++ insts.map fun _ => {}

def withTable (s : Sheet) (t : VarTable) : Sheet :=
  { s with function := { s.function with table := t } }

-- Writes the links of every instruction. When a label is missing, the links found before stay.
def link (s : Sheet) : Sheet × Option AnalysisError :=
  let (links, missing) := s.function.flow
  ({ s with notes := s.notes.zipWith (fun note l => { note with toLinks := l }) links },
    missing.map fun (i, label) => .undefinedLabel s.function.name i label)

def writeSets : List Note → List UseDef → List Note
  | note :: notes, set :: sets => { note with toUseDef := set } :: writeSets notes sets
  | notes, _ => notes

-- Writes the sets of every instruction. After a fault the notes from there on stay as they were.
def resolve (s : Sheet) : Sheet × Option Fault :=
  let (sets, t, fault) := s.function.useDefs
  ({ s.withTable t with notes := writeSets s.notes sets }, fault)

def live (s : Sheet) : Except AnalysisError Liveness :=
  match Liveness.solve s.function.table.size s.notes with
  | .ok lv => .ok lv
  | .error passes => .error (.noFixpoint s.function.name passes)

def analyze (s : Sheet) : Sheet × Except AnalysisError Liveness :=
  match s.link with
  | (s, some e) => (s, .error e)
  | (s, none) =>
    match s.resolve with
    | (s, some fault) => (s, .error (.fault fault))
    | (s, none) => (s, s.live)

def referenced (s : Sheet) : VarSet :=
  s.notes.foldl (fun vars note => vars ∪ note.used ∪ note.defined) ∅

end Sheet

end RegisterAllocation
