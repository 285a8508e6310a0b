import RegisterAllocation.Allocation.Pool
import RegisterAllocation.Command.Options
import RegisterAllocation.Interchange.Decode
import RegisterAllocation.Interchange.Encode

namespace RegisterAllocation.Command

inductive RunError where
  | decode (error : Interchange.DecodeError)
  | noFunction (name : String)
  | analysis (function : String) (error : AnalysisError)
  | coloring (error : ColoringError)
  | spill (error : SpillError)
  | allocation (errors : List AllocationError)
  | fault (fault : Fault)
  deriving DecidableEq, Repr

-- A decoded program keeps all contracts, so its runs have no faults and every error has a text.
def RunError.message? : RunError → Option String
  | .decode error => some error.message
  | .noFunction name => some s!"program has no function {name}"
  | .analysis _ (.fault f) => f.message?
  | .analysis function error => error.message?.map fun text => s!"function {function}: {text}"
  | .coloring error => error.message?
  | .spill error => error.message?
  | .allocation errors => (errors.mapM AllocationError.message?).map joinErrors
  | .fault f => f.message?

structure Run where
  text : String := ""
  events : List (String × Event) := []
  error : Option RunError := none

def selected (p : Program) (name : String) : Except RunError (List Function) :=
  if name.isEmpty then .ok p.functions
  else
    match p.function? name with
    | some f => .ok [f]
    | none => .error (.noFunction name)

def analyzed (f : Function) : Except RunError (Sheet × Liveness) :=
  match (Sheet.ofFunction f).analyze with
  | (s, .ok lv) => .ok (s, lv)
  | (_, .error e) => .error (.analysis f.name e)

def livenessText (f : Function) : Except RunError String := do
  let (s, lv) ← analyzed f
  return lv.text s.function.table

def interferenceText (f : Function) (rf : RegisterFile) : Except RunError String := do
  let (s, lv) ← analyzed f
  let (g, s) := Graph.build s lv rf
  return g.text s.function.table

def coloringText (f : Function) (rf : RegisterFile) : Except RunError String := do
  let (s, lv) ← analyzed f
  let (g, s) := Graph.build s lv rf
  match Coloring.color g s.function rf ∅ with
  | .error e => throw (.coloring e)
  | .ok attempt =>
    match attempt.text s.function.table rf with
    | .error f => throw (.fault f)
    | .ok text => return text

def spillText (f : Function) (rf : RegisterFile) (var : String) : Except RunError String :=
  match (Sheet.ofFunction f).spillByName var { stem := rf.tempPrefix } with
  | (_, _, .error e) => .error (.spill e)
  | (_, _, .ok spilled) => .ok (spilled.function.text ++ "\n")

def artifact (o : Options) (rf : RegisterFile) (f : Function) : Except RunError String :=
  match o.mode with
  | .allocate => .ok ""
  | .liveness => livenessText f
  | .interference => interferenceText f rf
  | .color => coloringText f rf
  | .spill => spillText f rf o.spillVar

def artifacts (o : Options) (rf : RegisterFile) (named : Bool) : List Function → Run
  | [] => {}
  | f :: rest =>
    match artifact o rf f with
    | .error e => { error := some e }
    | .ok text =>
      let run := artifacts o rf named rest
      { run with text := (if named then f.name ++ "\n" else "") ++ text ++ run.text }

def allocation (o : Options) (rf : RegisterFile) (p : Program) : Run :=
  let outcome := p.allocate rf o.threads
  match outcome.progress.errors.combined, outcome.progress.program? p with
  | [], some result =>
    let text :=
      match o.format with
      | .l2 => result.text
      | .json => Interchange.encode result
    { text := text ++ "\n", events := outcome.events }
  | errors, _ => { events := outcome.events, error := some (.allocation errors) }

def run (o : Options) (rf : RegisterFile) (source : String) : Run :=
  match Interchange.decode source (some rf) with
  | .error e => { error := some (.decode e) }
  | .ok p =>
    match o.mode with
    | .allocate => allocation o rf p
    | _ =>
      match selected p o.function with
      | .error e => { error := some e }
      | .ok functions => artifacts o rf (1 < functions.length) functions

end RegisterAllocation.Command
