import RegisterAllocation.Analysis.Sheet
import RegisterAllocation.NameSequence

namespace RegisterAllocation

inductive SpillError where
  | register (function name : String)
  | alreadySpilled (function name : String)
  | noStackPointer (function name : String)
  | noVariable (function name : String)
  | fault (fault : Fault)
  deriving DecidableEq, Repr

def SpillError.message? : SpillError → Option String
  | .register function name => some s!"function {function}: cannot spill register {name}"
  | .alreadySpilled function name => some s!"function {function}: variable already spilled: {name}"
  | .noStackPointer function name =>
    some s!"function {function}: cannot spill {name} without a stack pointer"
  | .noVariable function name => some s!"function {function}: no variable {name}"
  | .fault f => f.message?

structure Spilled where
  function : Function
  temps : List String

namespace Spill

structure Slot where
  sp : VarId
  offset : Word

-- An instruction on a temporary in place of `v`. The slot is read before an instruction that reads
-- `v` and written after one that writes it.
def around (v tmp : VarId) (slot : Slot) (inst : Instruction) (reads writes : Bool) :
    List Instruction :=
  (if reads then [.load (.var tmp) (.var slot.sp) slot.offset] else [])
    ++ [inst.rename fun id => if id = v then tmp else id]
    ++ (if writes then [.store (.var slot.sp) slot.offset (.var tmp)] else [])

structure Moved where
  body : List Instruction := []
  temps : List String := []
  table : VarTable
  names : NameSequence

def moveOut (v : VarId) (slot : Slot) (t : VarTable) (names : NameSequence) :
    List (Instruction × UseDef) → Moved
  | [] => { table := t, names := names }
  | (inst, set) :: rest =>
    let reads := set.used.contains v
    let writes := set.defined.contains v
    if !reads && !writes then
      let r := moveOut v slot t names rest
      { r with body := inst :: r.body }
    else
      let (name, names) := names.draw t.names
      let (tmp, t) := t.intern name
      let r := moveOut v slot t names rest
      { r with body := around v tmp slot inst reads writes ++ r.body, temps := name :: r.temps }

def check (f : Function) (v : Variable) : Except SpillError String :=
  if v.isRegister then .error (.register f.name v.name)
  else if f.isSpilled v.name then .error (.alreadySpilled f.name v.name)
  else
    match f.convention with
    | none => .error (.noStackPointer f.name v.name)
    | some rf => if rf.sp.isEmpty then .error (.noStackPointer f.name v.name) else .ok rf.sp

def move (s : Sheet) (v : VarId) (name sp : String) (names : NameSequence) :
    Spilled × NameSequence :=
  let (offset, d) := s.function.derive.allocSlot
  let (spId, d) := d.intern sp
  let r := moveOut v ⟨spId, offset⟩ d.table names (s.function.body.zip (s.notes.map Note.toUseDef))
  let d := { d with body := r.body, table := r.table }
  ({ function := d.markSpilled name, temps := r.temps }, r.names)

end Spill

-- Spills the variable with a number. The sheet that comes back has its sets written; the names
-- drawn are gone from the sequence.
def Sheet.spill (s : Sheet) (id : Int) (names : NameSequence) :
    Sheet × NameSequence × Except SpillError Spilled :=
  match s.function.table.get id with
  | .error fault => (s, names, .error (.fault fault))
  | .ok v =>
    match Spill.check s.function v with
    | .error e => (s, names, .error e)
    | .ok sp =>
      match s.resolve with
      | (s, some fault) => (s, names, .error (.fault fault))
      | (s, none) =>
        let (spilled, names) := Spill.move s id.toNat v.name sp names
        (s, names, .ok spilled)

def Sheet.spillByName (s : Sheet) (name : String) (names : NameSequence) :
    Sheet × NameSequence × Except SpillError Spilled :=
  match s.function.table.id? name with
  | none => (s, names, .error (.noVariable s.function.name name))
  | some id => s.spill id names

end RegisterAllocation
