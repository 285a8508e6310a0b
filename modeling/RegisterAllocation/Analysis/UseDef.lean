import RegisterAllocation.Function

namespace RegisterAllocation

structure UseDef where
  used : VarSet := ∅
  defined : VarSet := ∅

namespace UseDef

-- The stack pointer is part of no set.
def insertUnless (sp : Option VarId) (s : VarSet) (id : VarId) : VarSet :=
  if sp = some id then s else s.insert id

def ids (sp : Option VarId) (vars : List VarId) : VarSet := vars.foldl (insertUnless sp) ∅

def uses (sp : Option VarId) (ops : List Operand) : VarSet := ids sp (ops.filterMap Operand.var?)

def defines (sp : Option VarId) (dst : Operand) : Except Fault VarSet :=
  dst.getVar.map fun id => ids sp [id]

def ofCall (sp : Option VarId) (t : VarTable) (used : VarSet) (arity : Word) :
    Except Fault (UseDef × VarTable) :=
  match t.convention with
  | none => .ok ({ used }, t)
  | some rf =>
    if arity < 0 then .error (.negativeArity arity)
    else
      let (args, t) := t.internAll ((rf.args.take arity.toNatClampNeg).filter (!·.isEmpty))
      let (saved, t) := t.internAll rf.callerSaved
      .ok ({ used := used ∪ ids sp args, defined := Std.ExtTreeSet.ofList saved }, t)

def ofReturn (sp : Option VarId) (t : VarTable) : UseDef × VarTable :=
  match t.convention with
  | none => ({}, t)
  | some rf =>
    let (live, t) := t.internAll ((rf.result :: rf.calleeSaved).filter (!·.isEmpty))
    ({ used := ids sp live }, t)

def ofInstruction (sp : Option VarId) (t : VarTable) (inst : Instruction) :
    Except Fault (UseDef × VarTable) :=
  let writing (read : List Operand) (dst : Operand) : Except Fault (UseDef × VarTable) :=
    (defines sp dst).map fun defined => ({ used := uses sp read, defined }, t)
  let reading (read : List Operand) : Except Fault (UseDef × VarTable) :=
    .ok ({ used := uses sp read }, t)
  match inst with
  | .ret => .ok (ofReturn sp t)
  | .assign dst src => writing [src] dst
  | .load dst base _ => writing [base] dst
  | .store base _ src => reading [src, base]
  | .arith _ dst src => writing [dst, src] dst
  | .loadArith _ dst base _ => writing [dst, base] dst
  | .storeArith _ base _ src => reading [base, src]
  | .compare _ dst left right => writing [left, right] dst
  | .cjump _ left right _ => reading [left, right]
  | .label _ | .goto _ => reading []
  | .call callee arity => ofCall sp t (uses sp [callee]) arity
  | .runtimeCall _ arity => ofCall sp t ∅ arity
  | .increment dst | .decrement dst => writing [dst] dst
  | .lea dst base index _ => writing [base, index] dst
  | .stackArg dst _ => writing [] dst

-- The sets of some instructions in order. Names implied by the calling convention are added to the
-- table on the way; a fault ends the list and keeps what came before it.
def ofBody (sp : Option VarId) (t : VarTable) :
    List Instruction → List UseDef × VarTable × Option Fault
  | [] => ([], t, none)
  | inst :: rest =>
    match ofInstruction sp t inst with
    | .error fault => ([], t, some fault)
    | .ok (set, t) =>
      let (sets, t, fault) := ofBody sp t rest
      (set :: sets, t, fault)

def internStackPointer (t : VarTable) : Option VarId × VarTable :=
  match t.convention with
  | none => (none, t)
  | some rf =>
    if rf.sp.isEmpty then (none, t)
    else
      let (id, t) := t.intern rf.sp
      (some id, t)

end UseDef

def Function.useDefs (f : Function) : List UseDef × VarTable × Option Fault :=
  let (sp, t) := UseDef.internStackPointer f.table
  UseDef.ofBody sp t f.body

end RegisterAllocation
