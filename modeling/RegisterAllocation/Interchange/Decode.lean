import RegisterAllocation.Interchange.Draft
import RegisterAllocation.Json.Reader
import RegisterAllocation.Validation

namespace RegisterAllocation.Interchange

inductive DecodeError where
  | malformed
  | problems (found : List Problem)
  deriving DecidableEq, Repr

def decodePrefix : String := "could not decode program: "

def DecodeError.message : DecodeError → String
  | .malformed => decodePrefix ++ "malformed interchange form"
  | .problems found => "; ".intercalate (found.map Problem.message)

structure Reading where
  table : VarTable
  flaws : List Flaw := []

abbrev Reader := StateM Reading

namespace Reader

def flaw (e : Flaw) : Reader Unit := modify fun r => { r with flaws := r.flaws ++ [e] }

def intern (name : String) : Reader Operand := do
  let (id, t) := (← get).table.intern name
  modify fun r => { r with table := t }
  return .var id

-- Flawed operands read as the number zero.
def zero : Operand := .num 0

-- Reads an operand. Every name it mentions enters the table, even if the operand is refused.
def operand (role : Role) : Option OperandDraft → Reader Operand
  | none => do
    flaw (.missingOperand role)
    return zero
  | some d => do
    let var ← d.var.mapM intern
    let reg ← d.reg.mapM intern
    let given := [var, reg, d.num.map .num, d.label.map .label, d.name.map .name].filterMap id
    match given with
    | [op] => return op
    | _ => do
      flaw (.ambiguousOperand role)
      return zero

def arithOp (symbol : String) : Reader ArithOp :=
  match ArithOp.ofSymbol? symbol with
  | some op => return op
  | none => do
    flaw (.unknownArith symbol)
    return .add

def relation (symbol : String) : Reader Relation :=
  match Relation.ofSymbol? symbol with
  | some rel => return rel
  | none => do
    flaw (.unknownRelation symbol)
    return .less

def ofKind (kind : InstructionKind) (d : InstructionDraft) : Reader Instruction :=
  match kind with
  | .ret => return .ret
  | .assign => return .assign (← operand .destination d.dst) (← operand .source d.src)
  | .load => return .load (← operand .destination d.dst) (← operand .base d.base) d.offset
  | .store => do
    let base ← operand .base d.base
    return .store base d.offset (← operand .source d.src)
  | .arith => do
    let op ← arithOp d.operator
    return .arith op (← operand .destination d.dst) (← operand .source d.src)
  | .loadArith => do
    let op ← arithOp d.operator
    return .loadArith op (← operand .destination d.dst) (← operand .base d.base) d.offset
  | .storeArith => do
    let op ← arithOp d.operator
    let base ← operand .base d.base
    return .storeArith op base d.offset (← operand .source d.src)
  | .compare => do
    let rel ← relation d.operator
    let dst ← operand .destination d.dst
    return .compare rel dst (← operand .left d.left) (← operand .right d.right)
  | .cjump => do
    let rel ← relation d.operator
    return .cjump rel (← operand .left d.left) (← operand .right d.right) d.label
  | .label => return .label d.label
  | .goto => return .goto d.label
  | .call => return .call (← operand .callee d.callee) d.arity
  | .runtimeCall => return .runtimeCall d.runtime d.arity
  | .increment => return .increment (← operand .destination d.dst)
  | .decrement => return .decrement (← operand .destination d.dst)
  | .lea => do
    let dst ← operand .destination d.dst
    return .lea dst (← operand .base d.base) (← operand .index d.index) d.scale
  | .stackArg => return .stackArg (← operand .destination d.dst) d.offset

def instruction (d : InstructionDraft) : Reader (Option Instruction) :=
  match InstructionKind.ofText? d.op with
  | none => do
    flaw (.unknownInstruction d.op)
    return none
  | some kind => return some (← ofKind kind d)

end Reader

def readBody (name : String) (t : VarTable) :
    Nat → List InstructionDraft → List Instruction × VarTable × List Problem
  | _, [] => ([], t, [])
  | i, d :: rest =>
    let (inst, reading) := (Reader.instruction d).run { table := t }
    let (body, t, problems) := readBody name reading.table (i + 1) rest
    (inst.toList ++ body, t, reading.flaws.map (.inFunction name i) ++ problems)

def readFunction (convention : Option RegisterFile) (d : FunctionDraft) :
    Function × List Problem :=
  let (body, t, problems) := readBody d.name { convention := convention } 0 d.instructions.items
  ({ name := d.name
     args := d.args
     locals := d.locals
     body := body
     table := t
     spilled := Std.ExtTreeSet.ofList d.spilled.items }, problems)

def readProgram (convention : Option RegisterFile) (d : ProgramDraft) : Program × List Problem :=
  let read := d.functions.items.map (readFunction convention)
  ({ entry := d.entry, functions := read.map Prod.fst }, (read.map Prod.snd).flatten)

def ofDraft (convention : Option RegisterFile) (d : ProgramDraft) : Except DecodeError Program :=
  match readProgram convention d with
  | (p, []) =>
    match p.problems with
    | [] => .ok p
    | found => .error (.problems found)
  | (_, found) => .error (.problems found)

def decode (text : String) (convention : Option RegisterFile) : Except DecodeError Program :=
  match (Json.parse? text).bind ProgramDraft.ofJson? with
  | none => .error .malformed
  | some d => ofDraft convention d

end RegisterAllocation.Interchange
