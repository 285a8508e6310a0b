import RegisterAllocation.Operand
import RegisterAllocation.Operator
import RegisterAllocation.RuntimeFunction

namespace RegisterAllocation

inductive InstructionKind where
  | ret | assign | load | store | arith | loadArith | storeArith | compare | cjump | label | goto
  | call | runtimeCall | increment | decrement | lea | stackArg
  deriving DecidableEq, Repr

namespace InstructionKind

def all : List InstructionKind :=
  [.ret, .assign, .load, .store, .arith, .loadArith, .storeArith, .compare, .cjump, .label, .goto,
    .call, .runtimeCall, .increment, .decrement, .lea, .stackArg]

def text : InstructionKind → String
  | .ret => "return"
  | .assign => "assign"
  | .load => "load"
  | .store => "store"
  | .arith => "arith"
  | .loadArith => "load-arith"
  | .storeArith => "store-arith"
  | .compare => "compare"
  | .cjump => "cjump"
  | .label => "label"
  | .goto => "goto"
  | .call => "call"
  | .runtimeCall => "runtime-call"
  | .increment => "increment"
  | .decrement => "decrement"
  | .lea => "lea"
  | .stackArg => "stack-arg"

def ofText? (s : String) : Option InstructionKind := all.find? fun kind => kind.text == s

def code (kind : InstructionKind) : Nat := all.idxOf kind

def textOfCode (n : Nat) : String :=
  match all[n]? with
  | some kind => kind.text
  | none => s!"instruction({n})"

theorem ofText?_text (kind : InstructionKind) : ofText? kind.text = some kind := by
  cases kind <;> rfl

end InstructionKind

-- The instructions of L2. Memory is read and written at a base and a byte offset, and the first
-- operand of a two-address instruction is both read and written.
inductive Instruction where
  | ret
  | assign (dst src : Operand)
  | load (dst base : Operand) (offset : Word)
  | store (base : Operand) (offset : Word) (src : Operand)
  | arith (op : ArithOp) (dst src : Operand)
  | loadArith (op : ArithOp) (dst base : Operand) (offset : Word)
  | storeArith (op : ArithOp) (base : Operand) (offset : Word) (src : Operand)
  | compare (rel : Relation) (dst left right : Operand)
  | cjump (rel : Relation) (left right : Operand) (target : String)
  | label (symbol : String)
  | goto (target : String)
  | call (callee : Operand) (arity : Word)
  | runtimeCall (function : String) (arity : Word)
  | increment (dst : Operand)
  | decrement (dst : Operand)
  | lea (dst base index : Operand) (scale : Word)
  | stackArg (dst : Operand) (offset : Word)
  deriving DecidableEq, Repr

namespace Instruction

def kind : Instruction → InstructionKind
  | .ret => .ret
  | .assign .. => .assign
  | .load .. => .load
  | .store .. => .store
  | .arith .. => .arith
  | .loadArith .. => .loadArith
  | .storeArith .. => .storeArith
  | .compare .. => .compare
  | .cjump .. => .cjump
  | .label _ => .label
  | .goto _ => .goto
  | .call .. => .call
  | .runtimeCall .. => .runtimeCall
  | .increment _ => .increment
  | .decrement _ => .decrement
  | .lea .. => .lea
  | .stackArg .. => .stackArg

def runtime (function : String) (arity : Word) : Instruction :=
  match RuntimeFunction.arity? function with
  | some (.fixed count) => .runtimeCall function (Int64.ofNat count)
  | _ => .runtimeCall function arity

def mapOperands (f : Operand → Operand) : Instruction → Instruction
  | .ret => .ret
  | .assign dst src => .assign (f dst) (f src)
  | .load dst base offset => .load (f dst) (f base) offset
  | .store base offset src => .store (f base) offset (f src)
  | .arith op dst src => .arith op (f dst) (f src)
  | .loadArith op dst base offset => .loadArith op (f dst) (f base) offset
  | .storeArith op base offset src => .storeArith op (f base) offset (f src)
  | .compare rel dst left right => .compare rel (f dst) (f left) (f right)
  | .cjump rel left right target => .cjump rel (f left) (f right) target
  | .label symbol => .label symbol
  | .goto target => .goto target
  | .call callee arity => .call (f callee) arity
  | .runtimeCall function arity => .runtimeCall function arity
  | .increment dst => .increment (f dst)
  | .decrement dst => .decrement (f dst)
  | .lea dst base index scale => .lea (f dst) (f base) (f index) scale
  | .stackArg dst offset => .stackArg (f dst) offset

def operands : Instruction → List Operand
  | .ret | .label _ | .goto _ | .runtimeCall .. => []
  | .assign dst src | .arith _ dst src => [dst, src]
  | .load dst base _ | .loadArith _ dst base _ => [dst, base]
  | .store base _ src | .storeArith _ base _ src => [base, src]
  | .compare _ dst left right => [dst, left, right]
  | .cjump _ left right _ => [left, right]
  | .call callee _ => [callee]
  | .increment dst | .decrement dst | .stackArg dst _ => [dst]
  | .lea dst base index _ => [dst, base, index]

def rename (ρ : VarId → VarId) (inst : Instruction) : Instruction := inst.mapOperands (·.rename ρ)

def isTerminal : Instruction → Bool
  | .ret | .goto _ => true
  | .runtimeCall function _ => RuntimeFunction.isTrap function
  | _ => false

def isCall : Instruction → Bool
  | .call .. | .runtimeCall .. => true
  | _ => false

def target? : Instruction → Option String
  | .goto target | .cjump _ _ _ target => some target
  | _ => none

theorem mapOperands_id (inst : Instruction) : inst.mapOperands id = inst := by
  cases inst <;> rfl

theorem mapOperands_mapOperands (f g : Operand → Operand) (inst : Instruction) :
    (inst.mapOperands g).mapOperands f = inst.mapOperands (f ∘ g) := by
  cases inst <;> rfl

theorem kind_mapOperands (f : Operand → Operand) (inst : Instruction) :
    (inst.mapOperands f).kind = inst.kind := by
  cases inst <;> rfl

theorem operands_mapOperands (f : Operand → Operand) (inst : Instruction) :
    (inst.mapOperands f).operands = inst.operands.map f := by
  cases inst <;> rfl

theorem target?_mapOperands (f : Operand → Operand) (inst : Instruction) :
    (inst.mapOperands f).target? = inst.target? := by
  cases inst <;> rfl

def text (t : VarTable) (inst : Instruction) : String :=
  match inst with
  | .ret => "return"
  | .assign dst src => dst.text t ++ " <- " ++ src.text t
  | .load dst base offset => dst.text t ++ " <- mem " ++ base.text t ++ " " ++ offset.text
  | .store base offset src => "mem " ++ base.text t ++ " " ++ offset.text ++ " <- " ++ src.text t
  | .arith op dst src => dst.text t ++ " " ++ op.symbol ++ " " ++ src.text t
  | .loadArith op dst base offset =>
    dst.text t ++ " " ++ op.symbol ++ " mem " ++ base.text t ++ " " ++ offset.text
  | .storeArith op base offset src =>
    "mem " ++ base.text t ++ " " ++ offset.text ++ " " ++ op.symbol ++ " " ++ src.text t
  | .compare rel dst left right =>
    dst.text t ++ " <- " ++ left.text t ++ " " ++ rel.symbol ++ " " ++ right.text t
  | .cjump rel left right target =>
    "cjump " ++ left.text t ++ " " ++ rel.symbol ++ " " ++ right.text t ++ " " ++ target
  | .label symbol => symbol
  | .goto target => "goto " ++ target
  | .call callee arity => "call " ++ callee.text t ++ " " ++ arity.text
  | .runtimeCall function arity => "call " ++ function ++ " " ++ arity.text
  | .increment dst => dst.text t ++ "++"
  | .decrement dst => dst.text t ++ "--"
  | .lea dst base index scale =>
    dst.text t ++ " @ " ++ base.text t ++ " " ++ index.text t ++ " " ++ scale.text
  | .stackArg dst offset => dst.text t ++ " <- stack-arg " ++ offset.text

end Instruction

end RegisterAllocation
