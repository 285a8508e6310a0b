import RegisterAllocation.Variable

namespace RegisterAllocation

inductive Operand where
  | var (id : VarId)
  | num (value : Word)
  | label (symbol : String)
  | name (symbol : String)
  deriving DecidableEq, Repr

namespace Operand

def kind : Operand → OperandKind
  | .var _ => .var
  | .num _ => .num
  | .label _ => .label
  | .name _ => .name

def isVar : Operand → Bool
  | .var _ => true
  | _ => false

def var? : Operand → Option VarId
  | .var id => some id
  | _ => none

def getVar : Operand → Except Fault VarId
  | .var id => .ok id
  | op => .error (.operand op.kind "a variable")

def getNum : Operand → Except Fault Word
  | .num value => .ok value
  | op => .error (.operand op.kind "a number")

def getSymbol : Operand → Except Fault String
  | .label symbol | .name symbol => .ok symbol
  | op => .error (.operand op.kind "a label or function name")

def rename (ρ : VarId → VarId) : Operand → Operand
  | .var id => .var (ρ id)
  | op => op

def text (t : VarTable) : Operand → String
  | .var id => t.nameOf id
  | .num value => value.text
  | .label symbol | .name symbol => symbol

end Operand

end RegisterAllocation
