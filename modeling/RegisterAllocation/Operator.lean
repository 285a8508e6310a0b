import RegisterAllocation.Word

namespace RegisterAllocation

-- The operator of a two-address instruction `w op= t`. Operators are numbered in the order listed;
-- a number past the last one stands for itself.
inductive ArithOp where
  | add | sub | mul | bitAnd | shiftLeft | shiftRight
  | other (code : Nat)
  deriving DecidableEq, Repr

namespace ArithOp

def all : List ArithOp := [.add, .sub, .mul, .bitAnd, .shiftLeft, .shiftRight]

def ofCode (n : Nat) : ArithOp := all[n]?.getD (.other n)

def code : ArithOp → Nat
  | .add => 0
  | .sub => 1
  | .mul => 2
  | .bitAnd => 3
  | .shiftLeft => 4
  | .shiftRight => 5
  | .other n => n

def symbol : ArithOp → String
  | .add => "+="
  | .sub => "-="
  | .mul => "*="
  | .bitAnd => "&="
  | .shiftLeft => "<<="
  | .shiftRight => ">>="
  | .other n => s!"aop({n})"

def ofSymbol? (s : String) : Option ArithOp := all.find? fun op => op.symbol == s

def isShift : ArithOp → Bool
  | .shiftLeft | .shiftRight => true
  | _ => false

theorem ofCode_code (op : ArithOp) (listed : op ∈ all) : ofCode op.code = op := by
  simp only [all, List.mem_cons, List.not_mem_nil, or_false] at listed
  rcases listed with rfl | rfl | rfl | rfl | rfl | rfl <;> rfl

theorem ofSymbol?_symbol (op : ArithOp) (listed : op ∈ all) : ofSymbol? op.symbol = some op := by
  simp only [all, List.mem_cons, List.not_mem_nil, or_false] at listed
  rcases listed with rfl | rfl | rfl | rfl | rfl | rfl <;> rfl

end ArithOp

inductive Relation where
  | less | lessEqual | equal
  | other (code : Nat)
  deriving DecidableEq, Repr

namespace Relation

def all : List Relation := [.less, .lessEqual, .equal]

def ofCode (n : Nat) : Relation := all[n]?.getD (.other n)

def code : Relation → Nat
  | .less => 0
  | .lessEqual => 1
  | .equal => 2
  | .other n => n

def symbol : Relation → String
  | .less => "<"
  | .lessEqual => "<="
  | .equal => "="
  | .other n => s!"cmp({n})"

def ofSymbol? (s : String) : Option Relation := all.find? fun rel => rel.symbol == s

def holds (rel : Relation) (a b : Word) : Bool :=
  match rel with
  | .less => a < b
  | .lessEqual => a ≤ b
  | .equal | .other _ => a == b

theorem ofCode_code (rel : Relation) (listed : rel ∈ all) : ofCode rel.code = rel := by
  simp only [all, List.mem_cons, List.not_mem_nil, or_false] at listed
  rcases listed with rfl | rfl | rfl <;> rfl

theorem ofSymbol?_symbol (rel : Relation) (listed : rel ∈ all) :
    ofSymbol? rel.symbol = some rel := by
  simp only [all, List.mem_cons, List.not_mem_nil, or_false] at listed
  rcases listed with rfl | rfl | rfl <;> rfl

end Relation

end RegisterAllocation
