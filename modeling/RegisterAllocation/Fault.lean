import RegisterAllocation.Word

namespace RegisterAllocation

inductive OperandKind where
  | var | num | label | name
  deriving DecidableEq, Repr

namespace OperandKind

def all : List OperandKind := [.var, .num, .label, .name]

def text : OperandKind → String
  | .var => "var"
  | .num => "num"
  | .label => "label"
  | .name => "name"

def textOfCode (n : Nat) : String :=
  match all[n]? with
  | some kind => kind.text
  | none => s!"item({n})"

end OperandKind

-- A request that breaks the contract of the operation it is made to. The first three are reported
-- in words; the last two leave the tables they index without a word.
inductive Fault where
  | operand (found : OperandKind) (expected : String)
  | noVariable (id : Int) (count : Nat)
  | noColor (color : Int) (count : Nat)
  | negativeArity (arity : Word)
  | colorBeyondFile (color count : Nat)
  deriving DecidableEq, Repr

def Fault.message? : Fault → Option String
  | .operand found expected => some s!"operand is a {found.text}, expected {expected}"
  | .noVariable id count => some s!"variable {id} not in table of {count} variables"
  | .noColor color count => some s!"colour {color} out of range [0, {count})"
  | .negativeArity _ | .colorBeyondFile _ _ => none

end RegisterAllocation
