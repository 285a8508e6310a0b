namespace RegisterAllocation.RuntimeFunction

inductive Arity where
  | fixed (count : Nat)
  | perCall
  deriving DecidableEq, Repr

def arity? (name : String) : Option Arity :=
  match name with
  | "print" => some (.fixed 1)
  | "input" => some (.fixed 0)
  | "allocate" => some (.fixed 2)
  | "tuple-error" => some (.fixed 3)
  | "tensor-error" => some .perCall
  | _ => none

def isTrap (name : String) : Bool := name == "tuple-error" || name == "tensor-error"

end RegisterAllocation.RuntimeFunction
