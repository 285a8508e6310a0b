import RegisterAllocation.Fault
import RegisterAllocation.RegisterFile
import Std.Data.ExtTreeSet

namespace RegisterAllocation

inductive VariableKind where
  | virtual | physical
  deriving DecidableEq, Repr

namespace VariableKind

def text : VariableKind → String
  | .virtual => "virtual"
  | .physical => "physical"

-- Only the number of the physical kind names it; every other number is virtual.
def ofCode (n : Nat) : VariableKind := if n = 1 then .physical else .virtual

end VariableKind

structure Variable where
  name : String
  kind : VariableKind
  deriving DecidableEq, Repr

def Variable.isRegister (v : Variable) : Bool := v.kind == .physical

abbrev VarId := Nat

abbrev VarSet := Std.ExtTreeSet VarId

-- The variables of a function in the order they were first mentioned. A calling convention, if
-- there is one, decides which names are registers.
structure VarTable where
  vars : List Variable := []
  convention : Option RegisterFile := none
  deriving DecidableEq, Repr

namespace VarTable

def size (t : VarTable) : Nat := t.vars.length

def names (t : VarTable) : List String := t.vars.map Variable.name

def id? (t : VarTable) (name : String) : Option VarId := t.vars.findIdx? fun v => v.name == name

def kindOf (t : VarTable) (name : String) : VariableKind :=
  match t.convention with
  | some rf => if rf.isRegister name then .physical else .virtual
  | none => .virtual

def intern (t : VarTable) (name : String) : VarId × VarTable :=
  match t.id? name with
  | some id => (id, t)
  | none => (t.size, { t with vars := t.vars ++ [⟨name, t.kindOf name⟩] })

def internAll (t : VarTable) : List String → List VarId × VarTable
  | [] => ([], t)
  | name :: rest =>
    let (id, t) := t.intern name
    let (ids, t) := t.internAll rest
    (id :: ids, t)

def get (t : VarTable) (id : Int) : Except Fault Variable :=
  match id with
  | .ofNat n => match t.vars[n]? with
    | some v => .ok v
    | none => .error (.noVariable id t.size)
  | .negSucc _ => .error (.noVariable id t.size)

-- Operands only hold numbers of their own table, so the default is never shown.
def nameOf (t : VarTable) (id : VarId) : String := (t.vars[id]?.map Variable.name).getD ""

def isRegister (t : VarTable) (id : VarId) : Bool := (t.vars[id]?.map Variable.isRegister).getD false

def sortNames (names : List String) : List String := names.mergeSort fun a b => decide (a ≤ b)

def namesOf (t : VarTable) (ids : List Int) : Except Fault (List String) :=
  (ids.mapM fun id => (t.get id).map Variable.name).map sortNames

end VarTable

namespace VarSet

def names (s : VarSet) (t : VarTable) : List String := VarTable.sortNames (s.toList.map t.nameOf)

def text (s : VarSet) (t : VarTable) : String := " ".intercalate (s.names t)

end VarSet

end RegisterAllocation
