import RegisterAllocation.Instruction

namespace RegisterAllocation

-- A function of L2. `locals` counts the stack slots it reserves, and `spilled` holds the names of
-- the variables that already live in one.
structure Function where
  name : String
  args : Word := 0
  locals : Word := 0
  body : List Instruction := []
  table : VarTable := {}
  spilled : Std.ExtTreeSet String := ∅

namespace Function

def empty (name : String) (args : Word) (convention : Option RegisterFile) : Function where
  name := name
  args := args
  table := { convention := convention }

def convention (f : Function) : Option RegisterFile := f.table.convention

def append (f : Function) (insts : List Instruction) : Function :=
  { f with body := f.body ++ insts }

def derive (f : Function) : Function := { f with body := [] }

-- The offset of a slot is counted in words and wraps around with them.
def slotOffset (f : Function) : Word := f.locals * Word.bytes

def allocSlot (f : Function) : Word × Function := (f.slotOffset, { f with locals := f.locals + 1 })

def markSpilled (f : Function) (name : String) : Function :=
  { f with spilled := f.spilled.insert name }

def isSpilled (f : Function) (name : String) : Bool := f.spilled.contains name

def intern (f : Function) (name : String) : VarId × Function :=
  let (id, table) := f.table.intern name
  (id, { f with table := table })

def text (f : Function) : String :=
  let lines := f.body.map fun inst => "\t" ++ inst.text f.table ++ "\n"
  "(" ++ f.name ++ " " ++ f.args.text ++ " " ++ f.locals.text ++ "\n" ++ String.join lines ++ ")"

end Function

structure Program where
  entry : String := ""
  functions : List Function := []

namespace Program

def function? (p : Program) (name : String) : Option Function :=
  p.functions.find? fun f => f.name == name

def text (p : Program) : String :=
  "(" ++ p.entry ++ "\n" ++ String.join (p.functions.map fun f => f.text ++ "\n") ++ ")"

end Program

end RegisterAllocation
