import RegisterAllocation.Text.Quoted
import RegisterAllocation.Word

namespace RegisterAllocation

-- The settings a register file is made from. A list that is not given differs from an empty one:
-- only a given list replaces the one below it.
structure Config where
  args : Option (List String) := none
  callerSaved : Option (List String) := none
  calleeSaved : Option (List String) := none
  result : String := ""
  sp : String := ""
  allocatable : Option (List String) := none
  retry : Word := 0
  tempPrefix : String := ""
  deriving DecidableEq, Repr

namespace Config

def defaultRetry : Word := 128

def defaultTempPrefix : String := "%S"

def x8664 : Config where
  args := some ["rdi", "rsi", "rdx", "rcx", "r8", "r9"]
  callerSaved := some ["r10", "r11", "r8", "r9", "rax", "rcx", "rdi", "rdx", "rsi"]
  calleeSaved := some ["r12", "r13", "r14", "r15", "rbp", "rbx"]
  result := "rax"
  sp := "rsp"
  retry := defaultRetry
  tempPrefix := defaultTempPrefix

def nonEmptyOr (upper base : String) : String := if upper.isEmpty then base else upper

def merge (base upper : Config) : Config where
  args := upper.args <|> base.args
  callerSaved := upper.callerSaved <|> base.callerSaved
  calleeSaved := upper.calleeSaved <|> base.calleeSaved
  result := nonEmptyOr upper.result base.result
  sp := nonEmptyOr upper.sp base.sp
  allocatable := upper.allocatable <|> base.allocatable
  retry := if 0 < upper.retry then upper.retry else base.retry
  tempPrefix := nonEmptyOr upper.tempPrefix base.tempPrefix

end Config

def isVirtualName (name : String) : Bool := name.startsWith "%"

-- The calling convention of a target with its allocatable registers in color order: the color of a
-- register is its place in `registers`.
structure RegisterFile where
  args : List String
  callerSaved : List String
  calleeSaved : List String
  result : String
  sp : String
  registers : List String
  retry : Nat
  tempPrefix : String
  deriving DecidableEq, Repr

namespace RegisterFile

inductive Flaw where
  | savedTwice (name : String)
  | notRegisterName (name : String)
  | listedTwice (name : String)
  | noRegisters
  | noStackPointer
  | stackPointerAllocatable (name : String)
  | noResult
  | resultNotAllocatable (name : String)
  | notAllocatable (name : String)
  | tempPrefix (text : String)
  deriving DecidableEq, Repr

def Flaw.message : Flaw → String
  | .savedTwice name => s!"register {name} is both caller-saved and callee-saved"
  | .notRegisterName name =>
    "allocatable register " ++ Text.quoted name ++ " is not a register name"
  | .listedTwice name => s!"allocatable register {name} listed more than once"
  | .noRegisters => "no allocatable registers"
  | .noStackPointer => "no stack pointer"
  | .stackPointerAllocatable name => s!"stack pointer {name} must not be allocatable"
  | .noResult => "no result register"
  | .resultNotAllocatable name => s!"result register {name} is not allocatable"
  | .notAllocatable name => s!"register {name} is not allocatable"
  | .tempPrefix text => "spill temporary prefix " ++ Text.quoted text ++ " must start with %"

def colors : List String → List String → List String
  | accepted, [] => accepted
  | accepted, name :: rest =>
    if name.isEmpty || isVirtualName name || accepted.contains name then colors accepted rest
    else colors (accepted ++ [name]) rest

def colorFlaws : List String → List String → List Flaw
  | _, [] => []
  | accepted, name :: rest =>
    if name.isEmpty || isVirtualName name then .notRegisterName name :: colorFlaws accepted rest
    else if accepted.contains name then .listedTwice name :: colorFlaws accepted rest
    else colorFlaws (accepted ++ [name]) rest

def candidates (cfg : Config) : List String :=
  match cfg.allocatable.getD [] with
  | [] => cfg.callerSaved.getD [] ++ cfg.calleeSaved.getD []
  | names => names

def draft (cfg : Config) : RegisterFile where
  args := cfg.args.getD []
  callerSaved := cfg.callerSaved.getD []
  calleeSaved := cfg.calleeSaved.getD []
  result := cfg.result
  sp := cfg.sp
  registers := colors [] (candidates cfg)
  retry := if cfg.retry < 1 then Config.defaultRetry.toNatClampNeg else cfg.retry.toNatClampNeg
  tempPrefix := Config.nonEmptyOr cfg.tempPrefix Config.defaultTempPrefix

def spFlaws (rf : RegisterFile) : List Flaw :=
  if rf.sp.isEmpty then [.noStackPointer]
  else if rf.registers.contains rf.sp then [.stackPointerAllocatable rf.sp]
  else []

def resultFlaws (rf : RegisterFile) : List Flaw :=
  if rf.result.isEmpty then [.noResult]
  else if rf.registers.contains rf.result then []
  else [.resultNotAllocatable rf.result]

def flaws (cfg : Config) : List Flaw :=
  let rf := draft cfg
  (rf.calleeSaved.filter rf.callerSaved.contains).map .savedTwice
    ++ colorFlaws [] (candidates cfg)
    ++ (if rf.registers.isEmpty then [.noRegisters] else [])
    ++ rf.spFlaws
    ++ rf.resultFlaws
    ++ ((rf.args ++ rf.callerSaved ++ rf.calleeSaved).filter fun name =>
        !rf.registers.contains name).map .notAllocatable
    ++ (if isVirtualName rf.tempPrefix then [] else [.tempPrefix rf.tempPrefix])

def ofConfig (cfg : Config) : Except (List Flaw) RegisterFile :=
  match flaws cfg with
  | [] => .ok (draft cfg)
  | found => .error found

def flawsMessage (found : List Flaw) : String :=
  "invalid register file: " ++ "; ".intercalate (found.map Flaw.message)

def k (rf : RegisterFile) : Nat := rf.registers.length

def color? (rf : RegisterFile) (name : String) : Option Nat := rf.registers.idxOf? name

def isRegister (rf : RegisterFile) (name : String) : Bool :=
  name == rf.sp || rf.registers.contains name

def isCallerSaved (rf : RegisterFile) (name : String) : Bool := rf.callerSaved.contains name

end RegisterFile

end RegisterAllocation
