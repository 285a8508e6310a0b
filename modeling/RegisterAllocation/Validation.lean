import RegisterAllocation.Function

namespace RegisterAllocation

inductive Role where
  | destination | source | base | index | left | right | callee
  deriving DecidableEq, Repr

namespace Role

def text : Role → String
  | .destination => "destination"
  | .source => "source"
  | .base => "base"
  | .index => "index"
  | .left => "left operand"
  | .right => "right operand"
  | .callee => "callee"

def field : Role → String
  | .destination => "dst"
  | .source => "src"
  | .base => "base"
  | .index => "index"
  | .left => "left"
  | .right => "right"
  | .callee => "callee"

end Role

inductive Flaw where
  | functionName (name : String)
  | negativeArgs (count : Word)
  | duplicateLabel (name : String)
  | undefinedLabel (name : String)
  | notVariable (role : Role) (found : OperandKind)
  | notValue (role : Role) (found : OperandKind)
  | notCallee (found : OperandKind)
  | variableName (name : String)
  | labelName (name : String)
  | misaligned (offset : Word)
  | shiftReadsMemory (op : ArithOp)
  | shiftWritesMemory (op : ArithOp)
  | negativeArity (arity : Word)
  | unknownRuntime (name : String)
  | runtimeArity (name : String) (takes : Nat) (got : Word)
  | errorArity (name : String) (got : Word)
  | scale (scale : Word)
  | negativeStackArg (offset : Word)
  | unknownInstruction (name : String)
  | unknownArith (symbol : String)
  | unknownRelation (symbol : String)
  | missingOperand (role : Role)
  | ambiguousOperand (role : Role)
  deriving DecidableEq, Repr

def Flaw.message : Flaw → String
  | .functionName name => "function name " ++ Text.quoted name ++ " must start with @"
  | .negativeArgs count => "negative argument count " ++ count.text
  | .duplicateLabel name => s!"label {name} defined more than once"
  | .undefinedLabel name => s!"branch to undefined label {name}"
  | .notVariable role found => s!"{role.text} must be a variable, got {found.text}"
  | .notValue role found => s!"{role.text} must be a variable or a number, got {found.text}"
  | .notCallee found => s!"callee must be a variable or a function name, got {found.text}"
  | .variableName name => Text.quoted name ++ " is neither a register nor a variable"
  | .labelName name => "label " ++ Text.quoted name ++ " must start with :"
  | .misaligned offset => "offset " ++ offset.text ++ " is not a multiple of 8"
  | .shiftReadsMemory op => s!"shift {op.symbol} cannot read memory"
  | .shiftWritesMemory op => s!"shift {op.symbol} cannot write memory"
  | .negativeArity arity => "negative arity " ++ arity.text
  | .unknownRuntime name => s!"unknown runtime function {name}"
  | .runtimeArity name takes got =>
    s!"runtime function {name} takes {takes} arguments, got " ++ got.text
  | .errorArity name got => s!"runtime function {name} takes 1, 3 or 4 arguments, got " ++ got.text
  | .scale factor => "scale must be 1, 2, 4 or 8, got " ++ factor.text
  | .negativeStackArg offset => "negative stack argument offset " ++ offset.text
  | .unknownInstruction name => "unknown instruction " ++ Text.quoted name
  | .unknownArith symbol => "unknown arithmetic operator " ++ Text.quoted symbol
  | .unknownRelation symbol => "unknown comparison operator " ++ Text.quoted symbol
  | .missingOperand role => s!"missing operand {role.field}"
  | .ambiguousOperand role =>
    s!"operand {role.field} must have exactly one of var, reg, num, label or name"

inductive Problem where
  | duplicateFunction (name : String)
  | missingEntry (name : String)
  | inFunction (function : String) (index : Nat) (flaw : Flaw)
  deriving DecidableEq, Repr

def Problem.message : Problem → String
  | .duplicateFunction name => s!"function {name} defined more than once"
  | .missingEntry name => s!"entry function {name} is not defined"
  | .inFunction function index flaw =>
    s!"function {function}, instruction {index}: " ++ flaw.message

namespace Validation

def spelling (t : VarTable) : Operand → List Flaw
  | .var id =>
    if t.isRegister id || isVirtualName (t.nameOf id) then [] else [.variableName (t.nameOf id)]
  | .num _ => []
  | .label symbol => if symbol.startsWith ":" then [] else [.labelName symbol]
  | .name symbol => if symbol.startsWith "@" then [] else [.functionName symbol]

def variableFlaws (t : VarTable) (role : Role) (op : Operand) : List Flaw :=
  if op.isVar then spelling t op else [.notVariable role op.kind]

def valueFlaws (t : VarTable) (role : Role) (op : Operand) : List Flaw :=
  match op with
  | .var _ | .num _ => spelling t op
  | _ => [.notValue role op.kind]

def calleeFlaws (t : VarTable) (op : Operand) : List Flaw :=
  match op with
  | .var _ | .name _ => spelling t op
  | _ => [.notCallee op.kind]

def aligned (offset : Word) : List Flaw := if offset % Word.bytes = 0 then [] else [.misaligned offset]

def runtimeFlaws (function : String) (arity : Word) : List Flaw :=
  match RuntimeFunction.arity? function with
  | none => [.unknownRuntime function]
  | some (.fixed takes) =>
    if arity.toInt = takes then [] else [.runtimeArity function takes arity]
  | some .perCall => if arity ∈ [1, 3, 4] then [] else [.errorArity function arity]

def instruction (t : VarTable) (inst : Instruction) : List Flaw :=
  match inst with
  | .ret | .goto _ => []
  | .assign dst src => variableFlaws t .destination dst ++ spelling t src
  | .load dst base offset => variableFlaws t .destination dst ++ variableFlaws t .base base ++ aligned offset
  | .store base offset src => variableFlaws t .base base ++ aligned offset ++ spelling t src
  | .arith _ dst src => variableFlaws t .destination dst ++ valueFlaws t .source src
  | .loadArith op dst base offset =>
    variableFlaws t .destination dst ++ variableFlaws t .base base ++ aligned offset
      ++ (if op.isShift then [.shiftReadsMemory op] else [])
  | .storeArith op base offset src =>
    variableFlaws t .base base ++ aligned offset ++ valueFlaws t .source src
      ++ (if op.isShift then [.shiftWritesMemory op] else [])
  | .compare _ dst left right =>
    variableFlaws t .destination dst ++ valueFlaws t .left left ++ valueFlaws t .right right
  | .cjump _ left right _ => valueFlaws t .left left ++ valueFlaws t .right right
  | .label symbol => if symbol.startsWith ":" then [] else [.labelName symbol]
  | .call callee arity =>
    calleeFlaws t callee ++ (if arity < 0 then [.negativeArity arity] else [])
  | .runtimeCall function arity => runtimeFlaws function arity
  | .increment dst | .decrement dst => variableFlaws t .destination dst
  | .lea dst base index scale =>
    variableFlaws t .destination dst ++ variableFlaws t .base base ++ variableFlaws t .index index
      ++ (if scale ∈ [1, 2, 4, 8] then [] else [.scale scale])
  | .stackArg dst offset =>
    variableFlaws t .destination dst ++ (if offset < 0 then [.negativeStackArg offset] else [])
      ++ aligned offset

def definesLabel (body : List Instruction) (name : String) : Bool :=
  body.any fun inst => inst = .label name

def headFlaws (f : Function) : List Flaw :=
  (if f.name.startsWith "@" then [] else [.functionName f.name])
    ++ (if f.args < 0 then [.negativeArgs f.args] else [])

def duplicateLabels : List String → Nat → List Instruction → List (Nat × Flaw)
  | _, _, [] => []
  | seen, i, .label name :: rest =>
    (if seen.contains name then [(i, .duplicateLabel name)] else [])
      ++ duplicateLabels (name :: seen) (i + 1) rest
  | seen, i, _ :: rest => duplicateLabels seen (i + 1) rest

def branchFlaws (body : List Instruction) (inst : Instruction) : List Flaw :=
  match inst.target? with
  | none => []
  | some target => if definesLabel body target then [] else [.undefinedLabel target]

def bodyFlaws (f : Function) : List (Nat × Flaw) :=
  f.body.zipIdx.flatMap fun (inst, i) =>
    (instruction f.table inst ++ branchFlaws f.body inst).map fun flaw => (i, flaw)

end Validation

def Function.problems (f : Function) : List Problem :=
  ((Validation.headFlaws f).map (fun flaw => (0, flaw))
    ++ Validation.duplicateLabels [] 0 f.body ++ Validation.bodyFlaws f).map
      fun (i, flaw) => .inFunction f.name i flaw

namespace Program

def functionProblems : List String → List Function → List Problem
  | _, [] => []
  | seen, f :: rest =>
    (if seen.contains f.name then [.duplicateFunction f.name] else [])
      ++ f.problems ++ functionProblems (f.name :: seen) rest

def problems (p : Program) : List Problem :=
  functionProblems [] p.functions
    ++ (if p.entry.isEmpty || (p.functions.any fun f => f.name == p.entry) then []
        else [.missingEntry p.entry])

end Program

end RegisterAllocation
