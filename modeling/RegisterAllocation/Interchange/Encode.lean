import RegisterAllocation.Function
import RegisterAllocation.Json.Writer

namespace RegisterAllocation.Interchange

def operandJson (t : VarTable) : Operand → Json
  | .var id =>
    if t.isRegister id then .obj [("reg", .str (t.nameOf id))]
    else .obj [("var", .str (t.nameOf id))]
  | .num value => .obj [("num", .int value.toInt)]
  | .label symbol => .obj [("label", .str symbol)]
  | .name symbol => .obj [("name", .str symbol)]

-- Zero and the empty text are what a missing field reads as, so they are not written.
def wordField (key : String) (w : Word) : List (String × Json) :=
  if w = 0 then [] else [(key, .int w.toInt)]

def textField (key : String) (s : String) : List (String × Json) :=
  if s.isEmpty then [] else [(key, .str s)]

def instructionFields (t : VarTable) (inst : Instruction) : List (String × Json) :=
  let put (key : String) (op : Operand) : List (String × Json) := [(key, operandJson t op)]
  match inst with
  | .ret => []
  | .assign dst src => put "dst" dst ++ put "src" src
  | .load dst base offset => put "dst" dst ++ put "base" base ++ wordField "offset" offset
  | .store base offset src => put "src" src ++ put "base" base ++ wordField "offset" offset
  | .arith op dst src => textField "operator" op.symbol ++ put "dst" dst ++ put "src" src
  | .loadArith op dst base offset =>
    textField "operator" op.symbol ++ put "dst" dst ++ put "base" base ++ wordField "offset" offset
  | .storeArith op base offset src =>
    textField "operator" op.symbol ++ put "src" src ++ put "base" base ++ wordField "offset" offset
  | .compare rel dst left right =>
    textField "operator" rel.symbol ++ put "dst" dst ++ put "left" left ++ put "right" right
  | .cjump rel left right target =>
    textField "operator" rel.symbol ++ put "left" left ++ put "right" right
      ++ textField "label" target
  | .label symbol => textField "label" symbol
  | .goto target => textField "label" target
  | .call callee arity => put "callee" callee ++ wordField "arity" arity
  | .runtimeCall function arity => textField "runtime" function ++ wordField "arity" arity
  | .increment dst | .decrement dst => put "dst" dst
  | .lea dst base index scale =>
    put "dst" dst ++ put "base" base ++ put "index" index ++ wordField "scale" scale
  | .stackArg dst offset => put "dst" dst ++ wordField "offset" offset

def instructionJson (t : VarTable) (inst : Instruction) : Json :=
  .obj (("op", .str inst.kind.text) :: instructionFields t inst)

def spilledField (names : List String) : List (String × Json) :=
  if names.isEmpty then [] else [("spilled", .arr (names.map .str))]

def functionJson (f : Function) : Json :=
  .obj ([("name", .str f.name), ("args", .int f.args.toInt)]
    ++ wordField "locals" f.locals
    ++ spilledField f.spilled.toList
    ++ [("instructions", .arr (f.body.map (instructionJson f.table)))])

def programJson (p : Program) : Json :=
  .obj [("entry", .str p.entry), ("functions", .arr (p.functions.map functionJson))]

def encode (p : Program) : String := (programJson p).text

end RegisterAllocation.Interchange
