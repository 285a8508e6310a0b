import RegisterAllocation.RegisterFile

namespace RegisterAllocation.Command

inductive Mode where
  | allocate | liveness | interference | color | spill
  deriving DecidableEq, Repr

inductive Format where
  | l2 | json
  deriving DecidableEq, Repr

structure Options where
  source : String := ""
  output : String := ""
  config : String := ""
  threads : Nat := 1
  verbose : Bool := false
  mode : Mode := .allocate
  format : Format := .l2
  spillVar : String := ""
  function : String := ""
  deriving DecidableEq, Repr

inductive ValueFlag where
  | output | threads | config | format | spill | function
  deriving DecidableEq, Repr

namespace ValueFlag

def text : ValueFlag → String
  | .output => "-o"
  | .threads => "-t"
  | .config => "-cc"
  | .format => "-f"
  | .spill => "-s"
  | .function => "-fn"

def ofText? (s : String) : Option ValueFlag :=
  [.output, .threads, .config, .format, .spill, .function].find? fun flag => flag.text == s

end ValueFlag

inductive OptionError where
  | noArgument (flag : ValueFlag)
  | flagForArgument (flag : ValueFlag) (found : String)
  | notVariable (text : String)
  | unknownFormat (text : String)
  | notThreadCount (text : String)
  | threadRange
  | unexpected (text : String)
  deriving DecidableEq, Repr

def maxThreads : Nat := 64

def OptionError.message : OptionError → String
  | .noArgument flag => s!"got flag {flag.text} but no argument"
  | .flagForArgument flag found => s!"expected argument to flag {flag.text}, got new flag {found}"
  | .notVariable text => s!"expected variable to spill, got {text}"
  | .unknownFormat text => s!"unexpected output format: {text}"
  | .notThreadCount text => s!"expected integer thread count, got: {text}"
  | .threadRange => s!"thread count must be integer in range [1, {maxThreads}]"
  | .unexpected text => s!"unexpected flag: {text}"

inductive Request where
  | help
  | version
  | run (options : Options)
  deriving DecidableEq, Repr

namespace Options

def threadCount? (n : Word) : Option Nat :=
  if 1 ≤ n ∧ n.toInt ≤ maxThreads then some n.toNatClampNeg else none

def set (o : Options) (flag : ValueFlag) (value : String) : Except OptionError Options :=
  match flag with
  | .output => .ok { o with output := value }
  | .config => .ok { o with config := value }
  | .function => .ok { o with function := value }
  | .spill =>
    if isVirtualName value then .ok { o with mode := .spill, spillVar := value }
    else .error (.notVariable value)
  | .format =>
    match value with
    | "l2" => .ok { o with format := .l2 }
    | "json" => .ok { o with format := .json }
    | _ => .error (.unknownFormat value)
  | .threads =>
    match Word.read? value with
    | none => .error (.notThreadCount value)
    | some n =>
      match threadCount? n with
      | none => .error .threadRange
      | some count => .ok { o with threads := count }

-- Reads flags from left to right; a later one overrides an earlier one. Only the last word may be
-- the name of the source.
def read (o : Options) : List String → Except OptionError Request
  | [] => .ok (.run o)
  | "-h" :: _ | "--h" :: _ | "-help" :: _ | "--help" :: _ => .ok .help
  | "-v" :: _ | "--v" :: _ | "-version" :: _ | "--version" :: _ => .ok .version
  | "-l" :: rest => { o with mode := .liveness }.read rest
  | "-i" :: rest => { o with mode := .interference }.read rest
  | "-c" :: rest => { o with mode := .color }.read rest
  | "-vb" :: rest => { o with verbose := true }.read rest
  | word :: rest =>
    match ValueFlag.ofText? word, rest with
    | some flag, [] => .error (.noArgument flag)
    | some flag, value :: rest =>
      if value.startsWith "-" then .error (.flagForArgument flag value)
      else
        match o.set flag value with
        | .error e => .error e
        | .ok o => o.read rest
    | none, rest =>
      if word.startsWith "-" ∨ rest ≠ [] then .error (.unexpected word)
      else .ok (.run { o with source := word })

end Options

def parse (words : List String) : Except OptionError Request := Options.read {} words

end RegisterAllocation.Command
