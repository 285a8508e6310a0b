import RegisterAllocation.Json
import RegisterAllocation.Word

namespace RegisterAllocation.Interchange

-- A list as it is read. A list given a second time is read into the places of the first one, and
-- `spare` holds what lies behind the end of the shorter one.
structure Slots (α : Type) where
  items : List α := []
  spare : List α := []

structure OperandDraft where
  var : Option String := none
  reg : Option String := none
  num : Option Word := none
  label : Option String := none
  name : Option String := none
  deriving DecidableEq, Repr

structure InstructionDraft where
  op : String := ""
  operator : String := ""
  dst : Option OperandDraft := none
  src : Option OperandDraft := none
  left : Option OperandDraft := none
  right : Option OperandDraft := none
  base : Option OperandDraft := none
  index : Option OperandDraft := none
  callee : Option OperandDraft := none
  offset : Word := 0
  scale : Word := 0
  label : String := ""
  runtime : String := ""
  arity : Word := 0
  deriving DecidableEq, Repr

structure FunctionDraft where
  name : String := ""
  args : Word := 0
  locals : Word := 0
  spilled : Slots String := {}
  instructions : Slots InstructionDraft := {}

structure ProgramDraft where
  entry : String := ""
  functions : Slots FunctionDraft := {}

abbrev Overlay (α : Type) := α → Json → Option α

def string : Overlay String
  | old, .null => some old
  | _, .str s => some s
  | _, _ => none

def word : Overlay Word
  | old, .null => some old
  | _, .int n => Word.ofDecimal? n
  | _, _ => none

-- A part that may be missing. Nothing given takes it away; anything else is read on top of the part
-- there was, or of an empty one.
def optional {α : Type} (zero : α) (read : Overlay α) : Overlay (Option α)
  | _, .null => some none
  | old, v => (read (old.getD zero) v).map some

def fill {α : Type} (zero : α) (read : Overlay α) : List α → List Json → Option (List α × List α)
  | spare, [] => some ([], spare)
  | [], v :: rest => do
    let item ← read zero v
    let (items, spare) ← fill zero read [] rest
    some (item :: items, spare)
  | old :: spare, v :: rest => do
    let item ← read old v
    let (items, spare) ← fill zero read spare rest
    some (item :: items, spare)

def slots {α : Type} (zero : α) (read : Overlay α) : Overlay (Slots α)
  | _, .null => some {}
  | old, .arr values =>
    (fill zero read (old.items ++ old.spare) values).map fun (items, spare) => ⟨items, spare⟩
  | _, _ => none

-- In a plain key, case is ignored. A key with a character beyond ASCII is folded one step along the
-- cycle of characters that differ only in case, which for `s` and `k` has a third member.
def foldChar (c : Char) : Char :=
  match c.toNat with
  | 0x73 => Char.ofNat 0x17f
  | 0x17f => 's'
  | 0x6b => Char.ofNat 0x212a
  | 0x212a => 'k'
  | _ => c.toLower

def foldKey (key : String) : String :=
  if key.toList.all fun c => c.toNat < 0x80 then key.map Char.toLower else key.map foldChar

def keyBlock : Nat := 16

def keyBody (key : String) : List Char :=
  (key.toList.reverse.dropWhile fun c => c.toNat = 0).reverse

-- The field that a key names. A field is stored in a block filled up with NULs, so NULs at the end
-- of a key that fits into the block do not count; such a key is taken as it is spelled. In any
-- other key case is ignored.
def keyField (key : String) : String :=
  let body := keyBody key
  if body.length < key.length ∧ key.utf8ByteSize ≤ keyBlock then String.ofList body else foldKey key

def record {α : Type} (field : α → String → Json → Option α) : Overlay α
  | old, .null => some old
  | old, .obj fields => fields.foldlM (fun d (key, v) => field d (keyField key) v) old
  | _, _ => none

def operandField (d : OperandDraft) (key : String) (v : Json) : Option OperandDraft :=
  match key with
  | "var" => (optional "" string d.var v).map fun x => { d with var := x }
  | "reg" => (optional "" string d.reg v).map fun x => { d with reg := x }
  | "num" => (optional 0 word d.num v).map fun x => { d with num := x }
  | "label" => (optional "" string d.label v).map fun x => { d with label := x }
  | "name" => (optional "" string d.name v).map fun x => { d with name := x }
  | _ => some d

def operand : Overlay OperandDraft := record operandField

def instructionField (d : InstructionDraft) (key : String) (v : Json) : Option InstructionDraft :=
  match key with
  | "op" => (string d.op v).map fun x => { d with op := x }
  | "operator" => (string d.operator v).map fun x => { d with operator := x }
  | "dst" => (optional {} operand d.dst v).map fun x => { d with dst := x }
  | "src" => (optional {} operand d.src v).map fun x => { d with src := x }
  | "left" => (optional {} operand d.left v).map fun x => { d with left := x }
  | "right" => (optional {} operand d.right v).map fun x => { d with right := x }
  | "base" => (optional {} operand d.base v).map fun x => { d with base := x }
  | "index" => (optional {} operand d.index v).map fun x => { d with index := x }
  | "callee" => (optional {} operand d.callee v).map fun x => { d with callee := x }
  | "offset" => (word d.offset v).map fun x => { d with offset := x }
  | "scale" => (word d.scale v).map fun x => { d with scale := x }
  | "label" => (string d.label v).map fun x => { d with label := x }
  | "runtime" => (string d.runtime v).map fun x => { d with runtime := x }
  | "arity" => (word d.arity v).map fun x => { d with arity := x }
  | _ => some d

def instruction : Overlay InstructionDraft := record instructionField

def functionField (d : FunctionDraft) (key : String) (v : Json) : Option FunctionDraft :=
  match key with
  | "name" => (string d.name v).map fun x => { d with name := x }
  | "args" => (word d.args v).map fun x => { d with args := x }
  | "locals" => (word d.locals v).map fun x => { d with locals := x }
  | "spilled" => (slots "" string d.spilled v).map fun x => { d with spilled := x }
  | "instructions" =>
    (slots {} instruction d.instructions v).map fun x => { d with instructions := x }
  | _ => some d

def function : Overlay FunctionDraft := record functionField

def programField (d : ProgramDraft) (key : String) (v : Json) : Option ProgramDraft :=
  match key with
  | "entry" => (string d.entry v).map fun x => { d with entry := x }
  | "functions" => (slots {} function d.functions v).map fun x => { d with functions := x }
  | _ => some d

def program : Overlay ProgramDraft := record programField

def ProgramDraft.ofJson? (v : Json) : Option ProgramDraft := program {} v

end RegisterAllocation.Interchange
