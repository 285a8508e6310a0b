import RegisterAllocation.Interchange.Draft
import RegisterAllocation.Interchange.Encode

namespace RegisterAllocation

theorem Word.ofDecimal?_toInt (w : Word) : Word.ofDecimal? w.toInt = some w := by
  have inside : Int64.minValue.toInt ≤ w.toInt ∧ w.toInt ≤ Int64.maxValue.toInt :=
    ⟨Int64.minValue_le_toInt w, Int64.toInt_le w⟩
  rw [ofDecimal?, ofInt?, if_pos inside, Int64.ofInt_toInt]

namespace Interchange

def writtenKeys : List String :=
  ["entry", "functions", "name", "args", "locals", "spilled", "instructions", "op", "operator", "dst",
    "src", "left", "right", "base", "index", "callee", "offset", "scale", "label", "runtime", "arity",
    "var", "reg", "num"]

theorem keyField_written : ∀ key ∈ writtenKeys, keyField key = key := by decide +kernel

section Fields

variable {α : Type} {field : α → String → Json → Option α} {fields more : List (String × Json)}
  {d d' d'' : α} {key : String} {v : Json} {w : Word} {s : String}

def Gives (field : α → String → Json → Option α) (fields : List (String × Json)) (d d' : α) : Prop :=
  fields.foldlM (fun d (key, v) => field d (keyField key) v) d = some d'

theorem Gives.nil : Gives field [] d d := rfl

theorem Gives.append (first : Gives field fields d d') (rest : Gives field more d' d'') :
    Gives field (fields ++ more) d d'' := by
  rw [Gives, List.foldlM_append, first]
  exact rest

theorem Gives.single (given : field d key v = some d') (written : key ∈ writtenKeys := by decide) :
    Gives field [(key, v)] d d' := by
  simp [Gives, keyField_written key written, given]

-- Zero is what a field holds that is not given.
theorem Gives.word {set : Word → α} (given : ∀ v, field d key v = (Interchange.word 0 v).map set)
    (absent : d = set 0) (made : set w = d') (written : key ∈ writtenKeys := by decide) :
    Gives field (wordField key w) d d' := by
  unfold wordField
  split
  · rename_i zero
    rw [absent, ← made, zero]
    exact .nil
  · refine .single ?_ written
    rw [given, Interchange.word, Word.ofDecimal?_toInt, ← made]
    rfl

theorem Gives.text {set : String → α} (given : ∀ v, field d key v = (Interchange.string "" v).map set)
    (absent : d = set "") (made : set s = d') (written : key ∈ writtenKeys := by decide) :
    Gives field (textField key s) d d' := by
  unfold textField
  split
  · rename_i empty
    rw [absent, ← made, String.isEmpty_iff.mp empty]
    exact .nil
  · exact .single ((given _).trans (congrArg some made)) written

theorem record_of_gives (given : Gives field fields d d') : record field d (.obj fields) = some d' := given

theorem fill_fresh {β : Type} {zero : α} {read : Overlay α} {json : β → Json} {draft : β → α}
    (each : ∀ x, read zero (json x) = some (draft x)) (xs : List β) :
    fill zero read [] (xs.map json) = some (xs.map draft, []) := by
  induction xs with
  | nil => rfl
  | cons x rest ih =>
    rw [List.map_cons, fill, each, ih]
    rfl

theorem slots_fresh {β : Type} {zero : α} {read : Overlay α} {json : β → Json} {draft : β → α}
    (each : ∀ x, read zero (json x) = some (draft x)) (xs : List β) :
    slots zero read {} (.arr (xs.map json)) = some ⟨xs.map draft, []⟩ := by
  rw [slots, List.append_nil, fill_fresh each]
  rfl

end Fields

def operandDraft (t : VarTable) : Operand → OperandDraft
  | .var id => if t.isRegister id then { reg := some (t.nameOf id) } else { var := some (t.nameOf id) }
  | .num value => { num := some value }
  | .label symbol => { label := some symbol }
  | .name symbol => { name := some symbol }

def instructionDraft (t : VarTable) (inst : Instruction) : InstructionDraft :=
  let given := fun op => some (operandDraft t op)
  let d : InstructionDraft := { op := inst.kind.text }
  match inst with
  | .ret => d
  | .assign dst src => { d with dst := given dst, src := given src }
  | .load dst base offset => { d with dst := given dst, base := given base, offset := offset }
  | .store base offset src => { d with src := given src, base := given base, offset := offset }
  | .arith op dst src => { d with operator := op.symbol, dst := given dst, src := given src }
  | .loadArith op dst base offset =>
    { d with operator := op.symbol, dst := given dst, base := given base, offset := offset }
  | .storeArith op base offset src =>
    { d with operator := op.symbol, src := given src, base := given base, offset := offset }
  | .compare rel dst left right =>
    { d with operator := rel.symbol, dst := given dst, left := given left, right := given right }
  | .cjump rel left right target =>
    { d with operator := rel.symbol, left := given left, right := given right, label := target }
  | .label symbol => { d with label := symbol }
  | .goto target => { d with label := target }
  | .call callee arity => { d with callee := given callee, arity := arity }
  | .runtimeCall function arity => { d with runtime := function, arity := arity }
  | .increment dst | .decrement dst => { d with dst := given dst }
  | .lea dst base index scale =>
    { d with dst := given dst, base := given base, index := given index, scale := scale }
  | .stackArg dst offset => { d with dst := given dst, offset := offset }

def functionDraft (f : Function) : FunctionDraft where
  name := f.name
  args := f.args
  locals := f.locals
  spilled := { items := f.spilled.toList }
  instructions := { items := f.body.map (instructionDraft f.table) }

def programDraft (p : Program) : ProgramDraft where
  entry := p.entry
  functions := { items := p.functions.map functionDraft }

theorem operand_operandJson (t : VarTable) (op : Operand) :
    operand {} (operandJson t op) = some (operandDraft t op) := by
  cases op with
  | var id =>
    rw [operandJson, operandDraft]
    split
    · exact record_of_gives (.single rfl)
    · exact record_of_gives (.single rfl)
  | num value =>
    refine record_of_gives (.single ?_)
    exact congrArg (Option.map _) (congrArg (Option.map some) (Word.ofDecimal?_toInt value))
  | label symbol => exact record_of_gives (.single rfl)
  | name symbol => exact record_of_gives (.single rfl)

theorem Gives.operand {α : Type} {field : α → String → Json → Option α} {d d' : α} {key : String} {t : VarTable}
    {op : Operand} {set : Option OperandDraft → α}
    (given : ∀ v, field d key v = (optional {} Interchange.operand none v).map set)
    (made : set (some (operandDraft t op)) = d') (written : key ∈ writtenKeys := by decide) :
    Gives field [(key, operandJson t op)] d d' := by
  have present : optional {} Interchange.operand none (operandJson t op) =
      (Interchange.operand {} (operandJson t op)).map some := by
    cases op with
    | var id =>
      rw [operandJson]
      split <;> rfl
    | num _ | label _ | name _ => rfl
  refine .single ?_ written
  rw [given, present, operand_operandJson, ← made]
  rfl

theorem instruction_instructionJson (t : VarTable) (inst : Instruction) :
    instruction {} (instructionJson t inst) = some (instructionDraft t inst) := by
  have op : Gives instructionField [("op", .str inst.kind.text)] {} { op := inst.kind.text } := .single rfl
  refine record_of_gives (Gives.append op ?_)
  -- Each kind of instruction has its fields, in the order in which they are written.
  cases inst with
  | ret => exact .nil
  | label _ | goto _ => exact .text (fun _ => rfl) rfl rfl
  | increment _ | decrement _ => exact .operand (fun _ => rfl) rfl
  | assign _ _ => exact .append (.operand (fun _ => rfl) rfl) (.operand (fun _ => rfl) rfl)
  | stackArg _ _ | call _ _ => exact .append (.operand (fun _ => rfl) rfl) (.word (fun _ => rfl) rfl rfl)
  | runtimeCall _ _ => exact .append (.text (fun _ => rfl) rfl rfl) (.word (fun _ => rfl) rfl rfl)
  | load _ _ _ | store _ _ _ =>
    exact .append (.append (.operand (fun _ => rfl) rfl) (.operand (fun _ => rfl) rfl))
      (.word (fun _ => rfl) rfl rfl)
  | arith _ _ _ =>
    exact .append (.append (.text (fun _ => rfl) rfl rfl) (.operand (fun _ => rfl) rfl))
      (.operand (fun _ => rfl) rfl)
  | loadArith _ _ _ _ | storeArith _ _ _ _ =>
    exact .append (.append (.append (.text (fun _ => rfl) rfl rfl) (.operand (fun _ => rfl) rfl))
      (.operand (fun _ => rfl) rfl)) (.word (fun _ => rfl) rfl rfl)
  | compare _ _ _ _ =>
    exact .append (.append (.append (.text (fun _ => rfl) rfl rfl) (.operand (fun _ => rfl) rfl))
      (.operand (fun _ => rfl) rfl)) (.operand (fun _ => rfl) rfl)
  | cjump _ _ _ _ =>
    exact .append (.append (.append (.text (fun _ => rfl) rfl rfl) (.operand (fun _ => rfl) rfl))
      (.operand (fun _ => rfl) rfl)) (.text (fun _ => rfl) rfl rfl)
  | lea _ _ _ _ =>
    exact .append (.append (.append (.operand (fun _ => rfl) rfl) (.operand (fun _ => rfl) rfl))
      (.operand (fun _ => rfl) rfl)) (.word (fun _ => rfl) rfl rfl)

theorem function_functionJson (f : Function) : function {} (functionJson f) = some (functionDraft f) := by
  have name : Gives functionField [("name", .str f.name)] {} { name := f.name } := .single rfl
  have args : Gives functionField [("args", .int f.args.toInt)] { name := f.name }
      { name := f.name, args := f.args } :=
    .single (congrArg (Option.map _) (Word.ofDecimal?_toInt f.args))
  have spilled : Gives functionField (spilledField f.spilled.toList)
      { name := f.name, args := f.args, locals := f.locals }
      { name := f.name, args := f.args, locals := f.locals, spilled := { items := f.spilled.toList } } := by
    unfold spilledField
    split
    · rename_i empty
      rw [List.isEmpty_iff.mp empty]
      exact .nil
    · have each : ∀ name, string "" (.str name) = some (id name) := fun _ => rfl
      have read := slots_fresh each f.spilled.toList
      rw [List.map_id] at read
      exact .single (congrArg (Option.map _) read)
  have read := slots_fresh (instruction_instructionJson f.table) f.body
  exact record_of_gives (.append (.append (.append (name.append args) (.word (fun _ => rfl) rfl rfl)) spilled)
    (.single (congrArg (Option.map _) read)))

theorem ofJson?_programJson (p : Program) : ProgramDraft.ofJson? (programJson p) = some (programDraft p) := by
  have entry : Gives programField [("entry", .str p.entry)] {} { entry := p.entry } := .single rfl
  have read := slots_fresh function_functionJson p.functions
  exact record_of_gives (entry.append (.single (congrArg (Option.map _) read)))

end Interchange

end RegisterAllocation
