import RegisterAllocation.Proofs.JsonTexts
import RegisterAllocation.Proofs.Rereading

namespace RegisterAllocation

-- A function as it is read again from its interchange form: its variables are numbered anew, in the order
-- in which they are mentioned.
def Function.reread (convention : Option RegisterFile) (f : Function) : Function :=
  let t := (VarTable.internAll { convention := convention } (f.body.flatMap (·.names f.table))).2
  { f with body := f.body.map (·.rename (f.table.renumber t)), table := t }

def Program.reread (convention : Option RegisterFile) (p : Program) : Program :=
  { p with functions := p.functions.map (·.reread convention) }

namespace Interchange

variable {convention : Option RegisterFile} {f : Function} {p : Program}

theorem readFunction_draft (listed : ∀ inst ∈ f.body, inst.Listed) :
    readFunction convention (functionDraft f) = (f.reread convention, []) := by
  have sound := VarTable.empty_sound convention
  have body := readBody_drafts f.name 0 f.table sound listed (.refl _) (VarTable.internAll_sound sound _)
  have spilled : Std.ExtTreeSet.ofList f.spilled.toList = f.spilled :=
    Std.ExtTreeSet.ext_mem fun name => by simp
  simp only [readFunction, functionDraft, body, spilled]
  rfl

theorem readProgram_draft (listed : ∀ f ∈ p.functions, ∀ inst ∈ f.body, inst.Listed) :
    readProgram convention (programDraft p) = (p.reread convention, []) := by
  have read : (p.functions.map functionDraft).map (readFunction convention) =
      p.functions.map fun f => (f.reread convention, []) := by
    rw [List.map_map]
    exact List.map_congr_left fun f member => readFunction_draft (listed f member)
  simp only [readProgram, programDraft, read, List.map_map]
  refine Prod.ext rfl (List.flatten_eq_nil_iff.mpr fun problems member => ?_)
  obtain ⟨_, -, rfl⟩ := List.mem_map.mp member
  rfl

section Plain

open Json

def PlainFields (fields : List (String × Json)) : Prop := ∀ field ∈ fields, Plain field.2

theorem plainFields_append {fields more : List (String × Json)} :
    PlainFields (fields ++ more) ↔ PlainFields fields ∧ PlainFields more := List.forall_mem_append

theorem plainFields_single {key : String} {v : Json} : PlainFields [(key, v)] ↔ Plain v :=
  List.forall_mem_singleton

theorem plainFields_wordField (key : String) (w : Word) : PlainFields (wordField key w) := by
  unfold wordField
  split
  · exact List.forall_mem_nil _
  · exact plainFields_single.mpr (.int _)

theorem plainFields_textField (key : String) (s : String) : PlainFields (textField key s) := by
  unfold textField
  split
  · exact List.forall_mem_nil _
  · exact plainFields_single.mpr (.str _)

theorem plain_operandJson (t : VarTable) (op : Operand) : Plain (operandJson t op) := by
  cases op with
  | var id =>
    rw [operandJson]
    split
    · exact .obj (plainFields_single.mpr (.str _))
    · exact .obj (plainFields_single.mpr (.str _))
  | num _ => exact .obj (plainFields_single.mpr (.int _))
  | label _ | name _ => exact .obj (plainFields_single.mpr (.str _))

theorem plain_instructionJson (t : VarTable) (inst : Instruction) : Plain (instructionJson t inst) := by
  have fields : PlainFields (instructionFields t inst) := by
    cases inst <;>
      simp only [instructionFields, plainFields_append, plainFields_single, plainFields_wordField,
        plainFields_textField, plain_operandJson, and_self]
    exact List.forall_mem_nil _
  exact .obj (List.forall_mem_cons.mpr ⟨.str _, fields⟩)

theorem plain_arr {α : Type} {json : α → Json} (each : ∀ a, Plain (json a)) (items : List α) :
    Plain (.arr (items.map json)) := by
  refine .arr fun v member => ?_
  obtain ⟨a, -, rfl⟩ := List.mem_map.mp member
  exact each a

theorem plain_functionJson (f : Function) : Plain (functionJson f) := by
  have spilled : PlainFields (spilledField f.spilled.toList) := by
    unfold spilledField
    split
    · exact List.forall_mem_nil _
    · exact plainFields_single.mpr (plain_arr .str _)
  have head : PlainFields [("name", .str f.name), ("args", .int f.args.toInt)] :=
    List.forall_mem_cons.mpr ⟨.str _, plainFields_single.mpr (.int _)⟩
  have body : PlainFields [("instructions", .arr (f.body.map (instructionJson f.table)))] :=
    plainFields_single.mpr (plain_arr (plain_instructionJson f.table) f.body)
  exact .obj (plainFields_append.mpr ⟨plainFields_append.mpr
    ⟨plainFields_append.mpr ⟨head, plainFields_wordField "locals" f.locals⟩, spilled⟩, body⟩)

theorem plain_programJson (p : Program) : Plain (programJson p) :=
  .obj (List.forall_mem_cons.mpr ⟨.str _, plainFields_single.mpr (plain_arr plain_functionJson p.functions)⟩)

end Plain

theorem decode_encode (listed : ∀ f ∈ p.functions, ∀ inst ∈ f.body, inst.Listed)
    (clean : (p.reread convention).problems = []) :
    decode (encode p) convention = .ok (p.reread convention) := by
  have draft : (Json.parse? (encode p)).bind ProgramDraft.ofJson? = some (programDraft p) := by
    rw [encode, Json.parse?_text (plain_programJson p), Option.bind_some, ofJson?_programJson]
  simp only [decode, draft, ofDraft, readProgram_draft listed, clean]

theorem readFunction_numbers {d : FunctionDraft} (read : readFunction convention d = (f, [])) :
    Numbers { convention := convention } f.body f.table := by
  have none : (readBody d.name { convention := convention } 0 d.instructions.items).2.2 = [] :=
    congrArg Prod.snd read
  have function : (readFunction convention d).1 = f := congrArg Prod.fst read
  rw [← function]
  exact readBody_numbers none

theorem reread_eq_self {d : FunctionDraft} (read : readFunction convention d = (f, [])) :
    f.reread convention = f := by
  have numbers := readFunction_numbers read
  have sound : f.table.Sound := by
    have kept := (readFunction_sound convention d).1
    rwa [read] at kept
  have same : f.body.map (·.rename (f.table.renumber f.table)) = f.body :=
    Instruction.map_rename_id fun inst member x operand =>
      VarTable.renumber_self sound (numbers.known inst member x operand)
  simp only [Function.reread, ← numbers.table, same]

theorem decode_listed {text : String} (decoded : decode text convention = .ok p) :
    ∀ f ∈ p.functions, ∀ inst ∈ f.body, inst.Listed := by
  intro f member
  obtain ⟨d, read, -⟩ := decode_ok decoded
  obtain ⟨_, made⟩ := mem_readProgram read member
  exact (readFunction_numbers made).listed

-- A program that was decoded is decoded again from what it is written as: all of it, down to the numbers
-- of its variables.
theorem decoded_round_trip {text : String} (decoded : decode text convention = .ok p) :
    decode (encode p) convention = .ok p := by
  obtain ⟨d, read, clean⟩ := decode_ok decoded
  have same : p.reread convention = p := by
    have each : p.functions.map (·.reread convention) = p.functions := by
      refine (List.map_congr_left fun f member => ?_).trans (List.map_id _)
      obtain ⟨_, made⟩ := mem_readProgram read member
      exact reread_eq_self made
    simp only [Program.reread, each]
  rw [decode_encode (decode_listed decoded) (by rwa [same]), same]

-- The fields of an object in no particular order, a register that is given as a variable, a name that is
-- marked twice as spilled, and a field that means nothing.
def disordered : String :=
  "\x7b\"functions\":[\x7b\"instructions\":[" ++
    "\x7b\"src\":\x7b\"var\":\"%b\"\x7d,\"op\":\"assign\",\"dst\":\x7b\"var\":\"rax\"\x7d\x7d," ++
    "\x7b\"op\":\"return\"\x7d],\"spilled\":[\"%z\",\"%a\",\"%z\"],\"name\":\"@f\"\x7d]," ++
    "\"entry\":\"@f\",\"remark\":null\x7d"

theorem decoded_round_trip_disordered : ∃ p,
    decode disordered (some (.draft Allocation.threeRegisters)) = .ok p ∧ encode p ≠ disordered ∧
      decode (encode p) (some (.draft Allocation.threeRegisters)) = .ok p := by
  have other : (decode disordered (some (.draft Allocation.threeRegisters))).toOption.any
      (fun p => encode p ≠ disordered) = true := by decide +kernel
  cases decoded : decode disordered (some (.draft Allocation.threeRegisters)) with
  | error e => simp [decoded, Except.toOption] at other
  | ok p =>
    rw [decoded] at other
    exact ⟨p, rfl, by simpa [Except.toOption] using other, decoded_round_trip decoded⟩

end Interchange

end RegisterAllocation
