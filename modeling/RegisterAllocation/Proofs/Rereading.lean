import RegisterAllocation.Proofs.DecodedPrograms
import RegisterAllocation.Proofs.Drafts

namespace RegisterAllocation

namespace VarTable

def renumber (t t' : VarTable) (x : VarId) : VarId := (t'.id? (t.nameOf x)).getD 0

theorem nameOf_renumber {t t' : VarTable} {x : VarId} (sound : t'.Sound) (known : t.nameOf x ∈ t'.names) :
    t.renumber t' x < t'.size ∧ t'.nameOf (t.renumber t' x) = t.nameOf x := by
  obtain ⟨id, bound, named⟩ := exists_of_mem_names known
  have found := (id?_eq_some_iff sound).mpr ⟨bound, named⟩
  rw [renumber, found]
  exact ⟨bound, named⟩

theorem renumber_self {t : VarTable} {x : VarId} (sound : t.Sound) (known : x < t.size) :
    t.renumber t x = x := by
  rw [renumber, id?_nameOf sound known]
  rfl

end VarTable

def Operand.names (t : VarTable) (op : Operand) : List String := (op.var?.map t.nameOf).toList

def Instruction.names (t : VarTable) (inst : Instruction) : List String := inst.operands.flatMap (·.names t)

def Instruction.Listed : Instruction → Prop
  | .arith op .. | .loadArith op .. | .storeArith op .. => op ∈ ArithOp.all
  | .compare rel .. | .cjump rel .. => rel ∈ Relation.all
  | _ => True

namespace Interchange

namespace Reader

variable {α β : Type} {r : Reader α} {next : α → Reader β} {names more : List String}
  {value : VarTable → α} {result : α → VarTable → β} {t : VarTable}

-- Reading adds some names to the table, finds no flaw, and gives a value that can be told from the table
-- it leaves or from any later one.
def Yields (r : Reader α) (names : List String) (value : VarTable → α) : Prop :=
  ∀ s : Reading, s.table.Sound →
    (r.run s).2 = { s with table := (s.table.internAll names).2 } ∧
    ∀ t, (s.table.internAll names).2.Extends t → t.Sound → (r.run s).1 = value t

theorem yields_pure (a : α) : Yields (pure a) [] fun _ => a := fun _ _ => ⟨rfl, fun _ _ _ => rfl⟩

theorem Yields.bind (first : Yields r names value) (rest : ∀ a, Yields (next a) more (result a)) :
    Yields (r >>= next) (names ++ more) fun t => result (value t) t := by
  intro s sound
  obtain ⟨state, found⟩ := first s sound
  have sound' : (r.run s).2.table.Sound := by
    rw [state]
    exact VarTable.internAll_sound sound names
  obtain ⟨state', found'⟩ := rest (r.run s).1 (r.run s).2 sound'
  have split : (r >>= next).run s = (next (r.run s).1).run (r.run s).2 := rfl
  rw [state] at state' found' split
  rw [split, VarTable.internAll_append]
  refine ⟨state', fun t grown later => ?_⟩
  dsimp only
  rw [← found t ((VarTable.internAll_extends _ _).trans grown) later]
  exact found' t grown later

theorem yields_intern (name : String) : Yields (intern name) [name] fun t => .var ((t.id? name).getD 0) := by
  intro s sound
  refine ⟨rfl, fun t grown later => ?_⟩
  have found : (s.table.intern name).2.id? name = some (s.table.intern name).1 :=
    (VarTable.id?_eq_some_iff (VarTable.intern_sound sound name)).mpr
      ⟨VarTable.intern_lt_size _ _, VarTable.nameOf_intern _ _⟩
  dsimp only
  rw [grown.id? (VarTable.intern_sound sound name) later found]
  rfl

theorem yields_operand (role : Role) (t : VarTable) (op : Operand) :
    Yields (operand role (some (operandDraft t op))) (op.names t) fun t' => op.rename (t.renumber t') := by
  cases op with
  | var x =>
    rw [operandDraft]
    split
    · exact (yields_intern (t.nameOf x)).bind fun op => yields_pure op
    · exact (yields_intern (t.nameOf x)).bind fun op => yields_pure op
  | num _ | label _ | name _ => exact yields_pure _

theorem yields_arithOp {op : ArithOp} (listed : op ∈ ArithOp.all) :
    Yields (arithOp op.symbol) [] fun _ => op := by
  rw [arithOp, ArithOp.ofSymbol?_symbol op listed]
  exact yields_pure op

theorem yields_relation {rel : Relation} (listed : rel ∈ Relation.all) :
    Yields (relation rel.symbol) [] fun _ => rel := by
  rw [relation, Relation.ofSymbol?_symbol rel listed]
  exact yields_pure rel

theorem yields_ofKind {inst : Instruction} (listed : inst.Listed) :
    Yields (ofKind inst.kind (instructionDraft t inst)) (inst.names t) fun t' =>
      inst.rename (t.renumber t') := by
  have operand := fun role op => yields_operand role t op
  cases inst with
  | ret | label _ | goto _ | runtimeCall _ _ => exact yields_pure _
  | assign _ _ | load _ _ _ | store _ _ _ =>
    exact (operand _ _).bind fun _ => (operand _ _).bind fun _ => yields_pure _
  | call _ _ | increment _ | decrement _ | stackArg _ _ => exact (operand _ _).bind fun _ => yields_pure _
  | arith _ _ _ | loadArith _ _ _ _ | storeArith _ _ _ _ =>
    exact (yields_arithOp listed).bind fun _ => (operand _ _).bind fun _ => (operand _ _).bind fun _ =>
      yields_pure _
  | cjump _ _ _ _ =>
    exact (yields_relation listed).bind fun _ => (operand _ _).bind fun _ => (operand _ _).bind fun _ =>
      yields_pure _
  | compare _ _ _ _ =>
    exact (yields_relation listed).bind fun _ => (operand _ _).bind fun _ => (operand _ _).bind fun _ =>
      (operand _ _).bind fun _ => yields_pure _
  | lea _ _ _ _ =>
    exact (operand _ _).bind fun _ => (operand _ _).bind fun _ => (operand _ _).bind fun _ => yields_pure _

theorem yields_instruction {inst : Instruction} (listed : inst.Listed) :
    Yields (instruction (instructionDraft t inst)) (inst.names t) fun t' =>
      some (inst.rename (t.renumber t')) := by
  have kind : InstructionKind.ofText? (instructionDraft t inst).op = some inst.kind := by
    have op : (instructionDraft t inst).op = inst.kind.text := by cases inst <;> rfl
    rw [op, InstructionKind.ofText?_text]
  rw [instruction, kind]
  have yields := (yields_ofKind (t := t) listed).bind fun inst => yields_pure (some inst)
  rwa [List.append_nil] at yields

-- What is known of a reading without flaws: the names that it added to the table, and a fact about the
-- value, these names and any later table.
def Clean (r : Reader α) (fact : α → VarTable → List String → Prop) : Prop :=
  ∀ s : Reading, s.flaws.length ≤ (r.run s).2.flaws.length ∧
    ((r.run s).2.flaws.length ≤ s.flaws.length →
      ∃ names, (r.run s).2.table = (s.table.internAll names).2 ∧
        ∀ t, (r.run s).2.table.Extends t → fact (r.run s).1 t names)

variable {fact : α → VarTable → List String → Prop} {fact' : β → VarTable → List String → Prop}

theorem clean_pure {a : α} (holds : ∀ t, fact a t []) : Clean (pure a) fact :=
  fun _ => ⟨Nat.le_refl _, fun _ => ⟨[], rfl, fun t _ => holds t⟩⟩

theorem Clean.bind (first : Clean r fact)
    (rest : ∀ a, Clean (next a) fun b t after => ∀ before, fact a t before → fact' b t (before ++ after)) :
    Clean (r >>= next) fact' := by
  intro s
  obtain ⟨grew, clean⟩ := first s
  obtain ⟨grew', clean'⟩ := rest (r.run s).1 (r.run s).2
  have split : (r >>= next).run s = (next (r.run s).1).run (r.run s).2 := rfl
  rw [split]
  refine ⟨Nat.le_trans grew grew', fun none => ?_⟩
  obtain ⟨before, table, known⟩ := clean (Nat.le_trans grew' none)
  obtain ⟨after, table', known'⟩ := clean' (Nat.le_trans none grew)
  refine ⟨before ++ after, ?_, fun t grown => known' t grown before (known t (.trans ?_ grown))⟩
  · rw [table', table, VarTable.internAll_append]
  · rw [table']
    exact VarTable.internAll_extends _ _

theorem clean_flaw (e : Flaw) (a : α) : Clean (do flaw e; return a) fact := by
  intro s
  have longer : ((do flaw e; return a : Reader α).run s).2.flaws.length = s.flaws.length + 1 :=
    List.length_append
  rw [longer]
  exact ⟨Nat.le_succ _, fun none => absurd none (Nat.not_succ_le_self _)⟩

structure Kept (ops : List Operand) (t : VarTable) (names : List String) : Prop where
  names : ops.flatMap (·.names t) = names
  known : ∀ x, .var x ∈ ops → x < t.size

theorem Kept.append {ops ops' : List Operand} (first : Kept ops t names) (rest : Kept ops' t more) :
    Kept (ops ++ ops') t (names ++ more) := by
  refine ⟨?_, fun x member => ?_⟩
  · rw [List.flatMap_append, first.names, rest.names]
  · rcases List.mem_append.mp member with left | right
    · exact first.known x left
    · exact rest.known x right

theorem kept_constants {ops : List Operand} (constant : ∀ op ∈ ops, op.var? = none) (t : VarTable) :
    Kept ops t [] := by
  refine ⟨List.flatMap_eq_nil_iff.mpr fun op member => ?_, fun x member => ?_⟩
  · rw [Operand.names, constant op member]
    rfl
  · cases constant _ member

theorem clean_intern (name : String) : Clean (intern name) fun op t names => Kept [op] t names := by
  intro s
  refine ⟨Nat.le_refl _, fun _ => ⟨[name], rfl, fun t grown => ⟨?_, ?_⟩⟩⟩
  · have named : t.nameOf (s.table.intern name).1 = name :=
      (grown.nameOf (VarTable.intern_lt_size s.table name)).trans (VarTable.nameOf_intern s.table name)
    exact congrArg (fun name => [name]) named
  · intro x member
    cases List.mem_singleton.mp member
    exact Nat.lt_of_lt_of_le (VarTable.intern_lt_size s.table name) grown.size_le

theorem clean_mapM_intern (name : Option String) :
    Clean (name.mapM intern) fun op t names => Kept op.toList t names := by
  cases name with
  | none => exact clean_pure fun t => kept_constants (by simp) t
  | some name =>
    exact (clean_intern name).bind fun op => clean_pure fun t before kept => by rwa [List.append_nil]

theorem clean_operand (role : Role) (d : Option OperandDraft) :
    Clean (operand role d) fun op t names => Kept [op] t names := by
  cases d with
  | none => exact clean_flaw _ _
  | some d =>
    refine (clean_mapM_intern d.var).bind fun var => (clean_mapM_intern d.reg).bind fun reg => ?_
    let constants := [d.num.map .num, d.label.map .label, d.name.map .name].filterMap (@id (Option Operand))
    have given : [var, reg, d.num.map .num, d.label.map .label, d.name.map .name].filterMap id =
        var.toList ++ (reg.toList ++ constants) := by
      cases var <;> cases reg <;> rfl
    have constant : ∀ op ∈ constants, op.var? = none := by
      intro op member
      simp only [constants, List.mem_filterMap, List.mem_cons, List.not_mem_nil, or_false, id] at member
      obtain ⟨_, rfl | rfl | rfl, found⟩ := member <;>
        obtain ⟨_, -, rfl⟩ := Option.map_eq_some_iff.mp found <;> rfl
    dsimp only
    split
    · rename_i op single
      refine clean_pure fun t more kept names kept' => ?_
      rw [← single, given]
      exact kept'.append (kept.append (kept_constants constant t))
    · exact clean_flaw _ _

theorem clean_arithOp (symbol : String) :
    Clean (arithOp symbol) fun op _ names => op ∈ ArithOp.all ∧ names = [] := by
  unfold arithOp
  split
  · rename_i found
    exact clean_pure fun _ => ⟨List.mem_of_find?_eq_some found, rfl⟩
  · exact clean_flaw _ _

theorem clean_relation (symbol : String) :
    Clean (relation symbol) fun rel _ names => rel ∈ Relation.all ∧ names = [] := by
  unfold relation
  split
  · rename_i found
    exact clean_pure fun _ => ⟨List.mem_of_find?_eq_some found, rfl⟩
  · exact clean_flaw _ _

theorem clean_ofKind (kind : InstructionKind) (d : InstructionDraft) :
    Clean (ofKind kind d) fun inst t names => Kept inst.operands t names ∧ inst.Listed := by
  have none : ∀ t, Kept [] t [] := kept_constants (by simp)
  cases kind with
  | ret | label | goto | runtimeCall => exact clean_pure fun t => ⟨none t, trivial⟩
  | assign | load | store =>
    exact (clean_operand _ _).bind fun _ => (clean_operand _ _).bind fun _ => clean_pure
      fun t _ second _ first => ⟨first.append (second.append (none t)), trivial⟩
  | call | increment | decrement | stackArg =>
    exact (clean_operand _ _).bind fun _ => clean_pure fun t _ first => ⟨first.append (none t), trivial⟩
  | arith | loadArith | storeArith =>
    exact (clean_arithOp _).bind fun _ => (clean_operand _ _).bind fun _ => (clean_operand _ _).bind fun _ =>
      clean_pure fun t _ second _ first _ op => by
        rw [op.2]
        exact ⟨first.append (second.append (none t)), op.1⟩
  | cjump =>
    exact (clean_relation _).bind fun _ => (clean_operand _ _).bind fun _ => (clean_operand _ _).bind fun _ =>
      clean_pure fun t _ second _ first _ rel => by
        rw [rel.2]
        exact ⟨first.append (second.append (none t)), rel.1⟩
  | compare =>
    exact (clean_relation _).bind fun _ => (clean_operand _ _).bind fun _ => (clean_operand _ _).bind fun _ =>
      (clean_operand _ _).bind fun _ => clean_pure fun t _ third _ second _ first _ rel => by
        rw [rel.2]
        exact ⟨first.append (second.append (third.append (none t))), rel.1⟩
  | lea =>
    exact (clean_operand _ _).bind fun _ => (clean_operand _ _).bind fun _ => (clean_operand _ _).bind fun _ =>
      clean_pure fun t _ third _ second _ first =>
        ⟨first.append (second.append (third.append (none t))), trivial⟩

theorem clean_instruction (d : InstructionDraft) : Clean (instruction d) fun inst t names =>
    Kept (inst.toList.flatMap (·.operands)) t names ∧ ∀ i ∈ inst, i.Listed := by
  unfold instruction
  split
  · exact clean_flaw _ _
  · refine (clean_ofKind _ _).bind fun inst => clean_pure fun t names kept => ?_
    simpa using kept

end Reader

-- A table that holds the variables of some instructions and no others, in the order in which they are
-- first mentioned after those of an earlier table.
structure Numbers (start : VarTable) (body : List Instruction) (t : VarTable) : Prop where
  table : t = (start.internAll (body.flatMap (·.names t))).2
  listed : ∀ inst ∈ body, inst.Listed
  known : ∀ inst ∈ body, ∀ x, .var x ∈ inst.operands → x < t.size

theorem Numbers.extends {start t : VarTable} {body : List Instruction} (numbers : Numbers start body t) :
    start.Extends t := by
  rw [numbers.table]
  exact VarTable.internAll_extends _ _

theorem Numbers.append {start t : VarTable} {insts body : List Instruction} {names : List String}
    (kept : Reader.Kept (insts.flatMap (·.operands)) t names) (listed : ∀ inst ∈ insts, inst.Listed)
    (numbers : Numbers (start.internAll names).2 body t) : Numbers start (insts ++ body) t := by
  refine ⟨?_, fun inst member => ?_, fun inst member x operand => ?_⟩
  · have same : insts.flatMap (·.names t) = names := by
      rw [← kept.names, List.flatMap_assoc]
      rfl
    rw [List.flatMap_append, same, VarTable.internAll_append]
    exact numbers.table
  · rcases List.mem_append.mp member with first | later
    · exact listed inst first
    · exact numbers.listed inst later
  · rcases List.mem_append.mp member with first | later
    · exact kept.known x (List.mem_flatMap.mpr ⟨inst, first, operand⟩)
    · exact numbers.known inst later x operand

theorem readBody_cons (name : String) (t : VarTable) (i : Nat) (d : InstructionDraft)
    (rest : List InstructionDraft) {inst : Option Instruction} {reading : Reading}
    (first : (Reader.instruction d).run { table := t } = (inst, reading)) :
    readBody name t i (d :: rest) = (inst.toList ++ (readBody name reading.table (i + 1) rest).1,
      (readBody name reading.table (i + 1) rest).2.1,
      reading.flaws.map (.inFunction name i) ++ (readBody name reading.table (i + 1) rest).2.2) := by
  rw [readBody, first]

theorem readBody_numbers {name : String} {start : VarTable} {i : Nat} {drafts : List InstructionDraft}
    (none : (readBody name start i drafts).2.2 = []) :
    Numbers start (readBody name start i drafts).1 (readBody name start i drafts).2.1 := by
  induction drafts generalizing start i with
  | nil => exact ⟨rfl, by simp [readBody], by simp [readBody]⟩
  | cons d rest ih =>
    obtain ⟨-, clean⟩ := Reader.clean_instruction d { table := start }
    cases first : (Reader.instruction d).run { table := start } with
    | mk inst reading =>
      rw [first] at clean
      rw [readBody_cons name start i d rest first] at none ⊢
      obtain ⟨unflawed, later⟩ := List.append_eq_nil_iff.mp none
      obtain ⟨names, table, known⟩ := clean (by rw [List.map_eq_nil_iff.mp unflawed])
      have numbers := ih later
      obtain ⟨kept, listed⟩ := known _ numbers.extends
      rw [table] at numbers kept ⊢
      exact .append kept (by simpa using listed) numbers

-- What is written of a body is read as the body, with the numbers that its variables have in the table at
-- the end. The instructions add to the table one after the other, so that the induction goes through with
-- any table that comes later.
theorem readBody_drafts {start t' : VarTable} {body : List Instruction} (name : String) (i : Nat)
    (t : VarTable) (sound : start.Sound) (listed : ∀ inst ∈ body, inst.Listed)
    (grown : (start.internAll (body.flatMap (·.names t))).2.Extends t') (sound' : t'.Sound) :
    readBody name start i (body.map (instructionDraft t)) =
      (body.map (·.rename (t.renumber t')), (start.internAll (body.flatMap (·.names t))).2, []) := by
  induction body generalizing start i with
  | nil => rfl
  | cons inst rest ih =>
    obtain ⟨state, value⟩ := Reader.yields_instruction (t := t) (listed inst List.mem_cons_self)
      { table := start } sound
    rw [List.flatMap_cons, VarTable.internAll_append] at grown ⊢
    have later := ih (i + 1) (VarTable.internAll_sound sound _)
      (fun other member => listed other (List.mem_cons_of_mem _ member)) grown
    have first := value t' ((VarTable.internAll_extends _ _).trans grown) sound'
    rw [List.map_cons, readBody_cons name start i _ _ (Prod.ext first state), later]
    rfl

end Interchange

end RegisterAllocation
