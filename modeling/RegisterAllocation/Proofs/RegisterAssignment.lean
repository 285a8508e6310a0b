import RegisterAllocation.Allocation
import RegisterAllocation.Proofs.Colorings
import RegisterAllocation.Proofs.Machine

namespace RegisterAllocation

namespace Flow

theorem labelIndex?_map_rename (ρ : VarId → VarId) (target : String) (body : List Instruction) :
    labelIndex? target (body.map (·.rename ρ)) = labelIndex? target body := by
  induction body with
  | nil => rfl
  | cons inst rest ih =>
    have label : inst.rename ρ = .label target ↔ inst = .label target := by
      cases inst <;> simp [Instruction.rename, Instruction.mapOperands]
    simp only [List.map_cons, labelIndex?, ih, label]

end Flow

def Coloring.registerOf (attempt : Coloring) (rf : RegisterFile) (t : VarTable) (x : VarId) : String :=
  if t.isRegister x then t.nameOf x
  else ((attempt.colors[x]?).bind fun c => rf.registers[c]?).getD (t.nameOf x)

namespace Allocation

variable {t : VarTable} {rf : RegisterFile} {x : VarId} {attempt : Coloring}

theorem registerMap_extends (t : VarTable) (pairs : List (VarId × String)) :
    t.Extends (registerMap t pairs).2 := by
  induction pairs generalizing t with
  | nil => exact .refl t
  | cons pair rest ih => exact (VarTable.intern_extends t pair.2).trans (ih _)

theorem registerMap_lookup (t : VarTable) (pairs : List (VarId × String)) :
    ((registerMap t pairs).1.lookup x).map (registerMap t pairs).2.nameOf = pairs.lookup x := by
  induction pairs generalizing t with
  | nil => rfl
  | cons pair rest ih =>
    obtain ⟨id, register⟩ := pair
    simp only [registerMap, List.lookup_cons]
    split
    · rw [Option.map_some, (registerMap_extends _ rest).nameOf (VarTable.intern_lt_size t register),
        VarTable.nameOf_intern]
    · exact ih _

def chosen (t : VarTable) (rf : RegisterFile) (attempt : Coloring) : List (VarId × String) :=
  (attempt.assigned t).filterMap fun (id, c) => (rf.registers[c]?).map fun register => (id, register)

theorem mem_chosen {r : String} : (x, r) ∈ chosen t rf attempt ↔
    t.isRegister x = false ∧ ∃ c : Nat, attempt.colors[x]? = some c ∧ rf.registers[c]? = some r := by
  simp only [chosen, Coloring.assigned, List.mem_filterMap, List.mem_filter, Option.map_eq_some_iff,
    Bool.not_eq_true', Prod.exists, Std.ExtTreeMap.mem_toList_iff_getElem?_eq_some, Prod.mk.injEq]
  constructor
  · intro h
    obtain ⟨y, c, ⟨colored, plain⟩, r', found, rfl, rfl⟩ := h
    exact ⟨plain, c, colored, found⟩
  · intro h
    obtain ⟨plain, c, colored, found⟩ := h
    exact ⟨x, c, ⟨colored, plain⟩, r, found, rfl, rfl⟩

theorem lookup_chosen : (chosen t rf attempt).lookup x =
    if t.isRegister x then none else (attempt.colors[x]?).bind fun c => rf.registers[c]? := by
  have value : ∀ r, (if t.isRegister x then none
      else (attempt.colors[x]?).bind fun c => rf.registers[c]?) = some r ↔ (x, r) ∈ chosen t rf attempt := by
    intro r
    rw [mem_chosen]
    split <;> simp_all [Option.bind_eq_some_iff]
  have member : ∀ r, (chosen t rf attempt).lookup x = some r → (x, r) ∈ chosen t rf attempt := by
    intro r found
    obtain ⟨before, after, split, -⟩ := List.lookup_eq_some_iff.mp found
    simp [split]
  refine Option.ext fun r => ?_
  rw [value r]
  refine ⟨member r, fun inside => ?_⟩
  obtain ⟨r', found⟩ := Option.isSome_iff_exists.mp
    (List.lookup_isSome_iff.mpr ⟨(x, r), inside, beq_self_eq_true x⟩)
  -- A variable has one color, so that it is listed with one register.
  rw [found, ← (value r).mpr inside, (value r').mpr (member r' found)]

def replacement (t : VarTable) (rf : RegisterFile) (attempt : Coloring) (x : VarId) : VarId :=
  ((registerMap t (chosen t rf attempt)).1.lookup x).getD x

theorem assignRegisters_eq (f : Function) (rf : RegisterFile) (attempt : Coloring) :
    (assignRegisters f rf attempt).1 = { f with
      body := f.body.map (·.rename (replacement f.table rf attempt))
      table := (registerMap f.table (chosen f.table rf attempt)).2 } := rfl

theorem nameOf_replacement (known : x < t.size) :
    (registerMap t (chosen t rf attempt)).2.nameOf (replacement t rf attempt x) =
      attempt.registerOf rf t x := by
  rw [replacement, ← Option.getD_map (registerMap t (chosen t rf attempt)).2.nameOf, registerMap_lookup,
    lookup_chosen, (registerMap_extends t _).nameOf known, Coloring.registerOf]
  split <;> rfl

end Allocation

-- A function with its variables in registers, as `home` says: registers stay what they are, and what
-- outlives a definition is not in its register.
structure Assigned (rf : RegisterFile) (s : Sheet) (lv : Liveness) (ρ : VarId → VarId)
    (home : VarId → String) (g : Function) : Prop where
  body : g.body = s.function.body.map (·.rename ρ)
  named : ∀ x < s.function.table.size, g.table.nameOf (ρ x) = home x
  register : ∀ x, s.function.table.isRegister x = true → home x = s.function.table.nameOf x
  allocatable : ∀ x ∈ s.referenced, home x ∈ rf.registers
  apart : ∀ i inst, s.function.body[i]? = some inst → ∀ x, inst.Defines rf s.function.table x →
    ∀ y ∈ lv.liveOut i, x ≠ y → home x ≠ home y

namespace Allocation

variable {rf : RegisterFile} {s : Sheet} {lv : Liveness} {g : Graph} {attempt : Coloring} {x : VarId}
  (accepted : rf.Accepted) (analyzed : s.Analyzed rf lv) (interferes : Graph.Interferes rf s lv g)
  (attempted : Coloring.Attempted rf g attempt) (success : attempt.success = true)

include accepted analyzed interferes attempted success

theorem registerOf_node (node : x ∈ g.adj) : ∃ c : Nat, attempt.colors[x]? = some c ∧
    rf.registers[c]? = some (attempt.registerOf rf s.function.table x) := by
  obtain ⟨proper, complete⟩ := attempted.of_success success
  obtain ⟨c, colored⟩ := complete x node
  refine ⟨c, colored, ?_⟩
  rw [Coloring.registerOf]
  split
  · rename_i register
    obtain ⟨c', own⟩ := (interferes.isRegister_iff accepted analyzed node).mp register
    cases Option.some.inj (colored.symm.trans (proper.kept x c' node own))
    exact ((interferes.color x c).mp own).2
  · have inside : c < rf.registers.length := proper.bounded x c colored
    simp [colored, inside]

theorem assignRegisters_assigned :
    Assigned rf s lv (replacement s.function.table rf attempt) (attempt.registerOf rf s.function.table)
      (assignRegisters s.function rf attempt).1 := by
  rw [assignRegisters_eq]
  refine ⟨rfl, fun x known => nameOf_replacement known, fun x register => if_pos register, ?_, ?_⟩
  · intro x member
    obtain ⟨c, -, found⟩ := registerOf_node accepted analyzed interferes attempted success
      ((interferes.node x).mpr (.inr member))
    exact List.mem_of_getElem? found
  · intro i inst here x defined y out differ same
    obtain ⟨note, noted, described⟩ := analyzed.note_of_inst here
    have conflict : Graph.Conflict s lv x y :=
      ⟨i, note, noted, .inl ⟨(described.defined x).mpr defined, out⟩⟩
    have edge : y ∈ g.neighborSet x := (interferes.edge x y).mpr ⟨differ, .inr conflict⟩
    obtain ⟨c, colored, found⟩ := registerOf_node accepted analyzed interferes attempted success
      ((interferes.node x).mpr (.inr (analyzed.referenced_iff.mpr
        ⟨inst, List.mem_of_getElem? here, .inr defined⟩)))
    obtain ⟨c', colored', found'⟩ := registerOf_node accepted analyzed interferes attempted success
      ((interferes.node y).mpr (.inr (analyzed.live_referenced.2 i y out)))
    -- Registers are listed once, so that one register means one color.
    rw [same] at found
    have sameColor : c = c' := by
      have inside := (List.getElem?_eq_some_iff.mp found).1
      exact (List.getElem?_inj inside accepted.distinct).mp (found.trans found'.symm)
    exact (attempted.of_success success).1.apart x y c edge colored (sameColor ▸ colored')

end Allocation

namespace Machine

structure Mirrors (rf : RegisterFile) (t : VarTable) (lv : Liveness) (home : VarId → String)
    (m m' : State) : Prop where
  status : m'.status = m.status
  memory : m'.memory = m.memory
  calls : m'.calls = m.calls
  pointer : m'.vars rf.sp = m.vars rf.sp
  live : ∀ pc, m.status = .running pc → ∀ x ∈ lv.liveIn pc, m'.vars (home x) = m.vars (t.nameOf x)
  returned : m.status = .ended .returned → ∀ r ∈ rf.result :: rf.calleeSaved, m'.vars r = m.vars r

variable {rf : RegisterFile} {s : Sheet} {lv : Liveness} {ρ : VarId → VarId} {home : VarId → String}
  {g : Function} {W : World} {slots : List Word} {m m' : State} {pc : Nat} {inst : Instruction} {x : VarId}
  (accepted : rf.Accepted) (analyzed : s.Analyzed rf lv) (assigned : Assigned rf s lv ρ home g)

section Instruction

variable (here : s.function.body[pc]? = some inst) (pointer : m'.vars rf.sp = m.vars rf.sp)
  (live : ∀ x ∈ lv.liveIn pc, m'.vars (home x) = m.vars (s.function.table.nameOf x))

include analyzed assigned here live

include pointer in
theorem mirrored_reads : ∀ op ∈ inst.reads,
    m'.value W g.table (op.rename ρ) = m.value W s.function.table op := by
  refine value_rename fun x reading => ?_
  have operand := Instruction.reads_subset_operands inst reading
  have known := (analyzed.valid.resolvable inst (List.mem_of_getElem? here)).operands x operand
  rw [assigned.named x known]
  by_cases isPointer : s.function.table.nameOf x = rf.sp
  · have register : s.function.table.isRegister x = true := by
      rw [VarTable.isRegister_eq analyzed.valid.sound analyzed.valid.convention known]
      exact RegisterFile.isRegister_iff.mpr (.inl isPointer)
    rw [assigned.register x register, isPointer, pointer]
  · exact live x (analyzed.live_of_uses here (.inl ⟨reading, isPointer⟩))

include accepted

theorem mirrored_implicit : ∀ r ∈ inst.implicitReads rf, m'.vars r = m.vars r := by
  intro r implied
  obtain ⟨note, -, described⟩ := analyzed.note_of_inst here
  obtain ⟨x, known, rfl⟩ := VarTable.exists_of_mem_names
    (described.implied r (List.mem_append_left _ implied))
  have register : s.function.table.isRegister x = true := by
    rw [VarTable.isRegister_eq analyzed.valid.sound analyzed.valid.convention known]
    exact RegisterFile.isRegister_of_mem (Instruction.implicitReads_allocatable accepted inst _ implied)
  have same := live x (analyzed.live_of_uses here (.inr ⟨known, implied⟩))
  rwa [assigned.register x register] at same

include pointer in
theorem mirrored_call {callee : Callee} {arity : Word} (memory : m'.memory = m.memory)
    (calls : inst.arity? = some arity) :
    m'.call rf slots callee arity = m.call rf slots callee arity := by
  have args : (rf.args.take arity.toNatClampNeg).map m'.vars =
      (rf.args.take arity.toNatClampNeg).map m.vars := by
    refine List.map_congr_left fun r member => ?_
    rw [← (UseDef.call_implicitReads rf calls).1] at member
    exact mirrored_implicit accepted analyzed assigned here live r member
  rw [State.call, State.call, args, memory, pointer]

omit accepted pointer in
theorem mirrored_write {d y : VarId} (written : inst.destination? = some (.var d))
    (spares : inst.writesTo s.function.table ≠ some rf.sp) (out : y ∈ lv.liveOut pc) (w : Word) :
    Function.update m'.vars (home d) w (home y) =
      Function.update m.vars (s.function.table.nameOf d) w (s.function.table.nameOf y) := by
  have dKnown := (analyzed.valid.resolvable inst (List.mem_of_getElem? here)).operands d
    (Instruction.destination?_mem_operands written)
  have known := analyzed.referenced_lt_size (analyzed.live_referenced.2 pc y out)
  have defined : inst.Defines rf s.function.table d := by
    refine .inl ⟨written, fun isPointer => spares ?_⟩
    rw [Instruction.writesTo_of_destination written, isPointer]
  by_cases same : d = y
  · subst same
    simp
  · have differ : s.function.table.nameOf y ≠ s.function.table.nameOf d := fun sameName =>
      same (VarTable.nameOf_inj analyzed.valid.sound known dKnown sameName).symm
    have apart := assigned.apart pc inst here d defined y out same
    rw [Function.update_of_ne apart.symm, Function.update_of_ne differ]
    refine live y (analyzed.live_of_kept here out fun alsoDefined => ?_)
    rcases alsoDefined with ⟨written', -⟩ | ⟨-, implied⟩
    · rw [written] at written'
      cases written'
      exact same rfl
    · simp [Instruction.implicitWrites_eq_nil written] at implied

-- What outlives a call is in no register that the call may use, unless it is that register.
omit pointer in
theorem mirrored_saved {y : VarId} {arity : Word} (calls : inst.arity? = some arity)
    (out : y ∈ lv.liveOut pc) (answer : String → Word) :
    (if home y ∈ rf.callerSaved then answer (home y) else m'.vars (home y)) =
      if s.function.table.nameOf y ∈ rf.callerSaved then answer (s.function.table.nameOf y)
      else m.vars (s.function.table.nameOf y) := by
  obtain ⟨-, clobbered, plain⟩ := UseDef.call_implicitReads rf calls
  have known := analyzed.referenced_lt_size (analyzed.live_referenced.2 pc y out)
  have register : ∀ x < s.function.table.size, s.function.table.nameOf x ∈ rf.callerSaved →
      home x = s.function.table.nameOf x := by
    intro x xKnown saved
    refine assigned.register x ?_
    rw [VarTable.isRegister_eq analyzed.valid.sound analyzed.valid.convention xKnown]
    exact RegisterFile.isRegister_of_mem (accepted.callerSaved _ saved)
  by_cases saved : s.function.table.nameOf y ∈ rf.callerSaved
  · rw [register y known saved]
    simp [saved]
  · have free : home y ∉ rf.callerSaved := by
      intro taken
      obtain ⟨note, -, described⟩ := analyzed.note_of_inst here
      obtain ⟨x, xKnown, named⟩ := VarTable.exists_of_mem_names
        (described.implied (home y) (List.mem_append_right _ (clobbered.symm ▸ taken)))
      have defined : inst.Defines rf s.function.table x := .inr ⟨xKnown, clobbered.symm ▸ named ▸ taken⟩
      have differ : x ≠ y := by
        intro same
        subst same
        exact saved (named ▸ taken)
      exact assigned.apart pc inst here x defined y out differ ((register x xKnown (named ▸ taken)).trans named)
    rw [if_neg free, if_neg saved]
    refine live y (analyzed.live_of_kept here out fun defined => ?_)
    rcases defined with ⟨written, -⟩ | ⟨-, implied⟩
    · rw [plain] at written
      cases written
    · exact saved (clobbered ▸ implied)

include pointer in
theorem mirrored_vars {y : VarId} {act : Action} (memory : m'.memory = m.memory)
    (does : inst.action W m.memory (m.value W s.function.table) = act)
    (spares : inst.writesTo s.function.table ≠ some rf.sp) (goes : act.follows.isSome)
    (out : y ∈ lv.liveOut pc) :
    m'.varsAfter W rf slots ((inst.rename ρ).writesTo g.table) act (home y) =
      m.varsAfter W rf slots (inst.writesTo s.function.table) act (s.function.table.nameOf y) := by
  cases act with
  | write w =>
    obtain ⟨op, written⟩ := Option.isSome_iff_exists.mp
      ((Instruction.action_write _ _ _).mp ⟨w, does⟩)
    obtain ⟨d, known, rfl⟩ :=
      (analyzed.valid.resolvable inst (List.mem_of_getElem? here)).destination_var written
    rw [Instruction.writesTo_rename ρ written, Instruction.writesTo_of_destination written,
      assigned.named d known]
    exact mirrored_write analyzed assigned here live written spares out w
  | call callee arity =>
    have calls := Instruction.arity?_of_action does
    have returns : callee.isTrap = false := by
      rw [Action.follows] at goes
      split at goes <;> simp_all
    simp only [State.varsAfter, returns, Bool.false_eq_true, if_false,
      mirrored_call accepted analyzed assigned here pointer live memory calls]
    exact mirrored_saved accepted analyzed assigned here live calls out _
  | store _ _ | jump _ | ret =>
    refine live y (analyzed.live_of_kept here out ?_)
    exact Instruction.not_defines_of_action does (by simp) (by simp)

end Instruction

include assigned in
theorem jump_assigned (pc : Nat) : g.jump pc = s.function.jump pc := by
  funext target
  cases target with
  | none => rfl
  | some symbol => simp only [Function.jump, assigned.body, Flow.labelIndex?_map_rename, List.length_map]

include accepted analyzed assigned

theorem spares_assigned (here : s.function.body[pc]? = some inst)
    (spares : inst.writesTo s.function.table ≠ some rf.sp) :
    (inst.rename ρ).writesTo g.table ≠ some rf.sp := by
  cases written : inst.destination? with
  | none => simp [Instruction.writesTo, Instruction.destination?_rename, written]
  | some op =>
    have member := List.mem_of_getElem? here
    obtain ⟨d, known, rfl⟩ := (analyzed.valid.resolvable inst member).destination_var written
    rw [Instruction.writesTo_rename ρ written, assigned.named d known]
    rw [Instruction.writesTo_of_destination written] at spares
    have defined : inst.Defines rf s.function.table d :=
      .inl ⟨written, fun isPointer => spares (congrArg some isPointer)⟩
    have register := assigned.allocatable d (analyzed.referenced_iff.mpr ⟨inst, member, .inr defined⟩)
    exact fun same => accepted.ne_sp register (Option.some.inj same)

theorem Mirrors.after {act : Action} (mirrors : Mirrors rf s.function.table lv home m m')
    (at_pc : m.status = .running pc) (here : s.function.body[pc]? = some inst)
    (does : inst.action W m.memory (m.value W s.function.table) = act)
    (spares : inst.writesTo s.function.table ≠ some rf.sp) :
    Mirrors rf s.function.table lv home
      (m.after W rf slots (inst.writesTo s.function.table) (s.function.jump pc) act)
      (m'.after W rf slots ((inst.rename ρ).writesTo g.table) (s.function.jump pc) act) := by
  have live := mirrors.live pc at_pc
  have call : ∀ callee arity, act = .call callee arity →
      m'.call rf slots callee arity = m.call rf slots callee arity := by
    intro callee arity same
    subst same
    exact mirrored_call accepted analyzed assigned here mirrors.pointer live mirrors.memory
      (Instruction.arity?_of_action does)
  refine ⟨rfl, ?_, ?_, ?_, fun pc' goes x alive => ?_, fun returns r saved => ?_⟩
  · exact funext fun a => memoryAfter_congr call (congrFun mirrors.memory a)
  · exact callsAfter_congr call mirrors.calls
  · have unsaved : rf.sp ∉ rf.callerSaved := fun saved => accepted.sp_apart (accepted.callerSaved _ saved)
    simp only [State.after, varsAfter_of_ne spares unsaved,
      varsAfter_of_ne (spares_assigned accepted analyzed assigned here spares) unsaved, mirrors.pointer]
  · simp only [State.after, Action.status] at goes
    split at goes
    · rename_i target follows
      cases goes
      subst does
      exact mirrored_vars accepted analyzed assigned here mirrors.pointer live mirrors.memory rfl spares
        (by rw [follows]; rfl) (analyzed.live_of_follows here follows alive)
    · cases goes
  · obtain rfl := Action.eq_ret_of_status returns
    obtain rfl := Instruction.eq_ret_of_action does
    exact mirrored_implicit accepted analyzed assigned here live r saved

theorem Mirrors.step (mirrors : Mirrors rf s.function.table lv home m m')
    (spares : s.function.SparesPointer rf m) :
    Mirrors rf s.function.table lv home (s.function.step W rf slots m) (g.step W rf slots m') := by
  cases at_pc : m.status with
  | ended how =>
    rw [step_ended at_pc, step_ended (mirrors.status.trans at_pc)]
    exact mirrors
  | running pc =>
    have at_pc' := mirrors.status.trans at_pc
    cases here : s.function.body[pc]? with
    | none =>
      have none : g.body[pc]? = none := by rw [assigned.body, List.getElem?_map, here]; rfl
      rw [step_ranOut at_pc here, step_ranOut at_pc' none]
      exact ⟨rfl, mirrors.memory, mirrors.calls, mirrors.pointer, by simp, by simp⟩
    | some inst =>
      have here' : g.body[pc]? = some (inst.rename ρ) := by rw [assigned.body, List.getElem?_map, here]; rfl
      have reads := mirrored_reads (W := W) analyzed assigned here mirrors.pointer (mirrors.live pc at_pc)
      rw [step_inst at_pc here, step_inst at_pc' here', jump_assigned assigned,
        Instruction.action_rename ρ reads fun a _ => congrFun mirrors.memory a]
      exact mirrors.after accepted analyzed assigned at_pc here rfl (spares pc inst at_pc here)

theorem Mirrors.run (n : Nat) (mirrors : Mirrors rf s.function.table lv home m m')
    (spares : ∀ k < n, s.function.SparesPointer rf (s.function.run W rf slots k m)) :
    Mirrors rf s.function.table lv home (s.function.run W rf slots n m) (g.run W rf slots n m') := by
  induction n with
  | zero => exact mirrors
  | succ n ih =>
    rw [run_succ, run_succ]
    exact (ih fun k before => spares k (Nat.lt_succ_of_lt before)).step accepted analyzed assigned
      (spares n (Nat.lt_succ_self n))

end Machine

end RegisterAllocation
