import RegisterAllocation.Proofs.Preservation

namespace RegisterAllocation

section KnownNames

variable {rf : RegisterFile} {t : VarTable} {inst : Instruction} {sp : VarId}

theorem UseDef.ofInstruction_known (accepted : rf.Accepted) (sound : t.Sound)
    (convention : t.convention = some rf) (pointer : t.id? rf.sp = some sp)
    (known : ∀ r ∈ rf.registers, r ∈ t.names) (resolvable : inst.Resolvable t) :
    ∃ set, ofInstruction (some sp) t inst = .ok (set, t) ∧ Describes rf t inst set := by
  obtain ⟨set, t', found, -, -, described⟩ :=
    ofInstruction_describes accepted sound convention pointer resolvable
  suffices same : t' = t by
    subst same
    exact ⟨set, found, described⟩
  refine (ofInstruction_table accepted convention found).trans (VarTable.internAll_known fun r member => known r ?_)
  rcases List.mem_append.mp member with read | written
  · exact Instruction.implicitReads_allocatable accepted inst r read
  · exact Instruction.implicitWrites_allocatable accepted inst r written

end KnownNames

namespace Semantics

structure State (Value Memory : Type) where
  vars : String → Value
  memory : Memory

inductive Exit where
  | next | branch | stop
  deriving DecidableEq, Repr

structure Renames (rf : RegisterFile) (t : VarTable) (inst : Instruction) (ρ : VarId → VarId) : Prop where
  register : ∀ x, t.isRegister x = true → ρ x = x
  spelled : ∀ x, .var x ∈ inst.operands → Validation.spelling t (.var (ρ x)) = []
  virtual : ∀ x, .var x ∈ inst.operands → t.isRegister x = false → t.nameOf (ρ x) ≠ rf.sp

end Semantics

open Semantics

-- A meaning of the instructions over a table. An instruction overwrites only what its sets say that it
-- defines, the stack pointer and the memory; what it does depends only on what it uses, the stack
-- pointer and the memory, and its variables may be renamed. Where it ends the run, nothing is said about
-- what it leaves in the variables.
structure Semantics (rf : RegisterFile) (t : VarTable) (Value Memory : Type) where
  exec : Instruction → State Value Memory → State Value Memory × Exit
  frame : ∀ inst set, Validation.instruction t inst = [] →
    UseDef.ofInstruction (t.id? rf.sp) t inst = .ok (set, t) → ∀ m, ∀ x < t.size, x ∉ set.defined →
      t.nameOf x ≠ rf.sp → (exec inst m).1.vars (t.nameOf x) = m.vars (t.nameOf x)
  uniform : ∀ inst set ρ, Validation.instruction t inst = [] →
    UseDef.ofInstruction (t.id? rf.sp) t inst = .ok (set, t) → Renames rf t inst ρ → ∀ m m',
      (∀ x ∈ set.used, m'.vars (t.nameOf (ρ x)) = m.vars (t.nameOf x)) →
      m'.vars rf.sp = m.vars rf.sp → m'.memory = m.memory →
      (exec (inst.rename ρ) m').2 = (exec inst m).2 ∧
        (exec (inst.rename ρ) m').1.memory = (exec inst m).1.memory ∧
        (exec (inst.rename ρ) m').1.vars rf.sp = (exec inst m).1.vars rf.sp ∧
        ((exec inst m).2 ≠ .stop → ∀ x ∈ set.defined,
          (exec (inst.rename ρ) m').1.vars (t.nameOf (ρ x)) = (exec inst m).1.vars (t.nameOf x))

namespace Semantics

variable {rf : RegisterFile} {t : VarTable} {Value Memory : Type}

def Exit.index? (body : List Instruction) (i : Nat) (inst : Instruction) : Exit → Option Nat
  | .next => if inst.isTerminal then none else some (i + 1)
  | .branch => inst.target?.bind fun target => Flow.labelIndex? target body
  | .stop => none

def step (sem : Semantics rf t Value Memory) (body : List Instruction) :
    Option Nat × State Value Memory → Option Nat × State Value Memory
  | (none, m) => (none, m)
  | (some i, m) =>
    match body[i]? with
    | none => (none, m)
    | some inst => ((sem.exec inst m).2.index? body i inst, (sem.exec inst m).1)

def run (sem : Semantics rf t Value Memory) (body : List Instruction) (n : Nat)
    (m : State Value Memory) : Option Nat × State Value Memory :=
  (sem.step body)^[n] (some 0, m)

variable {sem : Semantics rf t Value Memory} {body : List Instruction} {i n : Nat} {inst : Instruction}
  {m : State Value Memory}

theorem step_outside (outside : body[i]? = none) : sem.step body (some i, m) = (none, m) := by
  simp only [step, outside]

theorem step_inst (here : body[i]? = some inst) :
    sem.step body (some i, m) = ((sem.exec inst m).2.index? body i inst, (sem.exec inst m).1) := by
  simp only [step, here]

theorem run_succ : sem.run body (n + 1) m = sem.step body (sem.run body n m) :=
  Function.iterate_succ_apply' ..

theorem Exit.index?_rename (ρ : VarId → VarId) (exit : Exit) :
    exit.index? (body.map (·.rename ρ)) i (inst.rename ρ) = exit.index? body i inst := by
  cases exit <;> simp only [index?, Instruction.isTerminal_rename, Instruction.target?_rename,
    Flow.labelIndex?_map_rename]

theorem Exit.edge {exit : Exit} {j : Nat} (here : body[i]? = some inst)
    (goes : exit.index? body i inst = some j) (inside : j < body.length) : Flow.Edge body i j := by
  refine ⟨inst, here, ?_⟩
  cases exit with
  | next =>
    simp only [index?] at goes
    split at goes
    · cases goes
    · rename_i falls
      cases goes
      exact .inl ⟨rfl, inside, Bool.eq_false_of_not_eq_true falls⟩
  | branch =>
    obtain ⟨target, named, found⟩ := Option.bind_eq_some_iff.mp goes
    exact .inr ⟨target, named, found⟩
  | stop => cases goes

end Semantics

def VarTable.seat (t : VarTable) (c : VarId → String) (x : VarId) : VarId :=
  if t.isRegister x then x else (t.id? (c x)).getD x

def Function.recolored (f : Function) (c : VarId → String) : Function :=
  { f with body := f.body.map (·.rename (f.table.seat c)) }

-- Every node has an allocatable register, registers are in themselves, and no two ends of an edge share
-- one.
structure Graph.ProperlyColors (rf : RegisterFile) (t : VarTable) (g : Graph) (c : VarId → String) :
    Prop where
  allocatable : ∀ x ∈ g.nodes, c x ∈ rf.registers
  register : ∀ x ∈ g.nodes, t.isRegister x = true → c x = t.nameOf x
  apart : ∀ x ∈ g.nodes, ∀ y ∈ g.neighbors x, c x ≠ c y

instance (rf : RegisterFile) (t : VarTable) (g : Graph) (c : VarId → String) :
    Decidable (g.ProperlyColors rf t c) :=
  decidable_of_iff ((∀ x ∈ g.nodes, c x ∈ rf.registers) ∧
      (∀ x ∈ g.nodes, t.isRegister x = true → c x = t.nameOf x) ∧
      ∀ x ∈ g.nodes, ∀ y ∈ g.neighbors x, c x ≠ c y)
    ⟨fun h => ⟨h.1, h.2.1, h.2.2⟩, fun h => ⟨h.allocatable, h.register, h.apart⟩⟩

namespace Semantics

structure Agree {Value Memory : Type} (rf : RegisterFile) (t : VarTable) (lv : Liveness)
    (c : VarId → String) (p p' : Option Nat × State Value Memory) : Prop where
  index : p'.1 = p.1
  pointer : p'.2.vars rf.sp = p.2.vars rf.sp
  memory : p'.2.memory = p.2.memory
  live : ∀ i, p.1 = some i → ∀ x ∈ lv.liveIn i, p'.2.vars (c x) = p.2.vars (t.nameOf x)

section Colored

variable {rf : RegisterFile} {s : Sheet} {lv : Liveness} {g : Graph} {c : VarId → String} {x : VarId}
  (analyzed : s.Analyzed rf lv) (interferes : Graph.Interferes rf s lv g)
  (registers : ∀ r ∈ rf.registers, r ∈ s.function.table.names)
  (colors : g.ProperlyColors rf s.function.table c)

include registers colors in
theorem nameOf_seat (node : x ∈ g.adj) : s.function.table.nameOf (s.function.table.seat c x) = c x := by
  have member := Graph.mem_nodes.mpr node
  unfold VarTable.seat
  split
  · rename_i register
    exact (colors.register x member register).symm
  · cases found : s.function.table.id? (c x) with
    | none =>
      exact absurd (registers _ (colors.allocatable x member)) (VarTable.id?_eq_none_iff.mp found)
    | some id =>
      obtain ⟨known, hit, -⟩ := List.findIdx?_eq_some_iff_getElem.mp found
      simpa [VarTable.nameOf, List.getElem?_eq_getElem known] using hit

include analyzed interferes registers colors in
theorem recolored_assigned :
    Assigned rf s lv (s.function.table.seat c)
      (fun x => s.function.table.nameOf (s.function.table.seat c x)) (s.function.recolored c) := by
  have node : ∀ x ∈ s.referenced, x ∈ g.adj := fun x member => (interferes.node x).mpr (.inr member)
  refine ⟨rfl, fun x _ => rfl, fun x register => ?_, fun x member => ?_, ?_⟩
  · simp only [VarTable.seat, register, if_true]
  · simp only [nameOf_seat registers colors (node x member)]
    exact colors.allocatable x (Graph.mem_nodes.mpr (node x member))
  · intro i inst here x defined y out differ
    obtain ⟨note, noted, described⟩ := analyzed.note_of_inst here
    have conflict : Graph.Conflict s lv x y :=
      ⟨i, note, noted, .inl ⟨(described.defined x).mpr defined, out⟩⟩
    have edge : y ∈ g.neighborSet x := (interferes.edge x y).mpr ⟨differ, .inr conflict⟩
    obtain ⟨left, right⟩ := conflict.referenced analyzed.live
    simp only [nameOf_seat registers colors (node x left), nameOf_seat registers colors (node y right)]
    exact colors.apart x (Graph.mem_nodes.mpr (node x left)) y (Graph.mem_neighbors.mpr edge)

end Colored

section Assigned

variable {rf : RegisterFile} {s : Sheet} {lv : Liveness} {ρ : VarId → VarId} {g : Function} {Value Memory : Type}
  {sem : Semantics rf s.function.table Value Memory} {m m' : State Value Memory} {i : Nat}
  {inst : Instruction} {x y : VarId}
  (accepted : rf.Accepted) (analyzed : s.Analyzed rf lv)
  (registers : ∀ r ∈ rf.registers, r ∈ s.function.table.names)
  (keeps : ∀ x, s.function.table.isRegister x = true → ρ x = x)
  (assigned : Assigned rf s lv ρ (fun x => s.function.table.nameOf (ρ x)) g)

include accepted analyzed registers in
theorem sets_of_clean (clean : Validation.instruction s.function.table inst = []) :
    ∃ set, UseDef.ofInstruction (s.function.table.id? rf.sp) s.function.table inst =
      .ok (set, s.function.table) ∧ UseDef.Describes rf s.function.table inst set := by
  cases pointer : s.function.table.id? rf.sp with
  | none => exact absurd analyzed.pointer (VarTable.id?_eq_none_iff.mp pointer)
  | some sp =>
    exact UseDef.ofInstruction_known accepted analyzed.valid.sound analyzed.valid.convention pointer registers
      (Validation.resolvable_of_clean clean)

include accepted analyzed in
theorem lt_size_of_allocatable (allocatable : s.function.table.nameOf x ∈ rf.registers) :
    x < s.function.table.size ∧ s.function.table.isRegister x = true := by
  have known : x < s.function.table.size := by
    by_contra beyond
    have missing : s.function.table.vars[x]? = none := List.getElem?_eq_none (Nat.le_of_not_lt beyond)
    have empty := (accepted.spelled _ allocatable).1
    simp [VarTable.nameOf, missing] at empty
  refine ⟨known, ?_⟩
  rw [VarTable.isRegister_eq analyzed.valid.sound analyzed.valid.convention known]
  exact RegisterFile.isRegister_of_mem allocatable

include accepted analyzed keeps assigned in
theorem assigned_renames (here : s.function.body[i]? = some inst) :
    Renames rf s.function.table inst ρ := by
  have member := List.mem_of_getElem? here
  have allocatable : ∀ x, .var x ∈ inst.operands → s.function.table.isRegister x = false →
      s.function.table.nameOf (ρ x) ∈ rf.registers := by
    intro x operand virtual
    have apart : s.function.table.nameOf x ≠ rf.sp := by
      intro same
      have known := (analyzed.valid.resolvable inst member).operands x operand
      rw [analyzed.valid.pointer_isRegister ⟨known, same⟩] at virtual
      cases virtual
    apply assigned.allocatable x (analyzed.referenced_iff.mpr ⟨inst, member, ?_⟩)
    rcases Instruction.mem_operands_iff.mp operand with read | written
    · exact .inl (.inl ⟨read, apart⟩)
    · exact .inr (.inl ⟨written, apart⟩)
  refine ⟨keeps, fun x operand => ?_, fun x operand virtual => accepted.ne_sp (allocatable x operand virtual)⟩
  cases register : s.function.table.isRegister x with
  | true =>
    rw [keeps x register]
    exact Validation.operands_spelled (analyzed.valid.instructions inst member) _ operand
  | false =>
    apply Validation.spelling_var.mpr
    exact .inl (lt_size_of_allocatable accepted analyzed (allocatable x operand register)).2

include accepted analyzed keeps in
theorem defines_of_rename (resolvable : inst.Resolvable s.function.table)
    (defined : (inst.rename ρ).Defines rf s.function.table y) :
    ∃ d, inst.Defines rf s.function.table d ∧ ρ d = y := by
  rcases defined with ⟨written, apart⟩ | ⟨known, implied⟩
  · rw [Instruction.destination?_rename, Option.map_eq_some_iff] at written
    obtain ⟨op, written, renamed⟩ := written
    cases op with
    | var d =>
      cases renamed
      refine ⟨d, .inl ⟨written, fun same => apart ?_⟩, rfl⟩
      have known := resolvable.operands d (Instruction.destination?_mem_operands written)
      rw [keeps d (analyzed.valid.pointer_isRegister ⟨known, same⟩), same]
    | num _ | label _ | name _ => cases renamed
  · rw [Instruction.implicitWrites_rename] at implied
    have allocatable := Instruction.implicitWrites_allocatable accepted inst _ implied
    exact ⟨y, .inr ⟨known, implied⟩, keeps y (lt_size_of_allocatable accepted analyzed allocatable).2⟩

include accepted analyzed registers keeps assigned

theorem agree_live (here : s.function.body[i]? = some inst)
    (live : ∀ x ∈ lv.liveIn i, m'.vars (s.function.table.nameOf (ρ x)) = m.vars (s.function.table.nameOf x))
    (pointer : m'.vars rf.sp = m.vars rf.sp) (memory : m'.memory = m.memory)
    (continues : (sem.exec inst m).2 ≠ .stop) (out : y ∈ lv.liveOut i) :
    (sem.exec (inst.rename ρ) m').1.vars (s.function.table.nameOf (ρ y)) =
      (sem.exec inst m).1.vars (s.function.table.nameOf y) := by
  have clean := analyzed.valid.instructions inst (List.mem_of_getElem? here)
  have renames := assigned_renames accepted analyzed keeps assigned here
  obtain ⟨set, found, described⟩ := sets_of_clean accepted analyzed registers clean
  have used : ∀ x ∈ set.used, m'.vars (s.function.table.nameOf (ρ x)) = m.vars (s.function.table.nameOf x) :=
    fun x member => live x (analyzed.live_of_uses here ((described.used x).mp member))
  obtain ⟨-, -, -, written⟩ := sem.uniform inst set ρ clean found renames m m' used pointer memory
  by_cases defined : y ∈ set.defined
  · exact written continues y defined
  · have kept : ¬inst.Defines rf s.function.table y := fun defines =>
      defined ((described.defined y).mpr defines)
    have referenced := analyzed.live_referenced.2 i y out
    have clean' := Validation.instruction_rename clean renames.spelled
    obtain ⟨set', found', described'⟩ := sets_of_clean accepted analyzed registers clean'
    have free : ρ y ∉ set'.defined := by
      intro member
      obtain ⟨d, defines, same⟩ := defines_of_rename accepted analyzed keeps
        (Validation.resolvable_of_clean clean) ((described'.defined (ρ y)).mp member)
      have differ : d ≠ y := fun equal => kept (equal ▸ defines)
      exact assigned.apart i inst here d defines y out differ (congrArg _ same)
    have allocatable := assigned.allocatable y referenced
    rw [sem.frame inst set clean found m y (analyzed.referenced_lt_size referenced) defined
        (analyzed.referenced_ne_sp accepted referenced),
      sem.frame (inst.rename ρ) set' clean' found' m' (ρ y)
        (lt_size_of_allocatable accepted analyzed allocatable).1 free (accepted.ne_sp allocatable)]
    exact live y (analyzed.live_of_kept here out kept)

theorem Agree.step {p p' : Option Nat × State Value Memory}
    (agree : Agree rf s.function.table lv (fun x => s.function.table.nameOf (ρ x)) p p') :
    Agree rf s.function.table lv (fun x => s.function.table.nameOf (ρ x))
      (sem.step s.function.body p) (sem.step g.body p') := by
  obtain ⟨at_i, m⟩ := p
  obtain ⟨at_i', m'⟩ := p'
  obtain ⟨index, pointer, memory, live⟩ := agree
  cases index
  cases at_i with
  | none => exact ⟨rfl, pointer, memory, fun i ended => by cases ended⟩
  | some i =>
    cases here : s.function.body[i]? with
    | none =>
      have outside : g.body[i]? = none := by rw [assigned.body, List.getElem?_map, here]; rfl
      rw [step_outside here, step_outside outside]
      exact ⟨rfl, pointer, memory, by simp⟩
    | some inst =>
      have here' : g.body[i]? = some (inst.rename ρ) := by rw [assigned.body, List.getElem?_map, here]; rfl
      have clean := analyzed.valid.instructions inst (List.mem_of_getElem? here)
      have live : ∀ x ∈ lv.liveIn i, m'.vars (s.function.table.nameOf (ρ x)) =
        m.vars (s.function.table.nameOf x) := live i rfl
      obtain ⟨set, found, described⟩ := sets_of_clean accepted analyzed registers clean
      obtain ⟨exits, memories, pointers, -⟩ := sem.uniform inst set ρ clean found
        (assigned_renames accepted analyzed keeps assigned here) m m'
        (fun x used => live x (analyzed.live_of_uses here ((described.used x).mp used))) pointer memory
      rw [step_inst here, step_inst here', assigned.body, exits, Exit.index?_rename]
      refine ⟨rfl, pointers, memories, fun j goes x alive => ?_⟩
      have edge := Exit.edge here goes (analyzed.liveIn_lt alive)
      have continues : (sem.exec inst m).2 ≠ .stop := by
        intro stops
        rw [stops] at goes
        cases goes
      exact agree_live accepted analyzed registers keeps assigned here live pointer memory continues
        (analyzed.live_of_edge edge alive)

theorem Agree.run (n : Nat)
    (start : Agree rf s.function.table lv (fun x => s.function.table.nameOf (ρ x)) (some 0, m) (some 0, m')) :
    Agree rf s.function.table lv (fun x => s.function.table.nameOf (ρ x))
      (sem.run s.function.body n m) (sem.run g.body n m') := by
  induction n with
  | zero => exact start
  | succ n ih =>
    rw [run_succ, run_succ]
    exact ih.step accepted analyzed registers keeps assigned

end Assigned

theorem recolored_agree {rf : RegisterFile} {s : Sheet} {lv : Liveness} {g : Graph} {c : VarId → String}
    {Value Memory : Type} {sem : Semantics rf s.function.table Value Memory} {m m' : State Value Memory}
    (accepted : rf.Accepted) (analyzed : s.Analyzed rf lv) (interferes : Graph.Interferes rf s lv g)
    (registers : ∀ r ∈ rf.registers, r ∈ s.function.table.names)
    (colors : g.ProperlyColors rf s.function.table c)
    (start : Agree rf s.function.table lv c (some 0, m) (some 0, m')) (n : Nat) :
    Agree rf s.function.table lv c (sem.run s.function.body n m)
      (sem.run (s.function.recolored c).body n m') := by
  -- A live variable is a node, so that its seat is the register that it has as a color.
  have seated : ∀ i, ∀ x ∈ lv.liveIn i,
      s.function.table.nameOf (s.function.table.seat c x) = c x := fun i x alive =>
    nameOf_seat registers colors ((interferes.node x).mpr (.inr (analyzed.live_referenced.1 i x alive)))
  have keeps : ∀ x, s.function.table.isRegister x = true → s.function.table.seat c x = x :=
    fun x register => if_pos register
  have placed : Agree rf s.function.table lv
      (fun x => s.function.table.nameOf (s.function.table.seat c x)) (some 0, m) (some 0, m') := by
    refine ⟨rfl, start.pointer, start.memory, fun i first x alive => ?_⟩
    simp only [seated i x alive]
    exact start.live i first x alive
  have agree : Agree rf s.function.table lv (fun x => s.function.table.nameOf (s.function.table.seat c x))
      (sem.run s.function.body n m) (sem.run (s.function.recolored c).body n m') :=
    placed.run accepted analyzed registers keeps (recolored_assigned analyzed interferes registers colors) n
  refine ⟨agree.index, agree.pointer, agree.memory, fun i at_i x alive => ?_⟩
  rw [← seated i x alive]
  exact agree.live i at_i x alive

end Semantics

namespace Machine

variable {rf : RegisterFile} {t : VarTable} {inst : Instruction} {set : UseDef} {x : VarId} {W : World}
  {slots : List Word} {m m' : State}

def Action.exit (act : Action) : Exit :=
  match act.follows with
  | some none => .next
  | some (some _) => .branch
  | none => .stop

def ofSemantics (m : Semantics.State Word ((Word → Word) × List Call)) : State where
  vars := m.vars
  memory := m.memory.1
  calls := m.memory.2

def exec (W : World) (rf : RegisterFile) (slots : List Word) (t : VarTable) (inst : Instruction)
    (m : Semantics.State Word ((Word → Word) × List Call)) :
    Semantics.State Word ((Word → Word) × List Call) × Exit :=
  let s := ofSemantics m
  let act := inst.action W s.memory (s.value W t)
  ({ vars := s.varsAfter W rf slots (inst.writesTo t) act
     memory := (s.memoryAfter W rf slots act, s.callsAfter rf slots act) }, act.exit)

section Laws

variable (accepted : rf.Accepted) (sound : t.Sound) (convention : t.convention = some rf)
  (clean : Validation.instruction t inst = []) (described : UseDef.Describes rf t inst set)

include sound clean described in
theorem varsAfter_frame {act : Action} (does : inst.action W m.memory (m.value W t) = act) (known : x < t.size)
    (kept : x ∉ set.defined) (apart : t.nameOf x ≠ rf.sp) :
    m.varsAfter W rf slots (inst.writesTo t) act (t.nameOf x) = m.vars (t.nameOf x) := by
  have undefined : ¬inst.Defines rf t x := fun defines => kept ((described.defined x).mpr defines)
  cases act with
  | write w =>
    cases written : inst.writesTo t with
    | none => rfl
    | some name =>
      obtain ⟨d, destination, rfl⟩ := Instruction.destination_of_writesTo written
      have dKnown := (Validation.resolvable_of_clean clean).operands d
        (Instruction.destination?_mem_operands destination)
      apply Function.update_of_ne
      intro same
      cases VarTable.nameOf_inj sound known dKnown same
      exact undefined (.inl ⟨destination, apart⟩)
  | call callee arity =>
    have calls := Instruction.arity?_of_action does
    obtain ⟨-, clobbered, -⟩ := UseDef.call_implicitReads rf calls
    simp only [State.varsAfter]
    split
    · rfl
    · apply if_neg
      intro saved
      exact undefined (.inr ⟨known, clobbered.symm ▸ saved⟩)
  | store _ _ | jump _ | ret => rfl

section Renamed

variable {ρ : VarId → VarId} (renames : Renames rf t inst ρ)
  (used : ∀ x ∈ set.used, m'.vars (t.nameOf (ρ x)) = m.vars (t.nameOf x))
  (pointer : m'.vars rf.sp = m.vars rf.sp)

include sound convention clean described renames used pointer in
theorem renamed_reads : ∀ op ∈ inst.reads, m'.value W t (op.rename ρ) = m.value W t op := by
  apply value_rename
  intro x reading
  by_cases isPointer : t.nameOf x = rf.sp
  · have known := (Validation.resolvable_of_clean clean).operands x
      (Instruction.reads_subset_operands inst reading)
    have register : t.isRegister x = true := by
      rw [VarTable.isRegister_eq sound convention known]
      exact RegisterFile.isRegister_iff.mpr (.inl isPointer)
    rw [renames.register x register, isPointer, pointer]
  · exact used x ((described.used x).mpr (.inl ⟨reading, isPointer⟩))

include sound convention in
theorem isRegister_of_allocatable {r : String} (allocatable : r ∈ rf.registers) (known : x < t.size)
    (named : t.nameOf x = r) : t.isRegister x = true := by
  rw [VarTable.isRegister_eq sound convention known, named]
  exact RegisterFile.isRegister_of_mem allocatable

include accepted sound convention described renames used pointer in
theorem renamed_call {callee : Callee} {arity : Word} (calls : inst.arity? = some arity)
    (memory : m'.memory = m.memory) :
    m'.call rf slots callee arity = m.call rf slots callee arity := by
  have args : (rf.args.take arity.toNatClampNeg).map m'.vars =
      (rf.args.take arity.toNatClampNeg).map m.vars := by
    apply List.map_congr_left
    intro r member
    rw [← (UseDef.call_implicitReads rf calls).1] at member
    obtain ⟨x, known, named⟩ := VarTable.exists_of_mem_names
      (described.implied r (List.mem_append_left _ member))
    have register := isRegister_of_allocatable sound convention
      (Instruction.implicitReads_allocatable accepted inst r member) known named
    have same := used x ((described.used x).mpr (.inr ⟨known, named.symm ▸ member⟩))
    rwa [renames.register x register, named] at same
  rw [State.call, State.call, args, memory, pointer]

include accepted sound convention clean renames in
theorem renamed_pointer (act : Action) (pointer : m'.vars rf.sp = m.vars rf.sp) :
    m'.varsAfter W rf slots ((inst.rename ρ).writesTo t) act rf.sp =
      m.varsAfter W rf slots (inst.writesTo t) act rf.sp := by
  have unsaved : rf.sp ∉ rf.callerSaved := fun saved => accepted.sp_apart (accepted.callerSaved _ saved)
  cases written : inst.destination? with
  | none =>
    have unwritten : ∀ ρ : VarId → VarId, (inst.rename ρ).writesTo t ≠ some rf.sp := by
      simp [Instruction.writesTo, Instruction.destination?_rename, written]
    rw [varsAfter_of_ne (unwritten ρ) unsaved, varsAfter_of_ne (by simp [Instruction.writesTo, written]) unsaved,
      pointer]
  | some op =>
    obtain ⟨d, known, rfl⟩ := (Validation.resolvable_of_clean clean).destination_var written
    rw [Instruction.writesTo_rename ρ written, Instruction.writesTo_of_destination written]
    by_cases isPointer : t.nameOf d = rf.sp
    · have register : t.isRegister d = true := by
        rw [VarTable.isRegister_eq sound convention known]
        exact RegisterFile.isRegister_iff.mpr (.inl isPointer)
      rw [renames.register d register, isPointer]
      cases act with
      | write w => simp [State.varsAfter]
      | call callee arity =>
        simp only [State.varsAfter]
        split <;> simp [pointer, unsaved]
      | store _ _ | jump _ | ret => exact pointer
    · have elsewhere : t.nameOf (ρ d) ≠ rf.sp := by
        cases register : t.isRegister d with
        | true => rwa [renames.register d register]
        | false => exact renames.virtual d (Instruction.destination?_mem_operands written) register
      rw [varsAfter_of_ne (by simpa using elsewhere) unsaved, varsAfter_of_ne (by simpa using isPointer) unsaved,
        pointer]

include accepted sound convention described renames in
theorem renamed_defined {act : Action} (does : inst.action W m.memory (m.value W t) = act)
    (call : ∀ callee arity, act = .call callee arity →
      m'.call rf slots callee arity = m.call rf slots callee arity)
    (continues : act.exit ≠ .stop) (defined : x ∈ set.defined) :
    m'.varsAfter W rf slots ((inst.rename ρ).writesTo t) act (t.nameOf (ρ x)) =
      m.varsAfter W rf slots (inst.writesTo t) act (t.nameOf x) := by
  cases act with
  | write w =>
    rcases (described.defined x).mp defined with ⟨written, -⟩ | ⟨-, implied⟩
    · rw [Instruction.writesTo_rename ρ written, Instruction.writesTo_of_destination written]
      simp [State.varsAfter]
    · obtain ⟨op, written⟩ := Option.isSome_iff_exists.mp ((Instruction.action_write _ _ _).mp ⟨w, does⟩)
      simp [Instruction.implicitWrites_eq_nil written] at implied
  | call callee arity =>
    obtain ⟨-, clobbered, plain⟩ := UseDef.call_implicitReads rf (Instruction.arity?_of_action does)
    rcases (described.defined x).mp defined with ⟨written, -⟩ | ⟨known, implied⟩
    · rw [plain] at written
      cases written
    · have register := isRegister_of_allocatable sound convention
        (Instruction.implicitWrites_allocatable accepted inst _ implied) known rfl
      have returns : callee.isTrap = false := by
        cases trap : callee.isTrap with
        | false => rfl
        | true => exact absurd (by simp [Action.exit, Action.follows, trap]) continues
      rw [clobbered] at implied
      rw [renames.register x register]
      simp [State.varsAfter, returns, implied, call callee arity rfl]
  | store _ _ | jump _ | ret =>
    have undefined : ¬inst.Defines rf t x := Instruction.not_defines_of_action does (by simp) (by simp)
    exact absurd ((described.defined x).mp defined) undefined

end Renamed

end Laws

theorem describes_of_found (accepted : rf.Accepted) (sound : t.Sound) (convention : t.convention = some rf)
    (pointer : rf.sp ∈ t.names) (clean : Validation.instruction t inst = [])
    (found : UseDef.ofInstruction (t.id? rf.sp) t inst = .ok (set, t)) :
    UseDef.Describes rf t inst set := by
  cases named : t.id? rf.sp with
  | none => exact absurd pointer (VarTable.id?_eq_none_iff.mp named)
  | some sp =>
    obtain ⟨set', t', found', -, -, described⟩ := UseDef.ofInstruction_describes accepted sound convention
      named (Validation.resolvable_of_clean clean)
    rw [named, found'] at found
    cases found
    exact described

def semantics (W : World) (rf : RegisterFile) (slots : List Word) (t : VarTable) (accepted : rf.Accepted)
    (sound : t.Sound) (convention : t.convention = some rf) (pointer : rf.sp ∈ t.names) :
    Semantics rf t Word ((Word → Word) × List Call) where
  exec := exec W rf slots t
  frame := by
    intro inst set clean found m x known kept apart
    have described := describes_of_found accepted sound convention pointer clean found
    exact varsAfter_frame sound clean described rfl known kept apart
  uniform := by
    intro inst set ρ clean found renames m m' used same memory
    have described := describes_of_found accepted sound convention pointer clean found
    have words : (ofSemantics m').memory = (ofSemantics m).memory := congrArg Prod.fst memory
    have does : (inst.rename ρ).action W (ofSemantics m').memory ((ofSemantics m').value W t) =
        inst.action W (ofSemantics m).memory ((ofSemantics m).value W t) :=
      Instruction.action_rename ρ (renamed_reads sound convention clean described renames used same)
        fun a _ => congrFun words a
    have call : ∀ callee arity, inst.action W (ofSemantics m).memory ((ofSemantics m).value W t) =
        .call callee arity →
        (ofSemantics m').call rf slots callee arity = (ofSemantics m).call rf slots callee arity :=
      fun callee arity calls => renamed_call accepted sound convention described renames used same
        (Instruction.arity?_of_action calls) words
    simp only [exec, does]
    refine ⟨trivial, ?_, renamed_pointer accepted sound convention clean renames _ same,
      fun continues x defined => ?_⟩
    · refine Prod.ext (funext fun a => memoryAfter_congr call (congrFun words a)) ?_
      exact callsAfter_congr call (congrArg Prod.snd memory)
    · exact renamed_defined accepted sound convention described renames rfl call continues defined

end Machine

namespace Semantics

-- Renaming the variables by any proper coloring of the interference graph, not only by the one that is
-- found, gives a function that runs in step with the original.
theorem recolored_runs {cfg : Config} {rf : RegisterFile} {f : Function}
    (configured : RegisterFile.ofConfig cfg = .ok rf) (sound : f.table.Sound)
    (convention : f.convention = some rf) (clean : f.problems = []) :
    ∃ s lv g built, (Sheet.ofFunction f).analyze = (s, .ok lv) ∧ Graph.build s lv rf = (g, built) ∧
      built.function = { f with table := built.function.table } ∧
      ∀ c : VarId → String, g.ProperlyColors rf built.function.table c →
        ∀ (Value Memory : Type) (sem : Semantics rf built.function.table Value Memory)
          (m m' : State Value Memory),
          (∀ x ∈ lv.liveIn 0, m'.vars (c x) = m.vars (built.function.table.nameOf x)) →
          m'.vars rf.sp = m.vars rf.sp → m'.memory = m.memory →
          ∀ n, Agree rf built.function.table lv c (sem.run f.body n m)
            (sem.run (built.function.recolored c).body n m') := by
  have accepted := RegisterFile.accepted_of_ofConfig configured
  have valid := Function.valid_of_problems sound convention clean
  obtain ⟨s, lv, analysis, analyzed₀, same, -⟩ := Sheet.analyze_valid (s := .ofFunction f) accepted valid
    (by simp [Sheet.ofFunction])
  have analyzed := Graph.build_analyzed analyzed₀
  have interferes := Graph.build_interferes accepted analyzed₀
  have registers : ∀ r ∈ rf.registers, r ∈ (Graph.build s lv rf).2.function.table.names :=
    VarTable.mem_names_internAll _ _
  have kept : (Graph.build s lv rf).2.function =
      { f with table := (Graph.build s lv rf).2.function.table } := by
    rw [Graph.build_snd, Sheet.withTable, same]
    rfl
  generalize made : Graph.build s lv rf = result at analyzed interferes registers kept
  obtain ⟨g, built⟩ := result
  refine ⟨s, lv, g, built, analysis, made, kept, ?_⟩
  intro c colors Value Memory sem m m' live pointer memory n
  have body : f.body = built.function.body := (congrArg Function.body kept).symm
  have start : Agree rf built.function.table lv c (some 0, m) (some 0, m') := by
    refine ⟨rfl, pointer, memory, fun i first => ?_⟩
    cases first
    exact live
  rw [body]
  exact recolored_agree accepted analyzed interferes registers colors start n

open Machine Allocation

def passOn : Function where
  name := "@f"
  args := 1
  table := (VarTable.internAll { convention := some (.draft threeRegisters) } ["%a", "rdi", "rax"]).2
  body := [.assign (.var 0) (.var 1), .assign (.var 2) (.var 0), .ret]

theorem passOn_sound : passOn.table.Sound := VarTable.internAll_sound (VarTable.empty_sound _) _

def inPlace (t : VarTable) (x : VarId) : String := if t.isRegister x then t.nameOf x else "rdi"

def passOnTable : VarTable :=
  (VarTable.internAll { convention := some (.draft threeRegisters) } ["%a", "rdi", "rax", "rsp", "rbx"]).2

def passOnBuilt : Function := { passOn with table := passOnTable }

def passOnMachine : Semantics (.draft threeRegisters) passOnTable Word ((Word → Word) × List Call) :=
  Machine.semantics stillWorld _ [] _ (RegisterFile.accepted_of_ofConfig threeRegisters_configured)
    (VarTable.internAll_sound (VarTable.empty_sound _) _) rfl (by decide +kernel)

def passOnStart : State Word ((Word → Word) × List Call) where
  vars := sevenArgument
  memory := (fun _ => 0, [])

theorem recolored_runs_passOn :
    (passOnMachine.run (passOnBuilt.recolored (inPlace passOnTable)).body 2 passOnStart).1 = some 2 ∧
      (passOnMachine.run (passOnBuilt.recolored (inPlace passOnTable)).body 2 passOnStart).2.vars "rax" = 7 := by
  have table : ((Sheet.ofFunction passOn).analyze.1.function.table.internAll
      (RegisterFile.draft threeRegisters).registers).2 = passOnTable := by decide +kernel
  have proper : ((Sheet.ofFunction passOn).analyze.2.toOption.any fun lv => decide
      (((Graph.build (Sheet.ofFunction passOn).analyze.1 lv (.draft threeRegisters)).1.ProperlyColors
          (.draft threeRegisters) passOnTable (inPlace passOnTable)) ∧
        (∀ x ∈ (lv.liveIn 0).toList, passOnTable.isRegister x = true) ∧ 2 ∈ (lv.liveIn 2).toList)) = true := by
    decide +kernel
  obtain ⟨s, lv, g, built, analysis, made, kept, agree⟩ := recolored_runs threeRegisters_configured passOn_sound
    (by decide +kernel) (by decide +kernel)
  obtain rfl : s = (Sheet.ofFunction passOn).analyze.1 := congrArg Prod.fst analysis.symm
  rw [analysis] at proper
  obtain ⟨colors, entry, result⟩ := of_decide_eq_true proper
  rw [made] at colors
  have same : built.function.table = passOnTable := by
    rw [← table, show built = (g, built).2 from rfl, ← made]
    rfl
  obtain ⟨f, notes⟩ := built
  rw [same] at kept
  cases kept
  have after := agree _ colors Word _ passOnMachine passOnStart passOnStart
    (fun x live => by
      rw [inPlace, entry x (Std.ExtTreeSet.mem_toList.mpr live)]
      rfl) rfl rfl 2
  have index : (passOnMachine.run passOn.body 2 passOnStart).1 = some 2 := by decide +kernel
  have seat : "rax" = inPlace passOnTable 2 := by decide +kernel
  have value : (passOnMachine.run passOn.body 2 passOnStart).2.vars (passOnTable.nameOf 2) = 7 := by
    decide +kernel
  refine ⟨after.index.trans index, ?_⟩
  rw [seat, ← value]
  exact after.live 2 index 2 (Std.ExtTreeSet.mem_toList.mp result)

end Semantics

end RegisterAllocation
