import RegisterAllocation.Proofs.Preservation
import RegisterAllocation.Proofs.SpilledLiveness

namespace RegisterAllocation

open Spill Machine

def Function.Ignores (rf : RegisterFile) (f : Function) (name : String) : Prop :=
  ∀ inst ∈ f.body, inst.writesTo f.table ≠ some name ∧ name ∉ inst.implicitWrites rf

namespace Machine

variable {rf : RegisterFile} {f : Function} {name : String} {m : State}

theorem step_ignores (ignores : f.Ignores rf name) (W : World) (slots : List Word) :
    (f.step W rf slots m).vars name = m.vars name := by
  unfold Function.step
  split
  · rfl
  · split
    · rfl
    · rename_i inst here
      obtain ⟨unwritten, unharmed⟩ := ignores inst (List.mem_of_getElem? here)
      simp only [State.after]
      cases does : inst.action W m.memory (m.value W f.table) with
      | call callee arity =>
        apply varsAfter_of_ne unwritten
        rwa [← (UseDef.call_implicitReads rf (Instruction.arity?_of_action does)).2.1]
      | write value =>
        cases writes : inst.writesTo f.table with
        | none => rfl
        | some other =>
          refine Function.update_of_ne (fun same => unwritten ?_) ..
          rw [writes, same]
      | store _ _ | jump _ | ret => rfl

theorem run_ignores (ignores : f.Ignores rf name) (W : World) (slots : List Word) (n : Nat) :
    (f.run W rf slots n m).vars name = m.vars name := by
  induction n with
  | zero => rfl
  | succ n ih => rw [run_succ, step_ignores ignores, ih]

end Machine

theorem Sheet.Analyzed.ignores {rf : RegisterFile} {s : Sheet} {lv : Liveness} {name : String}
    (analyzed : s.Analyzed rf lv) (foreign : name ∉ s.function.table.names) : s.function.Ignores rf name := by
  intro inst member
  constructor
  · intro writes
    obtain ⟨x, written, rfl⟩ := Instruction.destination_of_writesTo writes
    have known := (analyzed.valid.resolvable inst member).operands x
      (Instruction.destination?_mem_operands written)
    exact foreign (VarTable.nameOf_mem_names known)
  · intro implied
    obtain ⟨i, here⟩ := List.mem_iff_getElem?.mp member
    obtain ⟨note, -, described⟩ := analyzed.note_of_inst here
    exact foreign (described.implied name (List.mem_append_right _ implied))

namespace Expanded

variable {rf : RegisterFile} {s₀ s : Sheet} {lv₀ : Liveness} {sp : VarId} {vs : List VarId}
  {tmp : Nat → VarId → VarId} {name : String}

theorem ignores (analyzed₀ : s₀.Analyzed rf lv₀) (expanded : Expanded s₀.function sp vs tmp s.function)
    (ignores : s₀.function.Ignores rf name)
    (settled : ∀ i, ∀ v ∈ vs, Touches s₀.function.body v i → s.function.table.nameOf (tmp i v) ≠ name) :
    s.function.Ignores rf name := by
  intro other member
  obtain ⟨i, inst, here, member⟩ := expanded.mem_expanded.mp member
  rw [group, List.mem_append, List.mem_cons] at member
  rcases member with load | rfl | store
  · obtain ⟨v, offset, home, reading, rfl⟩ := mem_loads.mp load
    have touched : Touches s₀.function.body v i := ⟨inst, here, Instruction.reads_subset_operands inst reading⟩
    refine ⟨fun writes => ?_, List.not_mem_nil⟩
    exact settled i v (Function.mem_of_home home) touched (Option.some.inj writes)
  · obtain ⟨unwritten, unharmed⟩ := ignores inst (List.mem_of_getElem? here)
    constructor
    · intro writes
      obtain ⟨y, renamed, named⟩ := Instruction.destination_of_writesTo writes
      obtain ⟨d, written, rfl⟩ := Instruction.destination?_rename_var.mp renamed
      have operand := Instruction.destination?_mem_operands written
      have known := (analyzed₀.valid.resolvable inst (List.mem_of_getElem? here)).operands d operand
      by_cases listed : d ∈ vs
      · rw [Function.moved_of_mem listed] at named
        exact settled i d listed ⟨inst, here, operand⟩ named
      · rw [Function.moved_of_not_mem listed, expanded.grown.nameOf known] at named
        exact unwritten (named ▸ Instruction.writesTo_of_destination written)
    · rwa [Instruction.implicitWrites_rename]
  · obtain ⟨v, offset, -, -, rfl⟩ := mem_stores store
    exact ⟨by simp [Instruction.writesTo, Instruction.destination?], List.not_mem_nil⟩

end Expanded

namespace Spill

-- A state of a function and one of the function with a variable spilled, between two instructions of
-- the former: the word of the slot has the value of the variable, and all else is the same but for the
-- temporaries.
structure Shadows (f : Function) (sp v : VarId) (tmp : Nat → VarId → VarId) (temps : List String) (word : Word)
    (m m' : State) : Prop where
  status : m'.status = m.status.map (Expanded.place f sp [v] tmp)
  vars : ∀ name ≠ f.table.nameOf v, name ∉ temps → m'.vars name = m.vars name
  memory : ∀ a ≠ word, m'.memory a = m.memory a
  held : m'.memory word = m.vars (f.table.nameOf v)
  calls : m'.calls = m.calls

-- The first steps of a function, with those of the function with a variable spilled: it passes through
-- the groups of the same instructions, and between the groups the states agree.
structure Follows (W : World) (rf : RegisterFile) (f g : Function) (sp v : VarId) (tmp : Nat → VarId → VarId)
    (temps : List String) (word : Word) (m m' : State) (n : Nat) : Prop where
  shadows : ∀ k ≤ n, Shadows f sp v tmp temps word (f.run W rf [word] k m)
    (g.run W rf [word] (Expanded.clock f sp [v] tmp W rf [word] m k) m')
  passes : ∀ k < n, ∀ i inst, (f.run W rf [word] k m).status = .running i → f.body[i]? = some inst →
    Expanded.clock f sp [v] tmp W rf [word] m (k + 1) =
        Expanded.clock f sp [v] tmp W rf [word] m k + (group sp (f.homes [v]) (tmp i) inst).length ∧
      ∀ o < (group sp (f.homes [v]) (tmp i) inst).length,
        (g.run W rf [word] (Expanded.clock f sp [v] tmp W rf [word] m k + o) m').status =
          .running (Expanded.place f sp [v] tmp i + o)

section Runs

variable {rf : RegisterFile} {s₀ s : Sheet} {lv₀ : Liveness} {sp v : VarId} {tmp : Nat → VarId → VarId}
  {temps : List String} {m m' : State} {W : World}
  (accepted : rf.Accepted) (analyzed₀ : s₀.Analyzed rf lv₀)
  (expanded : Expanded s₀.function sp [v] tmp s.function)
  (pointer : sp < s₀.function.table.size ∧ s₀.function.table.nameOf sp = rf.sp)
  (drawn : ∀ name, name ∈ temps ↔
    ∃ i, Touches s₀.function.body v i ∧ s.function.table.nameOf (tmp i v) = name)

theorem single_slot (f : Function) (P : Word) : f.slots P 1 = [P + f.slotOffset] := by
  simp [Function.slots, Function.slotOffset]

theorem homes_single (f : Function) (v : VarId) : f.homes [v] = [(v, f.slotOffset)] := by
  simp [Function.homes, Function.slotOffset]

include analyzed₀ expanded drawn

theorem backed_of_shadows
    (shadows : Shadows s₀.function sp v tmp temps (m.vars rf.sp + s₀.function.slotOffset) m m') :
    Expanded.Backed rf s₀.function sp [v] tmp (fun _ _ => True) (m.vars rf.sp) m m' := by
  obtain ⟨vKnown, -⟩ := expanded.originals v List.mem_cons_self
  refine ⟨shadows.status, fun a outside => ?_, shadows.calls, rfl, fun x known stays => ?_,
    fun home member _ => ?_⟩
  · rw [List.length_singleton, single_slot, List.mem_singleton] at outside
    exact shadows.memory a outside
  · apply shadows.vars
    · intro same
      exact stays (List.mem_singleton.mpr (VarTable.nameOf_inj analyzed₀.valid.sound known vKnown same))
    · intro temp
      obtain ⟨i, touched, same⟩ := (drawn _).mp temp
      exact Expanded.temp_name_new expanded List.mem_cons_self touched known same.symm
  · rw [homes_single, List.mem_singleton] at member
    subst member
    exact shadows.held

omit analyzed₀ expanded drawn in
theorem shadows_of_backed {P : Word}
    (backed : Expanded.Backed rf s₀.function sp [v] tmp (fun _ _ => True) P m m')
    (foreign : ∀ name, name ∉ s₀.function.table.names → name ∉ temps → m'.vars name = m.vars name) :
    Shadows s₀.function sp v tmp temps (P + s₀.function.slotOffset) m m' := by
  refine ⟨backed.status, fun name apart settled => ?_, fun a outside => ?_, ?_, backed.calls⟩
  · by_cases known : name ∈ s₀.function.table.names
    · obtain ⟨x, inside, rfl⟩ := VarTable.exists_of_mem_names known
      exact backed.vars x inside fun listed => apart (congrArg _ (List.mem_singleton.mp listed))
    · exact foreign name known settled
  · apply backed.memory
    rwa [List.length_singleton, single_slot, List.mem_singleton]
  · exact backed.slot (v, s₀.function.slotOffset) (homes_single _ _ ▸ List.mem_cons_self) trivial

include accepted pointer

theorem follows {word : Word} (slot : word = m.vars rf.sp + s₀.function.slotOffset)
    (shadows : Shadows s₀.function sp v tmp temps word m m') (n : Nat)
    (sparesPointer : ∀ k < n, s₀.function.SparesPointer rf (s₀.function.run W rf [word] k m))
    (sparesSlot : ∀ k < n, s₀.function.SparesSlots W [word] (s₀.function.run W rf [word] k m)) :
    Follows W rf s₀.function s.function sp v tmp temps word m m' n := by
  have slots : s₀.function.slots (m.vars rf.sp) [v].length = [word] := by
    rw [slot, List.length_singleton, single_slot]
  have sustains : s₀.function.Sustains rf fun _ _ => True :=
    ⟨fun _ _ _ _ _ => trivial, fun _ _ _ _ _ _ _ _ _ => trivial, fun _ _ _ _ => trivial⟩
  have start : Expanded.Backed rf s₀.function sp [v] tmp (fun _ _ => True) (m.vars rf.sp) m m' := by
    subst slot
    exact backed_of_shadows analyzed₀ expanded drawn shadows
  have fits : [v].length ≤ 2 ^ 61 := Nat.one_le_two_pow
  have backed : ∀ k ≤ n, Expanded.Backed rf s₀.function sp [v] tmp (fun _ _ => True) (m.vars rf.sp)
      (s₀.function.run W rf [word] k m)
      (s.function.run W rf [word] (Expanded.clock s₀.function sp [v] tmp W rf [word] m k) m') := by
    intro k before
    rw [← slots] at sparesPointer sparesSlot ⊢
    exact (start.on_time accepted analyzed₀ expanded pointer fits sustains k
      (fun j early => sparesPointer j (Nat.lt_of_lt_of_le early before))
      (fun j early => sparesSlot j (Nat.lt_of_lt_of_le early before))).2
  -- A name that is not in the table of either function keeps its word in both.
  have foreign : ∀ name, name ∉ s₀.function.table.names → name ∉ temps → ∀ j k,
      (s.function.run W rf [word] j m').vars name = (s₀.function.run W rf [word] k m).vars name := by
    intro name unknown settled j k
    have ignores₀ := analyzed₀.ignores unknown
    have ignores := expanded.ignores analyzed₀ ignores₀ fun i w home touched same => by
      cases List.mem_singleton.mp home
      exact settled ((drawn name).mpr ⟨i, touched, same⟩)
    have apart : name ≠ s₀.function.table.nameOf v := fun same =>
      unknown (same ▸ VarTable.nameOf_mem_names (expanded.originals v List.mem_cons_self).1)
    rw [run_ignores ignores, run_ignores ignores₀, shadows.vars name apart settled]
  constructor
  · intro k before
    rw [slot]
    rw [slot] at backed foreign
    exact shadows_of_backed (backed k before) fun name unknown settled => foreign name unknown settled _ _
  · intro k before i inst at_pc here
    constructor
    · rw [Expanded.clock, Expanded.pace_running at_pc, here]
      rfl
    · intro o inside
      have now := backed k (Nat.le_of_lt before)
      have spared := sparesPointer k before i inst at_pc here
      have apart := sparesSlot k before i inst at_pc here
      rw [← slots] at apart now at_pc ⊢
      rw [run_add]
      exact ((now.group accepted analyzed₀ expanded pointer fits sustains here at_pc spared apart).1 o inside).2

end Runs

section Tables

variable {rf : RegisterFile} {f g : Function} {t : VarTable} {sp v : VarId} {tmp : Nat → VarId → VarId}
  {temps : List String} {word : Word} {m m' : State} {W : World} (valid : f.Valid rf)
  (grown : f.table.Extends t) (known : v < f.table.size)

include grown known in
theorem shadows_extends : Shadows { f with table := t } sp v tmp temps word m m' ↔
    Shadows f sp v tmp temps word m m' := by
  have named : t.nameOf v = f.table.nameOf v := grown.nameOf known
  constructor
  · intro shadows
    exact ⟨shadows.status, named ▸ shadows.vars, shadows.memory, named ▸ shadows.held, shadows.calls⟩
  · intro shadows
    exact ⟨shadows.status, named.symm ▸ shadows.vars, shadows.memory, named.symm ▸ shadows.held, shadows.calls⟩

include valid grown

theorem clock_extends (k : Nat) : Expanded.clock { f with table := t } sp [v] tmp W rf [word] m k =
    Expanded.clock f sp [v] tmp W rf [word] m k := by
  induction k with
  | zero => rfl
  | succ k ih =>
    rw [Expanded.clock, Expanded.clock, ih, run_extends valid grown]
    rfl

include known in
theorem follows_extends {n : Nat}
    (follows : Follows W rf { f with table := t } g sp v tmp temps word m m' n) :
    Follows W rf f g sp v tmp temps word m m' n := by
  constructor
  · intro k before
    have shadows := follows.shadows k before
    rwa [shadows_extends grown known, clock_extends valid grown, run_extends valid grown] at shadows
  · intro k before i inst at_pc here
    rw [← run_extends valid grown] at at_pc
    have passes := follows.passes k before i inst at_pc here
    rwa [clock_extends valid grown, clock_extends valid grown] at passes

end Tables

-- A spill keeps what a function does. The variable is gone from all operands, and every run that
-- leaves the stack pointer and the new slot alone is met by one that passes through the groups of the
-- same instructions, with the value of the variable in the slot.
theorem spill_preserves_runs {cfg : Config} {rf : RegisterFile} {s : Sheet} {v : VarId} (names : NameSequence)
    (configured : RegisterFile.ofConfig cfg = .ok rf) (sound : s.function.table.Sound)
    (convention : s.function.convention = some rf) (clean : s.function.problems = [])
    (noted : s.notes.length = s.function.body.length) (known : v < s.function.table.size)
    (virtual : s.function.table.isRegister v = false)
    (unspilled : s.function.isSpilled (s.function.table.nameOf v) = false)
    (stem : isVirtualName names.stem = true) :
    ∃ names' spilled sp tmp, (s.spill v names).2 = (names', .ok spilled) ∧
      spilled.function.body = (expand sp (s.function.homes [v]) tmp s.function.body).flatten ∧
      (∀ name, name ∈ spilled.temps ↔
        ∃ i, Touches s.function.body v i ∧ spilled.function.table.nameOf (tmp i v) = name) ∧
      (∀ name ∈ spilled.temps, name ∉ s.function.table.names) ∧
      ¬spilled.function.Mentions v ∧
      ∀ (W : World) (m m' : State) (word : Word) (n : Nat), word = m.vars rf.sp + s.function.slotOffset →
        Shadows s.function sp v tmp spilled.temps word m m' →
        (∀ k < n, s.function.SparesPointer rf (s.function.run W rf [word] k m)) →
        (∀ k < n, s.function.SparesSlots W [word] (s.function.run W rf [word] k m)) →
        Follows W rf s.function spilled.function sp v tmp spilled.temps word m m' n := by
  have accepted := RegisterFile.accepted_of_ofConfig configured
  have valid := Function.valid_of_problems sound convention clean
  obtain ⟨s₀, lv₀, analysis, analyzed₀, same, grown⟩ := Sheet.analyze_valid accepted valid noted
  obtain ⟨names', spilled, sp, tmp, done, pointer, expanded, -, temps⟩ :=
    Expanded.spill_first accepted valid noted stem known virtual unspilled
  rw [← Sheet.analyze_resolved analysis] at pointer expanded
  have body : s.function.body = s₀.function.body := by
    rw [same]
  have offset : s.function.slotOffset = s₀.function.slotOffset := by
    rw [same]
    rfl
  have drawn : ∀ name, name ∈ spilled.temps ↔
      ∃ i, Touches s₀.function.body v i ∧ spilled.function.table.nameOf (tmp i v) = name := by
    rw [← body]
    exact temps
  refine ⟨names', spilled, sp, tmp, done, ?_, temps, fun name temp old => ?_, fun mentions => ?_, ?_⟩
  · rw [expanded.body, body, homes_single, homes_single, offset]
  · obtain ⟨i, touched, rfl⟩ := (drawn name).mp temp
    obtain ⟨x, inside, equal⟩ := VarTable.exists_of_mem_names (grown.mem_names old)
    exact Expanded.temp_name_new (s := .ofFunction spilled.function) expanded List.mem_cons_self touched
      inside equal
  · have apart : v ≠ sp := Expanded.ne_pointer analyzed₀.valid pointer
      (Expanded.refl _ sp tmp analyzed₀.valid.sound) (expanded.originals v List.mem_cons_self).2
    rcases (expanded.mentions_iff apart).mp mentions with ⟨-, stays⟩ | ⟨i, w, home, touched, equal⟩
    · exact stays List.mem_cons_self
    · exact Expanded.temp_ne (s := .ofFunction spilled.function) expanded home touched
        (expanded.originals v List.mem_cons_self).1 equal
  · intro W m m' word n slot shadows sparesPointer sparesSlot
    apply follows_extends valid grown known
    rw [← same]
    rw [offset] at slot
    apply follows accepted analyzed₀ (s := .ofFunction spilled.function) expanded pointer drawn slot
    · rw [same]
      exact (shadows_extends grown known).mpr shadows
    · intro k before
      rw [same]
      apply sparesPointer_extends valid grown
      rw [run_extends valid grown]
      exact sparesPointer k before
    · intro k before
      rw [same]
      apply sparesSlots_extends valid grown
      rw [run_extends valid grown]
      exact sparesSlot k before

open Allocation in
theorem spill_preserves_runs_acrossCall :
    ∃ names' spilled k, ((Sheet.ofFunction acrossCall).spill 0 ⟨"%S", 0, []⟩).2 = (names', .ok spilled) ∧
      let after := spilled.function.run stillWorld (.draft threeRegisters) [0] k
        { vars := sevenArgument, memory := fun _ => 0 }
      after.status = .ended .returned ∧ after.vars "rax" = 7 ∧ after.memory 0 = 7 := by
  obtain ⟨names', spilled, sp, tmp, done, -, -, new, -, follows⟩ :=
    spill_preserves_runs (s := .ofFunction acrossCall) (v := 0) ⟨"%S", 0, []⟩
      threeRegisters_configured acrossCall_sound rfl acrossCall_problems
      (by decide +kernel) (by decide +kernel) (by decide +kernel) (by decide +kernel) (by decide +kernel)
  have plain : ∀ inst ∈ acrossCall.body, inst.writesTo acrossCall.table ≠ some "rsp" := by decide +kernel
  have apart : ∀ inst ∈ acrossCall.body, ∀ v, inst.address? v = none := by
    simp [acrossCall, Instruction.address?]
  have start : Shadows acrossCall sp 0 tmp spilled.temps 0 { vars := sevenArgument, memory := fun _ => 0 }
      { vars := sevenArgument, memory := fun _ => 0 } :=
    ⟨congrArg Status.running Expanded.place_zero.symm, fun _ _ _ => rfl, fun _ _ => rfl,
      by decide +kernel, rfl⟩
  have last := (follows stillWorld _ _ 0 4 (by decide +kernel) start
    (fun k _ pc inst _ here => plain inst (List.mem_of_getElem? here))
    (fun k _ pc inst _ here a touched => by
      simp [apart inst (List.mem_of_getElem? here)] at touched)).shadows 4 (Nat.le_refl 4)
  have ended : (acrossCall.run stillWorld (.draft threeRegisters) [0] 4
      { vars := sevenArgument, memory := fun _ => 0 }).status = .ended .returned := by decide +kernel
  have result : (acrossCall.run stillWorld (.draft threeRegisters) [0] 4
      { vars := sevenArgument, memory := fun _ => 0 }).vars "rax" = 7 := by decide +kernel
  have value : (acrossCall.run stillWorld (.draft threeRegisters) [0] 4
      { vars := sevenArgument, memory := fun _ => 0 }).vars (acrossCall.table.nameOf 0) = 7 := by decide +kernel
  refine ⟨names', spilled, _, done, last.status.trans ?_, (last.vars "rax" ?_ fun temp => ?_).trans result,
    last.held.trans value⟩
  · exact congrArg _ ended
  · decide +kernel
  · exact new _ temp (by decide +kernel)

end Spill

end RegisterAllocation
