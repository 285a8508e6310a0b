import RegisterAllocation.Proofs.AllocatedFunctions
import RegisterAllocation.Proofs.ExpandedRuns

namespace RegisterAllocation

open Machine

namespace Allocation

-- What may be seen of a run: how it ended, the calls it made, the stack pointer and the memory outside
-- some slots, and after a return the registers that its caller may read.
structure Agrees (rf : RegisterFile) (slots : List Word) (m m' : Machine.State) : Prop where
  ending : m'.status.ending? = m.status.ending?
  calls : m'.calls = m.calls
  pointer : m'.vars rf.sp = m.vars rf.sp
  memory : ∀ a ∉ slots, m'.memory a = m.memory a
  returned : m.status = .ended .returned → ∀ r ∈ rf.result :: rf.calleeSaved, m'.vars r = m.vars r

section Runs

variable {rf : RegisterFile} {s₀ s : Sheet} {lv₀ lv : Liveness} {sp : VarId} {vs : List VarId}
  {tmp : Nat → VarId → VarId} {ρ : VarId → VarId} {home : VarId → String} {g : Function} {P : Word}
  {vars vars' : String → Word} {memory memory' : Word → Word} {m u m' : Machine.State}
  (accepted : rf.Accepted) (analyzed₀ : s₀.Analyzed rf lv₀)
  (expanded : Expanded s₀.function sp vs tmp s.function)
  (entry : ∀ x ∈ lv₀.liveIn 0, s₀.function.table.isRegister x = true)
  (pointer : sp < s₀.function.table.size ∧ s₀.function.table.nameOf sp = rf.sp)

include expanded entry in
theorem start_backed (outside : ∀ a ∉ s₀.function.slots (vars rf.sp) vs.length, memory' a = memory a) :
    Expanded.Backed rf s₀.function sp vs tmp lv₀.At (vars rf.sp)
      { vars := vars, memory := memory } { vars := vars, memory := memory' } := by
  refine ⟨congrArg Status.running Expanded.place_zero.symm, outside, rfl, rfl, fun _ _ _ => rfl,
    fun home member live => ?_⟩
  obtain ⟨i, now, live⟩ := live
  cases now
  have virtual := (expanded.originals _ (Function.mem_of_home member)).2
  rw [entry _ live] at virtual
  cases virtual

include accepted analyzed₀ expanded pointer

include entry in
theorem start_mirrors (analyzed : s.Analyzed rf lv) (assigned : Assigned rf s lv ρ home g)
    (registers : ∀ r ∈ rf.sp :: rf.registers, vars' r = vars r) (memory : Word → Word) :
    Mirrors rf s.function.table lv home { vars := vars, memory := memory }
      { vars := vars', memory := memory } := by
  refine ⟨rfl, rfl, rfl, registers _ List.mem_cons_self, fun pc now x live => ?_, fun returns => ?_⟩
  · cases now
    obtain ⟨live₀, -⟩ := Expanded.liveIn_zero accepted analyzed₀ expanded pointer analyzed live
    have known := analyzed₀.referenced_lt_size (analyzed₀.live_referenced.1 0 x live₀)
    have register := entry x live₀
    rw [assigned.register x ((expanded.grown.isRegister known).trans register), expanded.grown.nameOf known]
    rw [VarTable.isRegister_eq analyzed₀.valid.sound analyzed₀.valid.convention known,
      RegisterFile.isRegister_iff] at register
    exact registers _ (List.mem_cons.mpr register)
  · cases returns

theorem agrees_of_backed (known : ∀ r ∈ rf.registers, r ∈ s₀.function.table.names)
    (backed : Expanded.Backed rf s₀.function sp vs tmp lv₀.At P m u)
    (mirrors : Mirrors rf s.function.table lv home u m') :
    Agrees rf (s₀.function.slots P vs.length) m m' := by
  refine ⟨?_, mirrors.calls.trans backed.calls, ?_, fun a outside => ?_, fun returns r saved => ?_⟩
  · rw [mirrors.status, backed.status]
    cases m.status <;> rfl
  · have same := backed.vars sp pointer.1 fun listed =>
      (Expanded.spilled_name analyzed₀ expanded listed).1 pointer.2
    rw [pointer.2] at same
    rw [mirrors.pointer, same]
  · rw [mirrors.memory, backed.memory a outside]
  · have register : r ∈ rf.registers := by
      rcases List.mem_cons.mp saved with rfl | calleeSaved
      · exact accepted.result
      · exact accepted.calleeSaved r calleeSaved
    obtain ⟨x, inside, rfl⟩ := VarTable.exists_of_mem_names (known r register)
    have stopped : u.status = .ended .returned := by
      rw [backed.status, returns]
      rfl
    rw [mirrors.returned stopped _ saved, backed.vars x inside fun listed =>
      (Expanded.spilled_name analyzed₀ expanded listed).2 register]

end Runs

theorem Begun.registers_known {rf : RegisterFile} {f₀ f : Function} {s₁ : Sheet} {lv : Liveness} {sp : VarId}
    {b : Built} (begun : Begun rf f₀ s₁ lv f sp b) : ∀ r ∈ rf.registers, r ∈ f.table.names := by
  intro r register
  rw [← begun.function, begun.opened.built, Graph.build_snd]
  exact VarTable.mem_names_internAll _ _ r register

theorem Last.assigned {rf : RegisterFile} {f₀ f g : Function} {sp : VarId} {vs : List VarId}
    {tmp : Nat → VarId → VarId} {s : State} {sheet : Sheet} {lv : Liveness} {b : Built} {attempt : Coloring}
    (accepted : rf.Accepted) (last : Last rf f₀ f sp vs tmp s sheet lv b attempt)
    (allocated : (f₀.allocate rf).result = .ok g) :
    ∃ ρ home, Assigned rf b.state.sheet lv ρ home g := by
  obtain ⟨success, rfl⟩ := last.made allocated
  exact ⟨_, _, assignRegisters_assigned accepted last.ready.analyzed last.ready.interferes last.attempted
    success⟩

-- An allocated function does what the function did: every run of the original that leaves the stack
-- pointer and the slots alone is met by a run that ends the same way after the same calls, whatever the
-- slots held at the start. The slots have to fit into the address space, which is 2 ^ 61 words wide.
theorem allocation_preserves_runs {cfg : Config} {rf : RegisterFile} {f g : Function}
    (configured : RegisterFile.ofConfig cfg = .ok rf) (sound : f.table.Sound)
    (convention : f.convention = some rf) (clean : f.problems = [])
    (allocated : (f.allocate rf).result = .ok g) (fits : (f.allocate rf).stats.spills ≤ 2 ^ 61)
    (entry : ∀ s lv, (Sheet.ofFunction f).analyze = (s, .ok lv) →
      ∀ x ∈ lv.liveIn 0, s.function.table.isRegister x = true)
    (W : World) {vars vars' : String → Word} {memory memory' : Word → Word} {slots : List Word}
    (frame : slots = f.slots (vars rf.sp) (f.allocate rf).stats.spills)
    (registers : ∀ r ∈ rf.sp :: rf.registers, vars' r = vars r)
    (outside : ∀ a ∉ slots, memory' a = memory a) (n : Nat)
    (sparesPointer : ∀ k < n, f.SparesPointer rf (f.run W rf slots k { vars := vars, memory := memory }))
    (sparesSlots : ∀ k < n, f.SparesSlots W slots (f.run W rf slots k { vars := vars, memory := memory })) :
    ∃ m ≥ n, Agrees rf slots (f.run W rf slots n { vars := vars, memory := memory })
      (g.run W rf slots m { vars := vars', memory := memory' }) := by
  have accepted := RegisterFile.accepted_of_ofConfig configured
  have valid := Function.valid_of_problems sound convention clean
  obtain ⟨s₁, lv₀, f', sp, b₀, begun⟩ := start_begun accepted valid
  obtain ⟨_, _, vs, tmp, _, lv, b, attempt, -, -, -, last⟩ := allocate_last accepted valid begun
  obtain ⟨ρ, home, assigned⟩ := last.assigned accepted allocated
  obtain ⟨-, spills, -⟩ := last.stats
  rw [spills] at fits frame
  have analyzed₀ := begun.opened.analyzed_built
  have expanded := last.ready.underway.expanded
  obtain rfl := begun.function
  have live₀ : ∀ x ∈ lv₀.liveIn 0, b₀.state.sheet.function.table.isRegister x = true := by
    intro x live
    have known := begun.opened.analyzed.referenced_lt_size (begun.opened.analyzed.live_referenced.1 0 x live)
    rw [begun.opened.built, Graph.build_snd]
    exact ((VarTable.internAll_extends _ _).isRegister known).trans (entry _ _ begun.opened.analysis x live)
  -- The function as analyzed runs as it did before, and its slots are the same.
  have sameRun : ∀ k m, b₀.state.sheet.function.run W rf slots k m = f.run W rf slots k m := by
    rw [begun.same]
    exact fun k m => run_extends valid begun.grown k
  have sameSlots : b₀.state.sheet.function.slots (vars rf.sp) vs.length = slots := by
    rw [frame, begun.same]
    rfl
  have pointerSpared : ∀ m, f.SparesPointer rf m → b₀.state.sheet.function.SparesPointer rf m := by
    rw [begun.same]
    exact fun m => sparesPointer_extends valid begun.grown
  have slotsSpared : ∀ m, f.SparesSlots W slots m → b₀.state.sheet.function.SparesSlots W slots m := by
    rw [begun.same]
    exact fun m => sparesSlots_extends valid begun.grown
  subst sameSlots
  have backed := start_backed expanded live₀ outside
  have mirrors := start_mirrors accepted analyzed₀ expanded live₀ begun.pointer last.ready.analyzed assigned
    registers memory'
  obtain ⟨m, late, spares, backed'⟩ := backed.run accepted analyzed₀ expanded begun.pointer fits n
    (fun k before => pointerSpared _ (by rw [sameRun]; exact sparesPointer k before))
    (fun k before => slotsSpared _ (by rw [sameRun]; exact sparesSlots k before))
  refine ⟨m, late, ?_⟩
  rw [← sameRun]
  exact agrees_of_backed accepted analyzed₀ expanded begun.pointer begun.registers_known backed'
    (mirrors.run accepted last.ready.analyzed assigned m spares)

def stillWorld : World where
  label := fun _ => 0
  function := fun _ => 0
  stackArg := fun _ => 0
  unlisted := fun _ a _ => a
  answer := fun call => { registers := fun _ => 0, memory := call.memory }

def sevenArgument (r : String) : Word := if r = "rdi" then 7 else 0

def usedSlots (a : Word) : Word := if a ∈ acrossCall.slots 0 1 then 9 else 5

theorem allocation_preserves_runs_acrossCall :
    ∃ g m, (acrossCall.allocate (.draft threeRegisters)).result = .ok g ∧
      let after := g.run stillWorld (.draft threeRegisters) (acrossCall.slots 0 1) m
        { vars := sevenArgument, memory := usedSlots }
      after.status.ending? = some .returned ∧ after.vars "rax" = 7 := by
  have plain : ∀ inst ∈ acrossCall.body, inst.writesTo acrossCall.table ≠ some "rsp" := by decide +kernel
  have apart : ∀ inst ∈ acrossCall.body, ∀ v, inst.address? v = none := by
    simp [acrossCall, Instruction.address?]
  have entry : ((Sheet.ofFunction acrossCall).analyze.2.toOption.any fun lv =>
      (lv.liveIn 0).toList.all (Sheet.ofFunction acrossCall).analyze.1.function.table.isRegister) = true := by
    decide +kernel
  have frame : acrossCall.slots 0 1 = acrossCall.slots (sevenArgument "rsp")
      (acrossCall.allocate (.draft threeRegisters)).stats.spills := by
    rw [acrossCall_spills]
    rfl
  have outside : ∀ a ∉ acrossCall.slots 0 1, usedSlots a = (fun _ => 5) a := fun a beyond => if_neg beyond
  obtain ⟨g, allocated⟩ := acrossCall_allocates
  obtain ⟨m, -, agrees⟩ := allocation_preserves_runs threeRegisters_configured acrossCall_sound
    rfl acrossCall_problems allocated (by decide +kernel)
    (fun s lv analysis x live => by
      rw [analysis] at entry
      exact List.all_eq_true.mp entry x (Std.ExtTreeSet.mem_toList.mpr live))
    stillWorld frame (fun _ _ => rfl) outside 4
    (fun k _ pc inst _ here => plain inst (List.mem_of_getElem? here))
    (fun k _ pc inst _ here a touched => by simp [apart inst (List.mem_of_getElem? here)] at touched)
  refine ⟨g, m, allocated, ?_, ?_⟩
  · rw [agrees.ending]
    decide +kernel
  · rw [agrees.returned (by decide +kernel) "rax" (by decide +kernel)]
    decide +kernel

end Allocation

end RegisterAllocation
