import RegisterAllocation.Proofs.ExpandedFlow
import RegisterAllocation.Proofs.Progress
import RegisterAllocation.Proofs.RegisterAssignment

namespace RegisterAllocation

variable {rf : RegisterFile} {f g : Function} {ρ : VarId → VarId} {x : VarId}

theorem Flow.labels_map_rename (ρ : VarId → VarId) (body : List Instruction) :
    labels (body.map (·.rename ρ)) = labels body := by
  induction body with
  | nil => rfl
  | cons inst rest ih => rw [List.map_cons, labels_cons, labels_cons, ih, Instruction.label?_rename]

theorem Function.Valid.renamed (valid : f.Valid rf) (body : g.body = f.body.map (·.rename ρ))
    (sound : g.table.Sound) (convention : g.table.convention = some rf)
    (spelled : ∀ x, f.Mentions x → Validation.spelling g.table (.var (ρ x)) = []) : g.Valid rf := by
  refine ⟨convention, sound, fun inst member => ?_, ?_, fun inst member target branch => ?_⟩
  · rw [body, List.mem_map] at member
    obtain ⟨old, member, rfl⟩ := member
    exact Validation.instruction_rename (valid.instructions old member) fun x operand =>
      spelled x ⟨old, member, operand⟩
  · rw [body, Flow.labels_map_rename]
    exact valid.labels
  · rw [body, List.mem_map] at member
    obtain ⟨old, member, rfl⟩ := member
    rw [Instruction.target?_rename] at branch
    rw [← Flow.mem_labels, body, Flow.labels_map_rename]
    exact Flow.mem_labels.mpr (valid.targets old member target branch)

theorem Function.Valid.problems_eq_nil (valid : g.Valid rf) (clean : f.problems = []) (name : g.name = f.name)
    (args : g.args = f.args) : g.problems = [] := by
  have head := (f.problems_eq_nil_iff.mp clean).1
  refine g.problems_eq_nil_iff.mpr ⟨?_, valid.labels, fun inst member =>
    ⟨valid.instructions inst member, valid.targets inst member⟩⟩
  simpa only [Validation.headFlaws, name, args] using head

structure Registered (rf : RegisterFile) (f : Function) (ρ : VarId → VarId) (g : Function) : Prop where
  name : g.name = f.name
  args : g.args = f.args
  locals : g.locals = f.locals
  spilled : g.spilled = f.spilled
  body : g.body = f.body.map (·.rename ρ)
  grown : f.table.Extends g.table
  sound : g.table.Sound
  fixed : ∀ x, f.table.isRegister x = true → ρ x = x
  replaced : ∀ x, f.Mentions x → f.table.isRegister x = false → g.table.nameOf (ρ x) ∈ rf.registers

namespace Registered

theorem getElem? {p : Nat} {inst : Instruction} (registered : Registered rf f ρ g)
    (here : f.body[p]? = some inst) : g.body[p]? = some (inst.rename ρ) := by
  rw [registered.body, List.getElem?_map, here]
  rfl

variable (accepted : rf.Accepted) (valid : f.Valid rf) (registered : Registered rf f ρ g)

include accepted valid registered

theorem isRegister_of_mentions (mentioned : f.Mentions x) : g.table.isRegister (ρ x) = true := by
  have known := valid.mentions_lt_size mentioned
  cases register : f.table.isRegister x with
  | true =>
    rw [registered.fixed x register, registered.grown.isRegister known, register]
  | false =>
    have member := registered.replaced x mentioned register
    have inside : ρ x < g.table.size := by
      -- Beyond the table a name reads as empty, which no register is.
      by_contra beyond
      have missing : g.table.vars[ρ x]? = none := List.getElem?_eq_none (Nat.le_of_not_lt beyond)
      have empty : g.table.nameOf (ρ x) = "" := by simp [VarTable.nameOf, missing]
      have spelled := (accepted.spelled _ member).1
      rw [empty] at spelled
      cases spelled
    rw [VarTable.isRegister_eq registered.sound (registered.grown.convention.trans valid.convention) inside]
    exact RegisterFile.isRegister_of_mem member

theorem operands_registers : ∀ inst ∈ g.body, ∀ y, .var y ∈ inst.operands → g.table.isRegister y = true := by
  intro inst member y operand
  rw [registered.body, List.mem_map] at member
  obtain ⟨old, member, rfl⟩ := member
  rw [Instruction.operands_rename, Instruction.var_mem_map_rename] at operand
  obtain ⟨x, operand, rfl⟩ := operand
  exact registered.isRegister_of_mentions accepted valid ⟨old, member, operand⟩

theorem stays_valid : g.Valid rf :=
  valid.renamed registered.body registered.sound (registered.grown.convention.trans valid.convention)
    fun _ mentioned => Validation.spelling_var.mpr
      (.inl (registered.isRegister_of_mentions accepted valid mentioned))

end Registered

namespace Allocation

variable {t : VarTable} {attempt : Coloring}

theorem registerMap_sound (sound : t.Sound) (pairs : List (VarId × String)) :
    (registerMap t pairs).2.Sound := by
  induction pairs generalizing t with
  | nil => exact sound
  | cons pair rest ih => exact ih (VarTable.intern_sound sound pair.2)

theorem replacement_register (register : t.isRegister x = true) : replacement t rf attempt x = x := by
  have none : (chosen t rf attempt).lookup x = none := by rw [lookup_chosen, if_pos register]
  rw [← registerMap_lookup t, Option.map_eq_none_iff] at none
  rw [replacement, none, Option.getD_none]

theorem assignRegisters_registered {s : Sheet} {lv : Liveness} {graph : Graph} (accepted : rf.Accepted)
    (analyzed : s.Analyzed rf lv) (interferes : Graph.Interferes rf s lv graph)
    (attempted : Coloring.Attempted rf graph attempt) (success : attempt.success = true) :
    Registered rf s.function (replacement s.function.table rf attempt)
      (assignRegisters s.function rf attempt).1 := by
  have assigned := assignRegisters_assigned accepted analyzed interferes attempted success
  refine ⟨rfl, rfl, rfl, rfl, rfl, registerMap_extends _ _, registerMap_sound analyzed.valid.sound _,
    fun x register => replacement_register register, fun x mentioned virtual => ?_⟩
  rw [assigned.named x (analyzed.valid.mentions_lt_size mentioned)]
  exact assigned.allocatable x ((analyzed.referenced_virtual accepted virtual).mpr mentioned)

variable {f₀ : Function} {sp : VarId} {vs : List VarId} {tmp : Nat → VarId → VarId} {s : State} {sheet : Sheet}
  {lv : Liveness} {b : Built}

theorem Last.made (last : Last rf f₀ f sp vs tmp s sheet lv b attempt)
    (allocated : (f₀.allocate rf).result = .ok g) :
    attempt.success = true ∧ (assignRegisters b.state.sheet.function rf attempt).1 = g := by
  rcases last.outcome with ⟨success, s', same, -, done⟩ | ⟨-, s', uncolored, -, -, done⟩
  · refine ⟨success, ?_⟩
    rw [done] at allocated
    rw [← same]
    exact Except.ok.inj allocated
  · rw [done] at allocated
    cases allocated

theorem Last.registered (accepted : rf.Accepted) (last : Last rf f₀ f sp vs tmp s sheet lv b attempt)
    (allocated : (f₀.allocate rf).result = .ok g) : ∃ ρ, Registered rf b.state.sheet.function ρ g := by
  obtain ⟨success, rfl⟩ := last.made allocated
  exact ⟨_, assignRegisters_registered accepted last.ready.analyzed last.ready.interferes last.attempted
    success⟩

end Allocation

end RegisterAllocation
