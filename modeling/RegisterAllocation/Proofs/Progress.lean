import RegisterAllocation.Proofs.Underway

namespace RegisterAllocation

open Spill

namespace Allocation

variable {rf : RegisterFile} {f : Function} {sp v x : VarId} {vs : List VarId}
  {tmp : Nat → VarId → VarId} {s : State} {b : Built} {lv : Liveness}

-- The books of an allocation when an analysis is entered: what the current function mentions are the
-- variables of the original that were not spilled, and the temporaries.
structure Accounted (f₀ : Function) (spilled : List VarId) (s : State) : Prop where
  once : spilled.Nodup
  originals : ∀ v ∈ spilled, v ∈ f₀.virtuals
  spills : s.stats.spills = spilled.length
  logged : spilledNames s.events = spilled.map f₀.table.nameOf
  mentioned : ∀ x, x ∈ s.sheet.function.virtuals ↔ (x ∈ f₀.virtuals ∧ x ∉ spilled) ∨ x ∈ s.temps
  apart : ∀ x ∈ s.temps, x ∉ f₀.virtuals

-- One round per spill at least, and after a sweep nothing is left.
structure Counted (f : Function) (n : Nat) (vs : List VarId) (s : State) : Prop where
  iterations : s.stats.iterations = n
  many : n ≤ vs.length
  sweeps : s.stats.sweeps = 0 ∨ (s.stats.sweeps = 1 ∧ ∀ x, ¬Left f vs x)

section Entries

variable {f₀ : Function} {s₁ : Sheet} {lv₀ : Liveness} {b₀ : Built} {n : Nat}

theorem start_accounted (f₀ : Function) (rf : RegisterFile) : Accounted f₀ [] (start f₀ rf) :=
  ⟨List.nodup_nil, by simp, rfl, rfl, by simp [start, Sheet.ofFunction], by simp [start]⟩

theorem Underway.accounted (accepted : rf.Accepted) (begun : Begun rf f₀ s₁ lv₀ f sp b₀)
    (valid₀ : f₀.Valid rf) (underway : Underway rf f sp vs tmp s)
    (logged : spilledNames s.events = vs.map f.table.nameOf) : Accounted f₀ vs s := by
  have expanded := underway.expanded
  have original : ∀ x, x ∈ f₀.virtuals → x < f₀.table.size := fun x member =>
    valid₀.mentions_lt_size (Function.mem_virtuals.mp member).1
  have small : ∀ x, x ∈ f₀.virtuals → x < f.table.size := fun x member =>
    Nat.lt_of_lt_of_le (original x member) begun.grown.size_le
  have originals : ∀ v ∈ vs, v ∈ f₀.virtuals := fun v member =>
    begun.sameVirtuals ▸ (underway.originals v member).1
  refine ⟨expanded.distinct, originals, underway.spills, ?_, fun x => ?_, fun x temporary member => ?_⟩
  · rw [logged]
    exact List.map_congr_left fun v member => begun.grown.nameOf (original v (originals v member))
  · rw [underway.temps, ← begun.sameVirtuals]
    exact expanded.mem_virtuals accepted begun.valid begun.pointer
  · obtain ⟨i, v, spilled, touched, rfl⟩ := (underway.temps x).mp temporary
    exact absurd (small _ member) (Nat.not_lt.mpr (expanded.fresh i v spilled touched).1)

theorem entry_turn (accepted : rf.Accepted) (valid₀ : f₀.Valid rf) (begun : Begun rf f₀ s₁ lv₀ f sp b₀)
    (entered : entry rf n (start f₀ rf) = some s) :
    ∃ vs tmp sheet lv b, Accounted f₀ vs s ∧ Opened rf s sheet lv b ∧ Ready rf f sp vs tmp lv b ∧
      Counted f n vs s ∧ spilledNames s.events = vs.map f.table.nameOf := by
  induction n generalizing s with
  | zero =>
    cases entered
    exact ⟨[], fun _ x => x, s₁, lv₀, b₀, start_accounted f₀ rf, begun.opened, begun.ready _,
      ⟨rfl, Nat.le_refl _, .inl rfl⟩, rfl⟩
  | succ n ih =>
    obtain ⟨before, earlier, went⟩ := entry_succ.mp entered
    obtain ⟨vs, tmp, sheet, lv, b, -, opened, ready, counted, logged⟩ := ih earlier
    have sweptBefore : b.state.stats.sweeps = before.stats.sweeps := by rw [opened.stats]
    rw [opened.shape] at went
    obtain ⟨_, -, -, ⟨-, _, -, -, done⟩ | ⟨-, _, _, -, -, done⟩ | ⟨ws, _, done, advanced⟩⟩ :=
      conclude_cases accepted begun.valid begun.pointer ready
    · rw [done] at went
      cases went
    · rw [done] at went
      cases went
    · rw [done] at went
      cases went
      obtain ⟨tmp', underway⟩ := advanced.underway
      obtain ⟨sheet', lv', b', opened', ready'⟩ := round_ready accepted begun.valid begun.pointer underway
      have names : spilledNames s.events = (vs ++ ws).map f.table.nameOf := by
        rw [advanced.logged, opened.logged, logged, List.map_append]
      refine ⟨vs ++ ws, tmp', sheet', lv', b', underway.accounted accepted begun valid₀ names, opened',
        ready', ⟨?_, ?_, ?_⟩, names⟩
      · rw [advanced.iterations, opened.stats, counted.iterations]
      · rw [List.length_append]
        exact Nat.add_le_add counted.many (List.length_pos_iff.mpr advanced.some_spilled)
      · -- A sweep leaves nothing, so that there is no second one.
        obtain ⟨v, member⟩ := List.exists_mem_of_ne_nil ws advanced.some_spilled
        have none : b.state.stats.sweeps = 0 :=
          sweptBefore.trans (counted.sweeps.resolve_right fun swept => swept.2 v (advanced.left v member))
        refine advanced.sweeps.imp (fun same => same.trans none) fun swept => ⟨?_, swept.2⟩
        exact swept.1.trans (by rw [none])

theorem Accounted.spills_le (accounted : Accounted f₀ vs s) : vs.length ≤ f₀.virtuals.length :=
  (List.subperm_of_subset accounted.once accounted.originals).length_le

theorem entry_or_end (rf : RegisterFile) (s : State) (m : Nat) :
    (∃ n s' outcome, entry rf n s = some s' ∧ round rf s' = .error outcome) ∨
      ∃ s', entry rf m s = some s' := by
  induction m with
  | zero => exact .inr ⟨s, rfl⟩
  | succ m ih =>
    rcases ih with ended | ⟨s', entered⟩
    · exact .inl ended
    · cases next : round rf s' with
      | error outcome => exact .inl ⟨m, s', outcome, entered, next⟩
      | ok after => exact .inr ⟨after, entry_succ.mpr ⟨s', entered, next⟩⟩

structure Last (rf : RegisterFile) (f₀ f : Function) (sp : VarId) (vs : List VarId)
    (tmp : Nat → VarId → VarId) (s : State) (sheet : Sheet) (lv : Liveness) (b : Built)
    (attempt : Coloring) : Prop where
  accounted : Accounted f₀ vs s
  opened : Opened rf s sheet lv b
  ready : Ready rf f sp vs tmp lv b
  sweeps : s.stats.sweeps ≤ 1
  colored : Coloring.color b.graph b.state.sheet.function rf b.state.temps = .ok attempt
  attempted : Coloring.Attempted rf b.graph attempt
  outcome : (attempt.success = true ∧ ∃ s : State, s.sheet = b.state.sheet ∧ s.stats = b.state.stats ∧
      f₀.allocate rf = finish s rf attempt) ∨
    (attempt.success = false ∧ ∃ (s : State) (uncolored : List String), (∀ x, ¬Left f vs x) ∧
      s.stats = b.state.stats ∧ f₀.allocate rf = s.fail (.nothingToSpill f.name uncolored))

theorem allocate_of_round {outcome : Outcome} (accepted : rf.Accepted) (valid₀ : f₀.Valid rf)
    (begun : Begun rf f₀ s₁ lv₀ f sp b₀) (entered : entry rf n (start f₀ rf) = some s)
    (ended : round rf s = .error outcome) : f₀.allocate rf = outcome := by
  obtain ⟨vs, tmp, sheet, lv, b, accounted, -, -, counted, -⟩ := entry_turn accepted valid₀ begun entered
  refine allocate_of_entry entered ended ?_
  rw [begun.count]
  exact Nat.le_succ_of_le (Nat.le_trans counted.many accounted.spills_le)

theorem Counted.sweeps_le (counted : Counted f n vs s) : s.stats.sweeps ≤ 1 := by
  rcases counted.sweeps with none | ⟨one, -⟩
  · exact none ▸ Nat.zero_le 1
  · exact one ▸ Nat.le_refl 1

theorem allocate_last (accepted : rf.Accepted) (valid₀ : f₀.Valid rf) (begun : Begun rf f₀ s₁ lv₀ f sp b₀) :
    ∃ n s vs tmp sheet lv b attempt, entry rf n (start f₀ rf) = some s ∧
      round rf s = .error (f₀.allocate rf) ∧ Counted f n vs s ∧
      Last rf f₀ f sp vs tmp s sheet lv b attempt := by
  rcases entry_or_end rf (start f₀ rf) (f₀.virtuals.length + 1) with ⟨n, s, outcome, entered, ended⟩ | long
  · obtain ⟨vs, tmp, sheet, lv, b, accounted, opened, ready, counted, -⟩ :=
      entry_turn accepted valid₀ begun entered
    obtain ⟨attempt, colored, attempted, last⟩ := conclude_cases accepted begun.valid begun.pointer ready
    rw [← allocate_of_round accepted valid₀ begun entered ended] at ended
    refine ⟨n, s, vs, tmp, sheet, lv, b, attempt, entered, ended, counted, accounted, opened, ready,
      counted.sweeps_le, colored, attempted, ?_⟩
    rw [opened.shape] at ended
    rcases last with ⟨success, s', same, stats, done⟩ | ⟨failure, s', uncolored, none, stats, done⟩ | goes
    · rw [done] at ended
      exact .inl ⟨success, s', same, stats, (Except.error.inj ended).symm⟩
    · rw [done] at ended
      exact .inr ⟨failure, s', uncolored, none, stats, (Except.error.inj ended).symm⟩
    · obtain ⟨ws, s', done, -⟩ := goes
      rw [done] at ended
      cases ended
  · -- More rounds than variables would have spilled more of them than there are.
    obtain ⟨s, entered⟩ := long
    obtain ⟨vs, tmp, sheet, lv, b, accounted, -, -, counted, -⟩ := entry_turn accepted valid₀ begun entered
    exact absurd (Nat.le_trans counted.many accounted.spills_le) (Nat.not_succ_le_self _)

theorem Last.stats {sheet : Sheet} {attempt : Coloring}
    (last : Last rf f₀ f sp vs tmp s sheet lv b attempt) :
    (f₀.allocate rf).stats.iterations = s.stats.iterations + 1 ∧
      (f₀.allocate rf).stats.spills = vs.length ∧ (f₀.allocate rf).stats.sweeps ≤ 1 := by
  have iterations : b.state.stats.iterations = s.stats.iterations + 1 := by rw [last.opened.stats]
  have sweeps : b.state.stats.sweeps ≤ 1 := by
    rw [last.opened.stats]
    exact last.sweeps
  rcases last.outcome with ⟨-, s', -, stats, done⟩ | ⟨-, s', uncolored, -, stats, done⟩
  all_goals
    rw [← stats] at iterations sweeps
    rw [done]
    exact ⟨iterations, (congrArg Stats.spills stats).trans last.ready.underway.spills, sweeps⟩

-- An allocation of a valid function is accounted for whenever an analysis is entered: each round but
-- the last spills variables that were not spilled before, so that it ends in time. After a sweep the next
-- round is the last.
theorem allocation_accounted {cfg : Config} (configured : RegisterFile.ofConfig cfg = .ok rf)
    (sound : f₀.table.Sound) (convention : f₀.convention = some rf) (clean : f₀.problems = []) :
    (∀ n s, entry rf n (start f₀ rf) = some s →
      (∃ spilled, Accounted f₀ spilled s) ∧ s.stats.iterations = n ∧
        (s.stats.sweeps ≠ 0 → round rf s = .error (f₀.allocate rf))) ∧
    (∃ n s, entry rf n (start f₀ rf) = some s ∧ round rf s = .error (f₀.allocate rf)) ∧
    (f₀.allocate rf).stats.iterations ≤ f₀.virtuals.length + 1 ∧
    (f₀.allocate rf).stats.spills ≤ f₀.virtuals.length ∧
    (f₀.allocate rf).stats.sweeps ≤ 1 ∧
    ∀ name bound, (f₀.allocate rf).result ≠ .error (.tooManyIterations name bound) := by
  have accepted := RegisterFile.accepted_of_ofConfig configured
  have valid₀ := Function.valid_of_problems sound convention clean
  obtain ⟨s₁, lv₀, f, sp, b₀, begun⟩ := start_begun accepted valid₀
  obtain ⟨n, s, vs, tmp, sheet, lv, b, attempt, entered, ended, counted, last⟩ :=
    allocate_last accepted valid₀ begun
  obtain ⟨iterations, spills, sweeps⟩ := last.stats
  refine ⟨fun m s' entered' => ?_, ⟨n, s, entered, ended⟩, ?_, ?_, sweeps, ?_⟩
  · obtain ⟨vs', tmp', sheet', lv', b', accounted, opened, ready, counted', -⟩ :=
      entry_turn accepted valid₀ begun entered'
    refine ⟨⟨vs', accounted⟩, counted'.iterations, fun some_sweep => ?_⟩
    obtain ⟨-, none⟩ := counted'.sweeps.resolve_left some_sweep
    cases next : round rf s' with
    | error outcome => rw [allocate_of_round accepted valid₀ begun entered' next]
    | ok after =>
      rw [opened.shape] at next
      obtain ⟨_, -, -, ⟨-, _, -, -, done⟩ | ⟨-, _, _, -, -, done⟩ | ⟨ws, _, -, advanced⟩⟩ :=
        conclude_cases accepted begun.valid begun.pointer ready
      · rw [done] at next
        cases next
      · rw [done] at next
        cases next
      · obtain ⟨v, member⟩ := List.exists_mem_of_ne_nil ws advanced.some_spilled
        exact absurd (advanced.left v member) (none v)
  · rw [iterations, counted.iterations]
    exact Nat.succ_le_succ (Nat.le_trans counted.many last.accounted.spills_le)
  · rw [spills]
    exact last.accounted.spills_le
  · intro name bound same
    rcases last.outcome with ⟨-, s', -, -, done⟩ | ⟨-, s', uncolored, -, -, done⟩
    · rw [done] at same
      cases same
    · rw [done] at same
      cases same

def threeRegisters : Config where
  args := some ["rdi"]
  callerSaved := some ["rax", "rdi"]
  calleeSaved := some ["rbx"]
  result := "rax"
  sp := "rsp"
  retry := 4
  tempPrefix := "%s"

theorem threeRegisters_configured : RegisterFile.ofConfig threeRegisters = .ok (.draft threeRegisters) := by
  decide +kernel

-- A function whose variable lives across a call, so that it needs a slot on this target.
def acrossCall : Function where
  name := "@f"
  args := 1
  table := (VarTable.internAll { convention := some (.draft threeRegisters) } ["%a", "rdi", "rax"]).2
  body := [.assign (.var 0) (.var 1), .call (.name "@g") 1, .assign (.var 2) (.var 0), .ret]

theorem acrossCall_sound : acrossCall.table.Sound :=
  VarTable.internAll_sound (VarTable.empty_sound _) _

theorem acrossCall_problems : acrossCall.problems = [] := by decide +kernel

theorem acrossCall_allocates : ∃ g, (acrossCall.allocate (.draft threeRegisters)).result = .ok g :=
  exists_of_isOk (by decide +kernel)

theorem acrossCall_spills : (acrossCall.allocate (.draft threeRegisters)).stats.spills = 1 := by
  decide +kernel

theorem allocation_accounted_acrossCall :
    (acrossCall.allocate (.draft threeRegisters)).stats.spills = 1 ∧
      acrossCall.virtuals.length = 1 ∧
      (acrossCall.allocate (.draft threeRegisters)).stats.iterations ≤ acrossCall.virtuals.length + 1 := by
  obtain ⟨-, -, iterations, -⟩ := allocation_accounted threeRegisters_configured
    acrossCall_sound rfl acrossCall_problems
  exact ⟨acrossCall_spills, by decide +kernel, iterations⟩

end Entries

end Allocation

end RegisterAllocation
