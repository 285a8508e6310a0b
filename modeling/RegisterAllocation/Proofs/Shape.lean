import RegisterAllocation.Proofs.AllocatedFunctions

namespace RegisterAllocation

open Spill

namespace Expanded

variable {f g : Function} {sp v : VarId} {vs : List VarId} {tmp : Nat → VarId → VarId} {i j p : Nat}
  {inst other : Instruction}

def mainPlace (f : Function) (sp : VarId) (vs : List VarId) (tmp : Nat → VarId → VarId) (i : Nat) : Nat :=
  place f sp vs tmp i + ((f.body[i]?).map fun inst => (readHomes (f.homes vs) inst).length).getD 0

theorem mainPlace_eq (here : f.body[i]? = some inst) :
    mainPlace f sp vs tmp i = place f sp vs tmp i + (readHomes (f.homes vs) inst).length := by
  simp [mainPlace, here]

theorem place_le_mainPlace (f : Function) (sp : VarId) (vs : List VarId) (tmp : Nat → VarId → VarId)
    (i : Nat) : place f sp vs tmp i ≤ mainPlace f sp vs tmp i :=
  Nat.le_add_right _ _

theorem mainPlace_lt_place (here : f.body[i]? = some inst) (before : i < j) :
    mainPlace f sp vs tmp i < place f sp vs tmp j := by
  have next : place f sp vs tmp (i + 1) ≤ place f sp vs tmp j := Layout.start_mono _ before
  rw [place_succ here, group_length] at next
  rw [mainPlace_eq here]
  omega

theorem mainPlace_lt (before : i < j) (inside : j < f.body.length) :
    mainPlace f sp vs tmp i < mainPlace f sp vs tmp j := by
  have here := List.getElem?_eq_getElem (Nat.lt_trans before inside)
  exact Nat.lt_of_lt_of_le (mainPlace_lt_place here before) (place_le_mainPlace f sp vs tmp j)

variable (expanded : Expanded f sp vs tmp g)

include expanded

theorem getElem?_mainPlace (here : f.body[i]? = some inst) :
    g.body[mainPlace f sp vs tmp i]? = some (inst.rename (moved (f.homes vs) (tmp i))) := by
  rw [mainPlace_eq here]
  exact expanded.getElem?_place here group_main

theorem getElem?_before (here : f.body[i]? = some inst) (late : place f sp vs tmp i ≤ p)
    (early : p < mainPlace f sp vs tmp i) :
    ∃ v offset, (v, offset) ∈ f.homes vs ∧ .var v ∈ inst.reads ∧
      g.body[p]? = some (.load (.var (tmp i v)) (.var sp) offset) := by
  obtain ⟨o, rfl⟩ := Nat.exists_eq_add_of_le late
  rw [mainPlace_eq here] at early
  have inside : o < (readHomes (f.homes vs) inst).length := by omega
  have found := List.getElem?_eq_getElem inside
  obtain ⟨member, reading⟩ := mem_readHomes.mp (List.getElem_mem inside)
  exact ⟨_, _, member, reading, expanded.getElem?_place here (group_load found)⟩

theorem getElem?_after (here : f.body[i]? = some inst) (late : mainPlace f sp vs tmp i < p)
    (early : p < place f sp vs tmp (i + 1)) :
    p = mainPlace f sp vs tmp i + 1 ∧ ∃ v offset, (v, offset) ∈ f.homes vs ∧
      inst.destination? = some (.var v) ∧ g.body[p]? = some (.store (.var sp) offset (.var (tmp i v))) := by
  rw [mainPlace_eq here] at late ⊢
  rw [place_succ here, group_length] at early
  rcases stores_cases sp (f.homes vs) (tmp i) inst with ⟨v, offset, written, home, single⟩ | ⟨-, none⟩
  · rw [single, List.length_singleton] at early
    obtain rfl : p = place f sp vs tmp i + ((readHomes (f.homes vs) inst).length + 1) := by omega
    exact ⟨rfl, v, offset, mem_of_lookup home, written,
      expanded.getElem?_place here (group_store written home)⟩
  · rw [none, List.length_nil] at early
    omega

theorem mainPlace_cases (there : g.body[p]? = some other) :
    ∃ i inst, f.body[i]? = some inst ∧ place f sp vs tmp i ≤ p ∧ p < place f sp vs tmp (i + 1) ∧
      (p < mainPlace f sp vs tmp i ∨ p = mainPlace f sp vs tmp i ∨ mainPlace f sp vs tmp i < p) := by
  obtain ⟨i, o, inst, here, found, rfl⟩ := expanded.exists_place there
  have inside := (List.getElem?_eq_some_iff.mp found).1
  refine ⟨i, inst, here, Nat.le_add_right _ _, ?_, Nat.lt_trichotomy _ _⟩
  rw [place_succ here]
  exact Nat.add_lt_add_left inside _

end Expanded

namespace Allocation

def Fetches (f : Function) (sp : VarId) (vs : List VarId) (ρ : Nat → VarId → VarId) (i : Nat)
    (other : Instruction) : Prop :=
  ∃ inst v j, f.body[i]? = some inst ∧ vs[j]? = some v ∧ .var v ∈ inst.reads ∧
    other = .load (.var (ρ i v)) (.var sp) ((f.locals + Int64.ofNat j) * Word.bytes)

def Saves (f : Function) (sp : VarId) (vs : List VarId) (ρ : Nat → VarId → VarId) (i : Nat)
    (other : Instruction) : Prop :=
  ∃ inst v j, f.body[i]? = some inst ∧ vs[j]? = some v ∧ inst.destination? = some (.var v) ∧
    other = .store (.var sp) ((f.locals + Int64.ofNat j) * Word.bytes) (.var (ρ i v))

-- What stands at place `p` of an allocation that has instruction `i` of the original at place `μ i`: that
-- instruction, or one of the loads directly before it, or one of the stores directly after it.
inductive Standing (f g : Function) (sp : VarId) (vs : List VarId) (ρ : Nat → VarId → VarId) (μ : Nat → Nat)
    (p : Nat) : Prop where
  | main (i : Nat) (known : i < f.body.length) (same : p = μ i)
  | fetch (i : Nat) (known : i < f.body.length) (ahead : p < μ i) (past : ∀ j < i, μ j < p)
      (loads : ∀ q, p ≤ q → q < μ i → ∃ other, g.body[q]? = some other ∧ Fetches f sp vs ρ i other)
  | save (i : Nat) (known : i < f.body.length) (behind : μ i < p)
      (next : ∀ j, i < j → j < f.body.length → p < μ j)
      (stores : ∀ q, μ i < q → q ≤ p → ∃ other, g.body[q]? = some other ∧ Saves f sp vs ρ i other)

-- How a function lies in its allocation: instruction `i` is at place `μ i` with its variables replaced as
-- `ρ i` says. Registers stay what they are, and only the variables of `vs`, which are the ones on slots,
-- are in different registers at different places.
structure Laid (rf : RegisterFile) (f g : Function) (sp : VarId) (vs : List VarId)
    (ρ : Nat → VarId → VarId) (μ : Nat → Nat) : Prop where
  grown : f.table.Extends g.table
  pointer : g.table.nameOf sp = rf.sp
  distinct : vs.Nodup
  originals : ∀ v ∈ vs, v ∈ f.virtuals ∧ f.table.nameOf v ∉ f.spilled
  spilled : ∀ name, name ∈ g.spilled ↔ name ∈ f.spilled ∨ name ∈ vs.map f.table.nameOf
  increasing : ∀ i j, i < j → j < f.body.length → μ i < μ j
  main : ∀ i inst, f.body[i]? = some inst → g.body[μ i]? = some (inst.rename (ρ i))
  register : ∀ i x, f.table.isRegister x = true → ρ i x = x
  virtual : ∀ i inst x, f.body[i]? = some inst → .var x ∈ inst.operands → f.table.isRegister x = false →
    g.table.nameOf (ρ i x) ∈ rf.registers
  unspilled : ∀ i j x, x ∉ vs → ρ i x = ρ j x
  standing : ∀ p < g.body.length, Standing f g sp vs ρ μ p

variable {rf : RegisterFile} {f e g : Function} {sp : VarId} {vs : List VarId} {tmp : Nat → VarId → VarId}
  {ρ : VarId → VarId} {i p : Nat} {inst : Instruction}

section Layout

open Expanded

variable (expanded : Expanded f sp vs tmp e) (registered : Registered rf e ρ g) (pointer : ρ sp = sp)

include expanded registered pointer

theorem fetches_before (here : f.body[i]? = some inst) (late : place f sp vs tmp i ≤ p)
    (early : p < mainPlace f sp vs tmp i) :
    ∃ other, g.body[p]? = some other ∧ Fetches f sp vs (fun i => ρ ∘ moved (f.homes vs) (tmp i)) i other := by
  obtain ⟨v, offset, home, reading, there⟩ := expanded.getElem?_before here late early
  have goes := Function.moved_of_mem (f := f) (Function.mem_of_home home) (tmp i)
  obtain ⟨j, listed, rfl⟩ := Function.mem_homes.mp home
  refine ⟨_, registered.getElem? there, inst, v, j, here, listed, reading, ?_⟩
  simp [Instruction.rename, Instruction.mapOperands, Operand.rename, goes, pointer]

theorem saves_after (here : f.body[i]? = some inst) (late : mainPlace f sp vs tmp i < p)
    (early : p < place f sp vs tmp (i + 1)) :
    ∃ other, g.body[p]? = some other ∧ Saves f sp vs (fun i => ρ ∘ moved (f.homes vs) (tmp i)) i other := by
  obtain ⟨-, v, offset, home, written, there⟩ := expanded.getElem?_after here late early
  have goes := Function.moved_of_mem (f := f) (Function.mem_of_home home) (tmp i)
  obtain ⟨j, listed, rfl⟩ := Function.mem_homes.mp home
  refine ⟨_, registered.getElem? there, inst, v, j, here, listed, written, ?_⟩
  simp [Instruction.rename, Instruction.mapOperands, Operand.rename, goes, pointer]

theorem standing_laid (inside : p < g.body.length) :
    Standing f g sp vs (fun i => ρ ∘ moved (f.homes vs) (tmp i)) (mainPlace f sp vs tmp) p := by
  -- The groups follow one another, so that what stands between two main instructions belongs to the
  -- first one as far as the stores go and to the second one from the loads on.
  rw [registered.body, List.length_map] at inside
  obtain ⟨i, inst, here, late, early, position⟩ := expanded.mainPlace_cases (List.getElem?_eq_getElem inside)
  have known := (List.getElem?_eq_some_iff.mp here).1
  rcases position with before | same | after
  · refine .fetch i known before (fun j earlier => ?_) fun q start stop => ?_
    · have there := List.getElem?_eq_getElem (Nat.lt_trans earlier known)
      exact Nat.lt_of_lt_of_le (mainPlace_lt_place there earlier) late
    · exact fetches_before expanded registered pointer here (Nat.le_trans late start) stop
  · exact .main i known same
  · refine .save i known after (fun j later _ => ?_) fun q start stop => ?_
    · have next : place f sp vs tmp (i + 1) ≤ place f sp vs tmp j := Layout.start_mono _ later
      exact Nat.lt_of_lt_of_le early (Nat.le_trans next (place_le_mainPlace f sp vs tmp j))
    · exact saves_after expanded registered pointer here start (Nat.lt_of_le_of_lt stop early)

end Layout

theorem laid_of_expanded (accepted : rf.Accepted) (valid : f.Valid rf)
    (pointer : sp < f.table.size ∧ f.table.nameOf sp = rf.sp) (expanded : Expanded f sp vs tmp e)
    (originals : ∀ v ∈ vs, v ∈ f.virtuals ∧ f.table.nameOf v ∉ f.spilled)
    (registered : Registered rf e ρ g) :
    Laid rf f g sp vs (fun i => ρ ∘ moved (f.homes vs) (tmp i)) (Expanded.mainPlace f sp vs tmp) := by
  have fixed : ρ sp = sp := registered.fixed sp (expanded.pointer_isRegister valid pointer)
  have grown := expanded.grown.trans registered.grown
  refine ⟨grown, (grown.nameOf pointer.1).trans pointer.2, expanded.distinct, originals, fun name => ?_,
    fun i j => Expanded.mainPlace_lt, fun i inst here => ?_, fun i x register => ?_,
    fun i inst x here operand virtual => ?_, fun i j x apart => ?_,
    fun p inside => standing_laid expanded registered fixed inside⟩
  · rw [registered.spilled, expanded.spilled]
  · rw [registered.getElem? (expanded.getElem?_mainPlace here), Instruction.rename_rename]
  · have apart : x ∉ vs := fun listed => by
      rw [(expanded.originals x listed).2] at register
      cases register
    rw [Function.comp_apply, Function.moved_of_not_mem apart]
    refine registered.fixed x ?_
    rw [expanded.grown.isRegister (VarTable.lt_size_of_isRegister register), register]
  · refine registered.replaced _ (expanded.mentions_moved here operand) ?_
    by_cases listed : x ∈ vs
    · rw [Function.moved_of_mem listed]
      exact Expanded.temp_virtual accepted valid pointer expanded listed ⟨inst, here, operand⟩
    · have known := valid.mentions_lt_size ⟨inst, List.mem_of_getElem? here, operand⟩
      rw [Function.moved_of_not_mem listed, expanded.grown.isRegister known, virtual]
  · rw [Function.comp_apply, Function.comp_apply, Function.moved_of_not_mem apart,
      Function.moved_of_not_mem apart]

theorem Laid.ofTable {t : VarTable} {ρ : Nat → VarId → VarId} {μ : Nat → Nat} (valid : f.Valid rf)
    (grown : f.table.Extends t) (laid : Laid rf { f with table := t } g sp vs ρ μ) : Laid rf f g sp vs ρ μ := by
  have original : ∀ v ∈ vs, v ∈ f.virtuals := fun v listed =>
    virtuals_withTable valid grown ▸ (laid.originals v listed).1
  have named : ∀ v ∈ vs, t.nameOf v = f.table.nameOf v := fun v listed =>
    grown.nameOf (valid.mentions_lt_size (Function.mem_virtuals.mp (original v listed)).1)
  refine ⟨grown.trans laid.grown, laid.pointer, laid.distinct, fun v listed => ⟨original v listed, ?_⟩,
    fun name => ?_, laid.increasing, laid.main, fun i x register => ?_,
    fun i inst x here operand virtual => ?_, laid.unspilled, fun p inside => ?_⟩
  · rw [← named v listed]
    exact (laid.originals v listed).2
  · rw [laid.spilled, List.map_congr_left named]
  · refine laid.register i x ?_
    rw [grown.isRegister (VarTable.lt_size_of_isRegister register), register]
  · have known := valid.mentions_lt_size ⟨inst, List.mem_of_getElem? here, operand⟩
    refine laid.virtual i inst x here operand ?_
    rw [grown.isRegister known, virtual]
  · cases laid.standing p inside with
    | main i known same => exact .main i known same
    | fetch i known ahead past loads => exact .fetch i known ahead past loads
    | save i known behind next stores => exact .save i known behind next stores

theorem Laid.spilled_size {ρ : Nat → VarId → VarId} {μ : Nat → Nat} (valid : f.Valid rf)
    (laid : Laid rf f g sp vs ρ μ) : g.spilled.size = f.spilled.size + vs.length := by
  have nodup : ∀ s : Std.ExtTreeSet String, s.toList.Nodup := fun s =>
    Std.ExtTreeSet.distinct_toList.imp fun apart same =>
      apart (Std.LawfulEqOrd.compare_eq_iff_eq.mpr same)
  have known : ∀ v ∈ vs, v < f.table.size := fun v listed =>
    valid.mentions_lt_size (Function.mem_virtuals.mp (laid.originals v listed).1).1
  have names : (vs.map f.table.nameOf).Nodup :=
    laid.distinct.map_on fun v left w right same =>
      VarTable.nameOf_inj valid.sound (known v left) (known w right) same
  have apart : f.spilled.toList.Disjoint (vs.map f.table.nameOf) := by
    intro name old new
    obtain ⟨v, listed, rfl⟩ := List.mem_map.mp new
    exact (laid.originals v listed).2 (Std.ExtTreeSet.mem_toList.mp old)
  have same : g.spilled.toList.Perm (f.spilled.toList ++ vs.map f.table.nameOf) := by
    refine (List.perm_ext_iff_of_nodup (nodup _) ((nodup _).append names apart)).mpr fun name => ?_
    rw [List.mem_append, Std.ExtTreeSet.mem_toList, Std.ExtTreeSet.mem_toList, laid.spilled]
  rw [← Std.ExtTreeSet.length_toList, same.length_eq, List.length_append, List.length_map,
    Std.ExtTreeSet.length_toList]

-- The shape of an allocation: the instructions of the function in their order, all of them on registers,
-- and around them the loads and stores of the spilled variables, each of which has got a slot.
theorem allocation_shape {cfg : Config} (configured : RegisterFile.ofConfig cfg = .ok rf)
    (sound : f.table.Sound) (convention : f.convention = some rf) (clean : f.problems = [])
    (allocated : (f.allocate rf).result = .ok g) :
    g.name = f.name ∧ g.args = f.args ∧
      (∀ inst ∈ g.body, ∀ x, .var x ∈ inst.operands → g.table.isRegister x = true) ∧
      ∃ sp vs ρ μ, Laid rf f g sp vs ρ μ ∧ vs.length = (f.allocate rf).stats.spills ∧
        g.locals - f.locals = Int64.ofNat (f.allocate rf).stats.spills ∧
        g.spilled.size = f.spilled.size + (f.allocate rf).stats.spills := by
  have accepted := RegisterFile.accepted_of_ofConfig configured
  have valid := Function.valid_of_problems sound convention clean
  obtain ⟨s₁, lv₀, f', sp, b₀, begun⟩ := start_begun accepted valid
  obtain ⟨_, _, vs, tmp, _, lv, b, attempt, -, -, -, last⟩ := allocate_last accepted valid begun
  obtain ⟨ρ, registered⟩ := last.registered accepted allocated
  obtain ⟨-, spills, -⟩ := last.stats
  have expanded := last.ready.underway.expanded
  have laid' := laid_of_expanded accepted begun.valid begun.pointer expanded last.ready.underway.originals
    registered
  have laid := (begun.same ▸ laid').ofTable valid begun.grown
  have same := begun.same
  refine ⟨?_, ?_, ?_, sp, vs, _, _, laid, spills.symm, ?_, ?_⟩
  · rw [registered.name, expanded.name, same]
  · rw [registered.args, expanded.args, same]
  · exact registered.operands_registers accepted (expanded.stays_valid begun.valid begun.pointer)
  · rw [spills, registered.locals, expanded.locals, same, Int64.add_comm, Int64.add_sub_cancel]
  · rw [spills, laid.spilled_size valid]

theorem allocation_shape_acrossCall :
    ∃ g, (acrossCall.allocate (.draft threeRegisters)).result = .ok g ∧ g.args = 1 ∧
      g.spilled.size = 1 ∧ g.locals = 1 ∧
      ∃ sp vs ρ μ, Laid (.draft threeRegisters) acrossCall g sp vs ρ μ ∧ vs.length = 1 := by
  obtain ⟨g, allocated⟩ := acrossCall_allocates
  obtain ⟨-, args, -, sp, vs, ρ, μ, laid, length, locals, spilled⟩ := allocation_shape
    threeRegisters_configured acrossCall_sound rfl acrossCall_problems allocated
  rw [acrossCall_spills] at length locals spilled
  refine ⟨g, allocated, args, spilled, ?_, sp, vs, ρ, μ, laid, length⟩
  simpa [acrossCall] using locals

end Allocation

end RegisterAllocation
