import RegisterAllocation.Proofs.Groups
import RegisterAllocation.Proofs.ValidFunctions

namespace RegisterAllocation

structure Skeleton where
  kind : InstructionKind
  arith : Option ArithOp := none
  relation : Option Relation := none
  offset : Option Word := none
  scale : Option Word := none
  label : Option String := none
  target : Option String := none
  function : Option String := none
  arity : Option Word := none
  deriving DecidableEq, Repr

namespace Instruction

def skeleton : Instruction → Skeleton
  | .ret => { kind := .ret }
  | .assign _ _ => { kind := .assign }
  | .load _ _ offset => { kind := .load, offset }
  | .store _ offset _ => { kind := .store, offset }
  | .arith op _ _ => { kind := .arith, arith := op }
  | .loadArith op _ _ offset => { kind := .loadArith, arith := op, offset }
  | .storeArith op _ offset _ => { kind := .storeArith, arith := op, offset }
  | .compare rel _ _ _ => { kind := .compare, relation := rel }
  | .cjump rel _ _ target => { kind := .cjump, relation := rel, target }
  | .label symbol => { kind := .label, label := symbol }
  | .goto target => { kind := .goto, target }
  | .call _ arity => { kind := .call, arity }
  | .runtimeCall function arity => { kind := .runtimeCall, function, arity }
  | .increment _ => { kind := .increment }
  | .decrement _ => { kind := .decrement }
  | .lea _ _ _ scale => { kind := .lea, scale }
  | .stackArg _ offset => { kind := .stackArg, offset }

theorem skeleton_rename (ρ : VarId → VarId) (inst : Instruction) :
    (inst.rename ρ).skeleton = inst.skeleton := by
  cases inst <;> rfl

theorem arity?_rename (ρ : VarId → VarId) (inst : Instruction) : (inst.rename ρ).arity? = inst.arity? := by
  cases inst <;> rfl

theorem Resolvable.rename {t : VarTable} {inst : Instruction} {ρ : VarId → VarId} (resolvable : inst.Resolvable t)
    (known : ∀ x, .var x ∈ inst.operands → ρ x < t.size) : (inst.rename ρ).Resolvable t := by
  refine ⟨fun y operand => ?_, fun op found => ?_, fun n call => ?_⟩
  · rw [operands_rename, var_mem_map_rename] at operand
    obtain ⟨x, operand, rfl⟩ := operand
    exact known x operand
  · rw [destination?_rename, Option.map_eq_some_iff] at found
    obtain ⟨op, found, rfl⟩ := found
    have isVar := resolvable.destination op found
    cases op with
    | var x => rfl
    | num _ | label _ | name _ => cases isVar
  · rw [arity?_rename] at call
    exact resolvable.arity n call

end Instruction

def rewriting (m : VarId → Option VarId) (x : VarId) : VarId := (m x).getD x

-- A map that replaces virtual variables of a table by other variables than the stack pointer.
def Replaces (rf : RegisterFile) (t : VarTable) (m : VarId → Option VarId) : Prop :=
  ∀ x y, m x = some y → (x < t.size ∧ t.isRegister x = false) ∧ y < t.size ∧ t.nameOf y ≠ rf.sp

namespace Replaces

variable {rf : RegisterFile} {t t' : VarTable} {inst : Instruction} {x y : VarId} {m : VarId → Option VarId}

theorem extend (replaces : Replaces rf t m) (grown : t.Extends t') : Replaces rf t' m := by
  intro x y found
  obtain ⟨⟨known, virtual⟩, known', other⟩ := replaces x y found
  refine ⟨⟨Nat.lt_of_lt_of_le known grown.size_le, ?_⟩, Nat.lt_of_lt_of_le known' grown.size_le, ?_⟩
  · rw [grown.isRegister known, virtual]
  · rwa [grown.nameOf known']

theorem resolvable (replaces : Replaces rf t m) (resolvable : inst.Resolvable t) :
    (inst.rename (rewriting m)).Resolvable t := by
  refine resolvable.rename fun x operand => ?_
  unfold rewriting
  cases found : m x with
  | none => exact resolvable.operands x operand
  | some y => exact (replaces x y found).2.1

section Images

variable (sound : t.Sound) (convention : t.convention = some rf) (replaces : Replaces rf t m)
include sound convention replaces

theorem register_stays (known : x < t.size) (register : rf.isRegister (t.nameOf x) = true) :
    rewriting m x = x := by
  unfold rewriting
  cases found : m x with
  | none => rfl
  | some y =>
    have virtual := (replaces x y found).1.2
    rw [VarTable.isRegister_eq sound convention known, register] at virtual
    cases virtual

theorem nameOf_ne_sp_iff : t.nameOf (rewriting m x) ≠ rf.sp ↔ t.nameOf x ≠ rf.sp := by
  unfold rewriting
  cases found : m x with
  | none => rfl
  | some y =>
    obtain ⟨⟨known, virtual⟩, -, other⟩ := replaces x y found
    refine iff_of_true other fun same => ?_
    rw [VarTable.isRegister_eq sound convention known, same, RegisterFile.isRegister_iff.mpr (.inl rfl)] at virtual
    cases virtual

theorem implied_iff {names : List String} (registers : ∀ r ∈ names, r ∈ rf.registers) :
    (y < t.size ∧ t.nameOf y ∈ names) ↔ ∃ x, (x < t.size ∧ t.nameOf x ∈ names) ∧ rewriting m x = y := by
  have stays : ∀ x, x < t.size ∧ t.nameOf x ∈ names → rewriting m x = x := fun x implied =>
    register_stays sound convention replaces implied.1 (RegisterFile.isRegister_of_mem (registers _ implied.2))
  constructor
  · intro implied
    exact ⟨y, implied, stays y implied⟩
  · intro h
    obtain ⟨x, implied, rfl⟩ := h
    rwa [stays x implied]

theorem uses_iff (accepted : rf.Accepted) :
    (inst.rename (rewriting m)).Uses rf t y ↔ ∃ x, inst.Uses rf t x ∧ rewriting m x = y := by
  unfold Instruction.Uses
  rw [Instruction.reads_rename, Instruction.var_mem_map_rename, Instruction.implicitReads_rename,
    implied_iff sound convention replaces (Instruction.implicitReads_allocatable accepted inst)]
  constructor
  · intro h
    rcases h with ⟨⟨x, read, rfl⟩, other⟩ | ⟨x, implied, rfl⟩
    · exact ⟨x, .inl ⟨read, (nameOf_ne_sp_iff sound convention replaces).mp other⟩, rfl⟩
    · exact ⟨x, .inr implied, rfl⟩
  · intro h
    obtain ⟨x, ⟨read, other⟩ | implied, rfl⟩ := h
    · exact .inl ⟨⟨x, read, rfl⟩, (nameOf_ne_sp_iff sound convention replaces).mpr other⟩
    · exact .inr ⟨x, implied, rfl⟩

theorem defines_iff (accepted : rf.Accepted) :
    (inst.rename (rewriting m)).Defines rf t y ↔ ∃ x, inst.Defines rf t x ∧ rewriting m x = y := by
  unfold Instruction.Defines
  rw [Instruction.destination?_rename_var, Instruction.implicitWrites_rename,
    implied_iff sound convention replaces (Instruction.implicitWrites_allocatable accepted inst)]
  constructor
  · intro h
    rcases h with ⟨⟨x, written, rfl⟩, other⟩ | ⟨x, implied, rfl⟩
    · exact ⟨x, .inl ⟨written, (nameOf_ne_sp_iff sound convention replaces).mp other⟩, rfl⟩
    · exact ⟨x, .inr implied, rfl⟩
  · intro h
    obtain ⟨x, ⟨written, other⟩ | implied, rfl⟩ := h
    · exact .inl ⟨⟨x, written, rfl⟩, (nameOf_ne_sp_iff sound convention replaces).mpr other⟩
    · exact .inr ⟨x, implied, rfl⟩

end Images

end Replaces

theorem UseDef.ofBody_table {rf : RegisterFile} {t t' : VarTable} {sp : Option VarId} {body : List Instruction}
    {sets : List UseDef} (accepted : rf.Accepted) (convention : t.convention = some rf)
    (found : ofBody sp t body = (sets, t', none)) :
    t' = (t.internAll (body.flatMap fun inst => inst.implicitReads rf ++ inst.implicitWrites rf)).2 := by
  induction body generalizing t sets with
  | nil =>
    cases found
    rfl
  | cons inst rest ih =>
    rw [ofBody] at found
    split at found
    · cases found
    · rename_i set t₁ first
      simp only [Prod.mk.injEq] at found
      obtain ⟨-, table, ended⟩ := found
      have grown := ofInstruction_table accepted convention first
      have kept : t₁.convention = some rf := by
        rw [grown, (VarTable.internAll_extends _ _).convention, convention]
      have later : ofBody sp t₁ rest = ((ofBody sp t₁ rest).1, t', none) := Prod.ext rfl (Prod.ext table ended)
      rw [List.flatMap_cons, VarTable.internAll_append, ← grown]
      exact ih kept later

def Function.rewritten (f : Function) (m : VarId → Option VarId) : Function :=
  { f with body := f.body.map (·.rename (rewriting m)) }

structure SetsFollow (rf : RegisterFile) (t : VarTable) (m : VarId → Option VarId) (inst : Instruction)
    (set set' : UseDef) : Prop where
  used : ∀ y, y ∈ set'.used ↔ ∃ x ∈ set.used, rewriting m x = y
  defined : ∀ y, y ∈ set'.defined ↔ ∃ x ∈ set.defined, rewriting m x = y
  operands : ∀ x, .var x ∈ inst.operands → t.nameOf x ≠ rf.sp → x ∈ set.used ∨ x ∈ set.defined
  virtual : ∀ x, x ∈ set.used ∨ x ∈ set.defined → t.isRegister x = false → .var x ∈ inst.operands

section

variable {rf : RegisterFile} {t : VarTable} {inst : Instruction} {set set' : UseDef} {m : VarId → Option VarId}

theorem operand_of_virtual {x : VarId} (accepted : rf.Accepted) (sound : t.Sound)
    (convention : t.convention = some rf) (virtual : t.isRegister x = false)
    (touched : inst.Uses rf t x ∨ inst.Defines rf t x) : .var x ∈ inst.operands := by
  have plain : ∀ names : List String, (∀ r ∈ names, r ∈ rf.registers) → ¬(x < t.size ∧ t.nameOf x ∈ names) := by
    intro names registers implied
    rw [VarTable.isRegister_eq sound convention implied.1,
      RegisterFile.isRegister_of_mem (registers _ implied.2)] at virtual
    cases virtual
  rcases touched with (⟨read, -⟩ | implied) | (⟨written, -⟩ | implied)
  · exact Instruction.reads_subset_operands inst read
  · exact absurd implied (plain _ (Instruction.implicitReads_allocatable accepted inst))
  · exact Instruction.destination?_mem_operands written
  · exact absurd implied (plain _ (Instruction.implicitWrites_allocatable accepted inst))

theorem setsFollow_of_describes (accepted : rf.Accepted) (sound : t.Sound) (convention : t.convention = some rf)
    (replaces : Replaces rf t m) (described : UseDef.Describes rf t inst set)
    (described' : UseDef.Describes rf t (inst.rename (rewriting m)) set') : SetsFollow rf t m inst set set' := by
  refine ⟨fun y => ?_, fun y => ?_, fun x operand other => ?_, fun x touched virtual => ?_⟩
  · simp only [described'.used, described.used, replaces.uses_iff sound convention accepted]
  · simp only [described'.defined, described.defined, replaces.defines_iff sound convention accepted]
  · rcases Instruction.mem_operands_iff.mp operand with read | written
    · exact .inl ((described.used x).mpr (.inl ⟨read, other⟩))
    · exact .inr ((described.defined x).mpr (.inl ⟨written, other⟩))
  · rw [described.used, described.defined] at touched
    exact operand_of_virtual accepted sound convention virtual touched

end

-- Replacing variables commutes with finding the sets of instructions: those of the new function are
-- the images of the old ones. An instruction keeps all but its operands, and its sets leave none of
-- these out but the stack pointer.
theorem renaming_exact {cfg : Config} {rf : RegisterFile} (configured : RegisterFile.ofConfig cfg = .ok rf)
    {f : Function} (sound : f.table.Sound) (convention : f.convention = some rf)
    (clean : ∀ inst ∈ f.body, Validation.instruction f.table inst = []) {m : VarId → Option VarId}
    (replaces : Replaces rf f.table m) :
    ∃ sets sets' t, f.useDefs = (sets, t, none) ∧ (f.rewritten m).useDefs = (sets', t, none) ∧
      sets.length = f.body.length ∧ sets'.length = f.body.length ∧
      ∀ (i : Nat) inst, f.body[i]? = some inst → ∃ inst' set set', (f.rewritten m).body[i]? = some inst' ∧
        sets[i]? = some set ∧ sets'[i]? = some set' ∧ SetsFollow rf t m inst set set' ∧
        inst'.skeleton = inst.skeleton ∧ inst'.operands = inst.operands.map (·.rename (rewriting m)) ∧
        inst'.target? = inst.target? ∧ inst'.isTerminal = inst.isTerminal := by
  have accepted := RegisterFile.accepted_of_ofConfig configured
  have resolvable : ∀ inst ∈ f.body, inst.Resolvable f.table := fun inst member =>
    Validation.resolvable_of_clean (clean inst member)
  have resolvable' : ∀ inst ∈ (f.rewritten m).body, inst.Resolvable f.table :=
    List.forall_mem_map.mpr fun inst member => replaces.resolvable (resolvable inst member)
  obtain ⟨sets, t, found, grown, tableSound, -, all⟩ :=
    Function.useDefs_describe accepted sound convention resolvable
  obtain ⟨sets', t', found', -, -, -, all'⟩ :=
    Function.useDefs_describe (f := f.rewritten m) accepted sound convention resolvable'
  -- Both bodies imply the same registers, so that one table serves for both.
  have same : t' = t := by
    have started : (UseDef.internStackPointer f.table).2.convention = some rf := by
      simp only [UseDef.internStackPointer, show f.table.convention = some rf from convention]
      split
      · exact convention
      · exact (VarTable.intern_extends _ _).convention.trans convention
    have table := UseDef.ofBody_table accepted started found
    have table' := UseDef.ofBody_table accepted started found'
    rw [table', table, Function.rewritten, List.flatMap_map]
    simp only [Instruction.implicitReads_rename, Instruction.implicitWrites_rename]
  subst same
  have count := all.length_eq
  have count' : f.body.length = sets'.length := by
    rw [← all'.length_eq, Function.rewritten, List.length_map]
  refine ⟨sets, sets', t', found, found', count.symm, count'.symm, fun i inst here => ?_⟩
  obtain ⟨bound, rfl⟩ := List.getElem?_eq_some_iff.mp here
  have here' : (f.rewritten m).body[i]? = some (f.body[i].rename (rewriting m)) := by
    rw [Function.rewritten, List.getElem?_map, here]
    rfl
  obtain ⟨bound', at'⟩ := List.getElem?_eq_some_iff.mp here'
  have described := (List.forall₂_iff_get.mp all).2 i bound (count ▸ bound)
  have described' := (List.forall₂_iff_get.mp all').2 i bound' (count' ▸ bound)
  simp only [List.get_eq_getElem, at'] at described described'
  exact ⟨_, _, _, here', List.getElem?_eq_getElem (count ▸ bound), List.getElem?_eq_getElem (count' ▸ bound),
    setsFollow_of_describes accepted tableSound (grown.convention.trans convention) (replaces.extend grown)
      described described',
    Instruction.skeleton_rename _ _, Instruction.operands_rename _ _, Instruction.target?_rename _ _,
    Instruction.isTerminal_rename _ _⟩

def callsVariable : Function where
  name := "@f"
  args := 1
  table := (VarTable.internAll { convention := some (.draft .x8664) } ["%f", "%x", "rdi", "r10"]).2
  body := [.arith .add (.var 1) (.var 0), .assign (.var 2) (.var 1), .call (.var 0) 1, .ret]

def intoOne (x : VarId) : Option VarId := if x = 0 ∨ x = 1 then some 3 else none

theorem renaming_exact_callsVariable : ∃ sets sets' t, callsVariable.useDefs = (sets, t, none) ∧
    (callsVariable.rewritten intoOne).useDefs = (sets', t, none) ∧
    ∃ set set', sets[2]? = some set ∧ sets'[2]? = some set' ∧
      SetsFollow (.draft .x8664) t intoOne (.call (.var 0) 1) set set' := by
  have replaces : Replaces (.draft .x8664) callsVariable.table intoOne := by
    intro x y found
    unfold intoOne at found
    split at found
    · rename_i either
      cases found
      rcases either with rfl | rfl <;> decide +kernel
    · cases found
  obtain ⟨sets, sets', t, found, found', -, -, each⟩ := renaming_exact RegisterFile.x8664_configured
    (f := callsVariable) (VarTable.internAll_sound (VarTable.empty_sound _) _) (by decide +kernel)
    (by decide +kernel) replaces
  obtain ⟨_, set, set', -, here, here', follow, -⟩ := each 2 _ rfl
  exact ⟨sets, sets', t, found, found', set, set', here, here', follow⟩

end RegisterAllocation
