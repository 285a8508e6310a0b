import Mathlib.Data.List.Forall2
import RegisterAllocation.Analysis.UseDef
import RegisterAllocation.Proofs.RegisterFiles
import RegisterAllocation.Proofs.Tables

namespace RegisterAllocation

namespace Instruction

def reads : Instruction → List Operand
  | .ret | .label _ | .goto _ | .runtimeCall .. | .stackArg .. => []
  | .assign _ src => [src]
  | .load _ base _ => [base]
  | .store base _ src => [src, base]
  | .arith _ dst src => [dst, src]
  | .loadArith _ dst base _ => [dst, base]
  | .storeArith _ base _ src => [base, src]
  | .compare _ _ left right | .cjump _ left right _ => [left, right]
  | .call callee _ => [callee]
  | .increment dst | .decrement dst => [dst]
  | .lea _ base index _ => [base, index]

def destination? : Instruction → Option Operand
  | .assign dst _ | .load dst _ _ | .arith _ dst _ | .loadArith _ dst _ _ | .compare _ dst _ _
  | .increment dst | .decrement dst | .lea dst _ _ _ | .stackArg dst _ => some dst
  | _ => none

def arity? : Instruction → Option Word
  | .call _ arity | .runtimeCall _ arity => some arity
  | _ => none

def implicitReads (rf : RegisterFile) : Instruction → List String
  | .ret => rf.result :: rf.calleeSaved
  | .call _ arity | .runtimeCall _ arity => rf.args.take arity.toNatClampNeg
  | _ => []

def implicitWrites (rf : RegisterFile) : Instruction → List String
  | .call .. | .runtimeCall .. => rf.callerSaved
  | _ => []

def Uses (rf : RegisterFile) (t : VarTable) (inst : Instruction) (x : VarId) : Prop :=
  (.var x ∈ inst.reads ∧ t.nameOf x ≠ rf.sp) ∨
    (x < t.size ∧ t.nameOf x ∈ inst.implicitReads rf)

def Defines (rf : RegisterFile) (t : VarTable) (inst : Instruction) (x : VarId) : Prop :=
  (inst.destination? = some (.var x) ∧ t.nameOf x ≠ rf.sp) ∨
    (x < t.size ∧ t.nameOf x ∈ inst.implicitWrites rf)

-- An instruction whose sets can be found: its variables are in the table, it writes to a variable
-- if to anything, and a call has no negative arity.
structure Resolvable (t : VarTable) (inst : Instruction) : Prop where
  operands : ∀ x, .var x ∈ inst.operands → x < t.size
  destination : ∀ op, inst.destination? = some op → op.isVar = true
  arity : ∀ n, inst.arity? = some n → ¬n < 0

variable {rf : RegisterFile} {t t' : VarTable} {inst : Instruction} {x : VarId} {ρ : VarId → VarId}

theorem reads_subset_operands (inst : Instruction) : inst.reads ⊆ inst.operands := by
  cases inst <;> simp [reads, operands]

theorem destination?_mem_operands {op : Operand} (found : inst.destination? = some op) :
    op ∈ inst.operands := by
  cases inst <;> simp_all [destination?, operands]

theorem mem_operands_iff {op : Operand} :
    op ∈ inst.operands ↔ op ∈ inst.reads ∨ inst.destination? = some op := by
  cases inst <;> simp [reads, operands, destination?, eq_comm] <;> tauto

theorem reads_rename (ρ : VarId → VarId) (inst : Instruction) :
    (inst.rename ρ).reads = inst.reads.map (·.rename ρ) := by
  cases inst <;> rfl

theorem destination?_rename (ρ : VarId → VarId) (inst : Instruction) :
    (inst.rename ρ).destination? = inst.destination?.map (·.rename ρ) := by
  cases inst <;> rfl

theorem implicitReads_rename (ρ : VarId → VarId) (inst : Instruction) :
    (inst.rename ρ).implicitReads rf = inst.implicitReads rf := by
  cases inst <;> rfl

theorem implicitWrites_rename (ρ : VarId → VarId) (inst : Instruction) :
    (inst.rename ρ).implicitWrites rf = inst.implicitWrites rf := by
  cases inst <;> rfl

theorem implicitReads_allocatable (accepted : rf.Accepted) (inst : Instruction) :
    ∀ r ∈ inst.implicitReads rf, r ∈ rf.registers := by
  intro r member
  cases inst <;> simp only [implicitReads, List.not_mem_nil, List.mem_cons] at member
  case ret =>
    rcases member with rfl | saved
    · exact accepted.result
    · exact accepted.calleeSaved r saved
  case call => exact accepted.args r (List.mem_of_mem_take member)
  case runtimeCall => exact accepted.args r (List.mem_of_mem_take member)

theorem implicitWrites_allocatable (accepted : rf.Accepted) (inst : Instruction) :
    ∀ r ∈ inst.implicitWrites rf, r ∈ rf.registers := by
  intro r member
  cases inst <;> simp only [implicitWrites, List.not_mem_nil] at member
  case call => exact accepted.callerSaved r member
  case runtimeCall => exact accepted.callerSaved r member

theorem implicitWrites_eq_nil {op : Operand} (found : inst.destination? = some op) :
    inst.implicitWrites rf = [] := by
  cases inst <;> simp_all [destination?, implicitWrites]

theorem Resolvable.extend (resolvable : inst.Resolvable t) (grown : t.Extends t') :
    inst.Resolvable t' :=
  ⟨fun x member => Nat.lt_of_lt_of_le (resolvable.operands x member) grown.size_le,
    resolvable.destination, resolvable.arity⟩

theorem Resolvable.destination_var (resolvable : inst.Resolvable t) {op : Operand}
    (found : inst.destination? = some op) : ∃ x < t.size, op = .var x := by
  have isVar := resolvable.destination op found
  have member := destination?_mem_operands found
  cases op with
  | var x => exact ⟨x, resolvable.operands x member, rfl⟩
  | num _ | label _ | name _ => cases isVar

theorem Uses.lt_size (resolvable : inst.Resolvable t) (used : inst.Uses rf t x) : x < t.size := by
  rcases used with ⟨member, -⟩ | ⟨known, -⟩
  · exact resolvable.operands x (reads_subset_operands inst member)
  · exact known

theorem Defines.lt_size (resolvable : inst.Resolvable t) (defined : inst.Defines rf t x) :
    x < t.size := by
  rcases defined with ⟨found, -⟩ | ⟨known, -⟩
  · exact resolvable.operands x (destination?_mem_operands found)
  · exact known

theorem Uses.ne_sp (accepted : rf.Accepted) (used : inst.Uses rf t x) : t.nameOf x ≠ rf.sp := by
  rcases used with ⟨-, apart⟩ | ⟨-, member⟩
  · exact apart
  · exact accepted.ne_sp (implicitReads_allocatable accepted _ _ member)

theorem Defines.ne_sp (accepted : rf.Accepted) (defined : inst.Defines rf t x) :
    t.nameOf x ≠ rf.sp := by
  rcases defined with ⟨-, apart⟩ | ⟨-, member⟩
  · exact apart
  · exact accepted.ne_sp (implicitWrites_allocatable accepted _ _ member)

end Instruction

namespace UseDef

variable {rf : RegisterFile} {t t' : VarTable} {inst : Instruction} {set : UseDef} {x sp : VarId}

structure Describes (rf : RegisterFile) (t : VarTable) (inst : Instruction) (set : UseDef) :
    Prop where
  used : ∀ x, x ∈ set.used ↔ inst.Uses rf t x
  defined : ∀ x, x ∈ set.defined ↔ inst.Defines rf t x
  implied : ∀ r ∈ inst.implicitReads rf ++ inst.implicitWrites rf, r ∈ t.names

theorem mem_foldl_insertUnless (sp : Option VarId) (vars : List VarId) (s : VarSet) :
    x ∈ vars.foldl (insertUnless sp) s ↔ x ∈ s ∨ (x ∈ vars ∧ sp ≠ some x) := by
  induction vars generalizing s with
  | nil => simp
  | cons v rest ih =>
    rw [List.foldl_cons, ih]
    unfold insertUnless
    split
    · rename_i hit
      constructor
      · intro either
        rcases either with old | ⟨member, apart⟩
        · exact .inl old
        · exact .inr ⟨List.mem_cons_of_mem _ member, apart⟩
      · intro either
        rcases either with old | ⟨member, apart⟩
        · exact .inl old
        · rcases List.mem_cons.mp member with rfl | later
          · exact absurd hit apart
          · exact .inr ⟨later, apart⟩
    · rename_i miss
      rw [Std.ExtTreeSet.mem_insert, Std.LawfulEqOrd.compare_eq_iff_eq, List.mem_cons]
      constructor
      · intro either
        rcases either with (rfl | old) | ⟨member, apart⟩
        · exact .inr ⟨.inl rfl, miss⟩
        · exact .inl old
        · exact .inr ⟨.inr member, apart⟩
      · intro either
        rcases either with old | ⟨rfl | member, apart⟩
        · exact .inl (.inr old)
        · exact .inl (.inl rfl)
        · exact .inr ⟨member, apart⟩

theorem mem_ids (sp : Option VarId) (vars : List VarId) :
    x ∈ ids sp vars ↔ x ∈ vars ∧ sp ≠ some x := by
  rw [ids, mem_foldl_insertUnless]
  simp

theorem mem_uses (sp : Option VarId) (ops : List Operand) :
    x ∈ uses sp ops ↔ .var x ∈ ops ∧ sp ≠ some x := by
  rw [uses, mem_ids]
  refine and_congr_left fun _ => ?_
  rw [List.mem_filterMap]
  constructor
  · intro h
    obtain ⟨op, member, found⟩ := h
    cases op <;> simp_all [Operand.var?]
  · intro member
    exact ⟨_, member, rfl⟩

theorem sp_ne_iff (sound : t.Sound) (pointer : t.id? rf.sp = some sp) (known : x < t.size) :
    some sp ≠ some x ↔ t.nameOf x ≠ rf.sp := by
  obtain ⟨spKnown, spName⟩ := (VarTable.id?_eq_some_iff sound).mp pointer
  constructor
  · intro apart same
    exact apart (congrArg some (VarTable.nameOf_inj sound spKnown known (spName.trans same.symm)))
  · intro apart h
    obtain ⟨rfl⟩ := h
    exact apart spName

theorem mem_uses_iff (sound : t.Sound) (pointer : t.id? rf.sp = some sp) {ops : List Operand}
    (known : ∀ x, .var x ∈ ops → x < t.size) :
    x ∈ uses (some sp) ops ↔ .var x ∈ ops ∧ t.nameOf x ≠ rf.sp := by
  rw [mem_uses]
  constructor
  · intro h
    obtain ⟨member, apart⟩ := h
    exact ⟨member, (sp_ne_iff sound pointer (known x member)).mp apart⟩
  · intro h
    obtain ⟨member, apart⟩ := h
    exact ⟨member, (sp_ne_iff sound pointer (known x member)).mpr apart⟩

theorem ofInstruction_writing (sp : Option VarId) (t : VarTable) {op : Operand}
    (found : inst.destination? = some op) :
    ofInstruction sp t inst =
      (defines sp op).map fun defined => ({ used := uses sp inst.reads, defined }, t) := by
  cases inst <;> simp only [Instruction.destination?, Option.some.injEq, reduceCtorEq] at found <;>
    subst found <;> rfl

theorem ofInstruction_reading (sp : Option VarId) (t : VarTable) (plain : inst.destination? = none)
    (noCall : inst.arity? = none) (noReturn : inst ≠ .ret) :
    ofInstruction sp t inst = .ok ({ used := uses sp inst.reads }, t) := by
  cases inst <;> simp_all [Instruction.destination?, Instruction.arity?] <;> rfl

theorem ofInstruction_call (sp : Option VarId) (t : VarTable) {n : Word}
    (call : inst.arity? = some n) :
    ofInstruction sp t inst = ofCall sp t (uses sp inst.reads) n := by
  cases inst <;> simp only [Instruction.arity?, Option.some.injEq, reduceCtorEq] at call <;>
    subst call <;> rfl

theorem call_implicitReads (rf : RegisterFile) {n : Word} (call : inst.arity? = some n) :
    inst.implicitReads rf = rf.args.take n.toNatClampNeg ∧
      inst.implicitWrites rf = rf.callerSaved ∧ inst.destination? = none := by
  cases inst <;> simp_all [Instruction.arity?, Instruction.implicitReads,
    Instruction.implicitWrites, Instruction.destination?]

theorem plain_implicit (rf : RegisterFile) (noCall : inst.arity? = none) (noReturn : inst ≠ .ret) :
    inst.implicitReads rf = [] ∧ inst.implicitWrites rf = [] := by
  cases inst <;> simp_all [Instruction.arity?, Instruction.implicitReads,
    Instruction.implicitWrites]

theorem filter_nonempty (accepted : rf.Accepted) {names : List String}
    (allocatable : ∀ r ∈ names, r ∈ rf.registers) : names.filter (!·.isEmpty) = names := by
  rw [List.filter_eq_self]
  intro r member
  simp [(accepted.spelled r (allocatable r member)).1]

section Resolution

variable (accepted : rf.Accepted) (sound : t.Sound) (convention : t.convention = some rf)
  (pointer : t.id? rf.sp = some sp) (resolvable : inst.Resolvable t)

include sound pointer resolvable in
theorem describes_writing {d : VarId} (found : inst.destination? = some (.var d))
    (noCall : inst.arity? = none) (noReturn : inst ≠ .ret) :
    Describes rf t inst { used := uses (some sp) inst.reads, defined := ids (some sp) [d] } := by
  have known : d < t.size := resolvable.operands d (Instruction.destination?_mem_operands found)
  obtain ⟨noReads, noWrites⟩ := plain_implicit rf noCall noReturn
  refine ⟨fun x => ?_, fun x => ?_, by simp [noReads, noWrites]⟩
  · rw [mem_uses_iff sound pointer fun x member =>
      resolvable.operands x (Instruction.reads_subset_operands inst member)]
    simp [Instruction.Uses, noReads]
  · rw [mem_ids, List.mem_singleton]
    simp only [Instruction.Defines, found, noWrites, List.not_mem_nil, and_false, or_false,
      Option.some.injEq, Operand.var.injEq]
    constructor
    · intro h
      obtain ⟨rfl, apart⟩ := h
      exact ⟨rfl, (sp_ne_iff sound pointer known).mp apart⟩
    · intro h
      obtain ⟨rfl, apart⟩ := h
      exact ⟨rfl, (sp_ne_iff sound pointer known).mpr apart⟩

include sound pointer resolvable in
theorem describes_reading (plain : inst.destination? = none) (noCall : inst.arity? = none)
    (noReturn : inst ≠ .ret) : Describes rf t inst { used := uses (some sp) inst.reads } := by
  obtain ⟨noReads, noWrites⟩ := plain_implicit rf noCall noReturn
  refine ⟨fun x => ?_, fun x => ?_, by simp [noReads, noWrites]⟩
  · rw [mem_uses_iff sound pointer fun x member =>
      resolvable.operands x (Instruction.reads_subset_operands inst member)]
    simp [Instruction.Uses, noReads]
  · simp [Instruction.Defines, plain, noWrites]

include accepted sound convention pointer resolvable in
theorem ofCall_describes {n : Word} (call : inst.arity? = some n) :
    ∃ set t', ofCall (some sp) t (uses (some sp) inst.reads) n = .ok (set, t') ∧ t.Extends t' ∧
      t'.Sound ∧ Describes rf t' inst set := by
  obtain ⟨reads, writes, plain⟩ := call_implicitReads rf call
  have argNames : (rf.args.take n.toNatClampNeg).filter (!·.isEmpty) =
      rf.args.take n.toNatClampNeg :=
    filter_nonempty accepted fun r member => accepted.args r (List.mem_of_mem_take member)
  -- The arguments come first, the saved registers are added to the table they leave.
  let t₁ := (t.internAll (rf.args.take n.toNatClampNeg)).2
  let t₂ := (t₁.internAll rf.callerSaved).2
  have sound₁ : t₁.Sound := VarTable.internAll_sound sound _
  have sound₂ : t₂.Sound := VarTable.internAll_sound sound₁ _
  have grown₁ : t.Extends t₁ := VarTable.internAll_extends t _
  have grown₂ : t₁.Extends t₂ := VarTable.internAll_extends t₁ _
  have grown : t.Extends t₂ := grown₁.trans grown₂
  have pointer₂ : t₂.id? rf.sp = some sp := grown.id? sound sound₂ pointer
  refine ⟨_, t₂, by simp only [ofCall, convention, resolvable.arity n call, if_false, argNames]; rfl,
    grown, sound₂, fun x => ?_, fun x => ?_, ?_⟩
  · have argument : x ∈ ids (some sp) (t.internAll (rf.args.take n.toNatClampNeg)).1 ↔
        x < t₂.size ∧ t₂.nameOf x ∈ rf.args.take n.toNatClampNeg := by
      rw [mem_ids, VarTable.mem_internAll sound]
      constructor
      · intro h
        obtain ⟨⟨known, named⟩, -⟩ := h
        refine ⟨Nat.lt_of_lt_of_le known grown₂.size_le, ?_⟩
        rwa [grown₂.nameOf known]
      · intro h
        obtain ⟨known, named⟩ := h
        obtain ⟨y, yKnown, same⟩ := VarTable.exists_of_mem_names
          (VarTable.mem_names_internAll t (rf.args.take n.toNatClampNeg) _ named)
        have equal : y = x := VarTable.nameOf_inj sound₂
          (Nat.lt_of_lt_of_le yKnown grown₂.size_le) known ((grown₂.nameOf yKnown).trans same)
        subst equal
        refine ⟨⟨yKnown, same ▸ named⟩, ?_⟩
        rw [sp_ne_iff sound₂ pointer₂ known]
        exact accepted.ne_sp (accepted.args _ (List.mem_of_mem_take named))
    rw [Std.ExtTreeSet.mem_union_iff, argument, Instruction.Uses, reads,
      mem_uses_iff sound pointer fun x member =>
        resolvable.operands x (Instruction.reads_subset_operands inst member)]
    refine or_congr_left (and_congr_right fun member => ?_)
    rw [grown.nameOf (resolvable.operands x (Instruction.reads_subset_operands inst member))]
  · simp only [Std.ExtTreeSet.mem_ofList, List.contains_iff_mem, Instruction.Defines, plain, writes,
      reduceCtorEq, false_and, false_or]
    exact VarTable.mem_internAll sound₁
  · intro r member
    rw [reads, writes] at member
    rcases List.mem_append.mp member with arg | saved
    · exact grown₂.mem_names (VarTable.mem_names_internAll t _ r arg)
    · exact VarTable.mem_names_internAll t₁ _ r saved

include accepted sound convention pointer in
theorem ofReturn_describes :
    ∃ set t', ofReturn (some sp) t = (set, t') ∧ t.Extends t' ∧ t'.Sound ∧
      Describes rf t' .ret set := by
  have allocatable : ∀ r ∈ rf.result :: rf.calleeSaved, r ∈ rf.registers :=
    Instruction.implicitReads_allocatable accepted .ret
  have names : (rf.result :: rf.calleeSaved).filter (!·.isEmpty) = rf.result :: rf.calleeSaved :=
    filter_nonempty accepted allocatable
  have sound' := VarTable.internAll_sound sound (rf.result :: rf.calleeSaved)
  have grown := VarTable.internAll_extends t (rf.result :: rf.calleeSaved)
  refine ⟨_, _, by simp only [ofReturn, convention, names]; rfl, grown, sound', fun x => ?_,
    fun x => ?_, ?_⟩
  · simp only [mem_ids, VarTable.mem_internAll sound, Instruction.Uses, Instruction.reads,
      List.not_mem_nil, false_and, false_or, Instruction.implicitReads, and_iff_left_iff_imp]
    intro h
    obtain ⟨known, named⟩ := h
    rw [sp_ne_iff sound' (grown.id? sound sound' pointer) known]
    exact accepted.ne_sp (allocatable _ named)
  · simp [Instruction.Defines, Instruction.destination?, Instruction.implicitWrites]
  · intro r member
    simp only [Instruction.implicitReads, Instruction.implicitWrites, List.append_nil] at member
    exact VarTable.mem_names_internAll t _ r member

include accepted sound convention pointer resolvable in
theorem ofInstruction_describes :
    ∃ set t', ofInstruction (some sp) t inst = .ok (set, t') ∧ t.Extends t' ∧ t'.Sound ∧
      Describes rf t' inst set := by
  by_cases isReturn : inst = .ret
  · subst isReturn
    obtain ⟨set, t', found, rest⟩ := ofReturn_describes accepted sound convention pointer
    exact ⟨set, t', congrArg Except.ok found, rest⟩
  · cases call : inst.arity? with
    | some n =>
      rw [ofInstruction_call _ _ call]
      exact ofCall_describes accepted sound convention pointer resolvable call
    | none =>
      cases found : inst.destination? with
      | none =>
        exact ⟨_, t, ofInstruction_reading _ _ found call isReturn, .refl t, sound,
          describes_reading sound pointer resolvable found call isReturn⟩
      | some op =>
        obtain ⟨d, -, rfl⟩ := resolvable.destination_var found
        exact ⟨_, t, ofInstruction_writing _ _ found, .refl t, sound,
          describes_writing sound pointer resolvable found call isReturn⟩

end Resolution

theorem ofInstruction_table {sp : Option VarId} (accepted : rf.Accepted) (convention : t.convention = some rf)
    (found : ofInstruction sp t inst = .ok (set, t')) :
    t' = (t.internAll (inst.implicitReads rf ++ inst.implicitWrites rf)).2 := by
  by_cases isReturn : inst = .ret
  · subst isReturn
    have names : (rf.result :: rf.calleeSaved).filter (!·.isEmpty) = rf.result :: rf.calleeSaved :=
      filter_nonempty accepted (Instruction.implicitReads_allocatable accepted .ret)
    simp only [ofInstruction, ofReturn, convention, names, Except.ok.injEq, Prod.mk.injEq] at found
    simp only [Instruction.implicitReads, Instruction.implicitWrites, List.append_nil]
    exact found.2.symm
  · cases call : inst.arity? with
    | some n =>
      obtain ⟨reads, writes, -⟩ := call_implicitReads rf call
      have argNames : (rf.args.take n.toNatClampNeg).filter (!·.isEmpty) = rf.args.take n.toNatClampNeg :=
        filter_nonempty accepted fun r member => accepted.args r (List.mem_of_mem_take member)
      rw [ofInstruction_call _ _ call] at found
      simp only [ofCall, convention, argNames] at found
      split at found
      · cases found
      · simp only [Except.ok.injEq, Prod.mk.injEq] at found
        rw [reads, writes, VarTable.internAll_append]
        exact found.2.symm
    | none =>
      obtain ⟨reads, writes⟩ := plain_implicit rf call isReturn
      rw [reads, writes]
      cases written : inst.destination? with
      | none =>
        rw [ofInstruction_reading _ _ written call isReturn] at found
        cases found
        rfl
      | some op =>
        rw [ofInstruction_writing _ _ written] at found
        cases defined : defines sp op with
        | error fault =>
          rw [defined] at found
          cases found
        | ok ids =>
          rw [defined] at found
          cases found
          rfl

theorem Describes.extend (described : Describes rf t inst set) (resolvable : inst.Resolvable t)
    (grown : t.Extends t') (sound : t'.Sound) : Describes rf t' inst set := by
  -- The sets keep describing the instruction as the table grows, as all its names are in there.
  have old : ∀ r ∈ inst.implicitReads rf ++ inst.implicitWrites rf, ∀ x < t'.size,
      t'.nameOf x = r → x < t.size := by
    intro r member x known named
    obtain ⟨y, yKnown, same⟩ := VarTable.exists_of_mem_names (described.implied r member)
    have equal : y = x := VarTable.nameOf_inj sound (Nat.lt_of_lt_of_le yKnown grown.size_le) known
      ((grown.nameOf yKnown).trans (same.trans named.symm))
    exact equal ▸ yKnown
  refine ⟨fun x => ?_, fun x => ?_, fun r member => grown.mem_names (described.implied r member)⟩
  · rw [described.used]
    constructor
    · intro used
      have known := used.lt_size resolvable
      rw [Instruction.Uses, grown.nameOf known]
      exact used.imp_right fun implied => ⟨Nat.lt_of_lt_of_le known grown.size_le, implied.2⟩
    · intro either
      rcases either with ⟨member, apart⟩ | ⟨known, named⟩
      · have known := resolvable.operands x (Instruction.reads_subset_operands inst member)
        exact .inl ⟨member, grown.nameOf known ▸ apart⟩
      · have known := old _ (List.mem_append_left _ named) x known rfl
        exact .inr ⟨known, grown.nameOf known ▸ named⟩
  · rw [described.defined]
    constructor
    · intro defined
      have known := defined.lt_size resolvable
      rw [Instruction.Defines, grown.nameOf known]
      exact defined.imp_right fun implied => ⟨Nat.lt_of_lt_of_le known grown.size_le, implied.2⟩
    · intro either
      rcases either with ⟨found, apart⟩ | ⟨known, named⟩
      · have known := resolvable.operands x (Instruction.destination?_mem_operands found)
        exact .inl ⟨found, grown.nameOf known ▸ apart⟩
      · have known := old _ (List.mem_append_right _ named) x known rfl
        exact .inr ⟨known, grown.nameOf known ▸ named⟩

theorem ofBody_describes (accepted : rf.Accepted) (sound : t.Sound)
    (convention : t.convention = some rf) (pointer : t.id? rf.sp = some sp)
    {body : List Instruction} (resolvable : ∀ inst ∈ body, inst.Resolvable t) :
    ∃ sets t', ofBody (some sp) t body = (sets, t', none) ∧ t.Extends t' ∧ t'.Sound ∧
      List.Forall₂ (Describes rf t') body sets := by
  induction body generalizing t with
  | nil => exact ⟨[], t, rfl, .refl t, sound, .nil⟩
  | cons inst rest ih =>
    obtain ⟨set, t₁, found, grown₁, sound₁, described⟩ := ofInstruction_describes accepted sound
      convention pointer (resolvable inst List.mem_cons_self)
    obtain ⟨sets, t₂, more, grown₂, sound₂, all⟩ := ih sound₁ (grown₁.convention.trans convention)
      (grown₁.id? sound sound₁ pointer)
      (fun other member => (resolvable other (List.mem_cons_of_mem _ member)).extend grown₁)
    have first := described.extend ((resolvable inst List.mem_cons_self).extend grown₁) grown₂ sound₂
    exact ⟨set :: sets, t₂, by simp only [ofBody, found, more], grown₁.trans grown₂, sound₂,
      .cons first all⟩

end UseDef

theorem Function.useDefs_describe {f : Function} {rf : RegisterFile} (accepted : rf.Accepted)
    (sound : f.table.Sound) (convention : f.table.convention = some rf)
    (resolvable : ∀ inst ∈ f.body, inst.Resolvable f.table) :
    ∃ sets t, f.useDefs = (sets, t, none) ∧ f.table.Extends t ∧ t.Sound ∧ rf.sp ∈ t.names ∧
      List.Forall₂ (UseDef.Describes rf t) f.body sets := by
  have grown := VarTable.intern_extends f.table rf.sp
  have sound₁ := VarTable.intern_sound sound rf.sp
  have pointer : (f.table.intern rf.sp).2.id? rf.sp = some (f.table.intern rf.sp).1 :=
    (VarTable.id?_eq_some_iff sound₁).mpr
      ⟨VarTable.intern_lt_size f.table rf.sp, VarTable.nameOf_intern f.table rf.sp⟩
  obtain ⟨sets, t, found, more, sound₂, all⟩ := UseDef.ofBody_describes accepted sound₁
    (grown.convention.trans convention) pointer fun inst member =>
      (resolvable inst member).extend grown
  refine ⟨sets, t, ?_, grown.trans more, sound₂, ?_, all⟩
  · simp only [useDefs, UseDef.internStackPointer, convention, accepted.sp_named]
    exact found
  · obtain ⟨known, named⟩ := (VarTable.id?_eq_some_iff sound₂).mp
      (more.id? sound₁ sound₂ pointer)
    exact named ▸ VarTable.nameOf_mem_names known

end RegisterAllocation
