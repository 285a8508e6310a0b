import RegisterAllocation.Proofs.ExpandedFlow

namespace RegisterAllocation

open Spill

namespace Expanded

variable {rf : RegisterFile} {f : Function} {sp v x : VarId} {vs : List VarId}
  {tmp : Nat → VarId → VarId} {i o p : Nat} {inst other : Instruction} {lv₀ lv : Liveness}

-- What may be live within the group of an instruction before the element at a place: what is live
-- before the instruction with the temporaries loaded so far, or what is live after it with the one
-- to be stored.
def Before (lv₀ : Liveness) (f : Function) (vs : List VarId) (tmp : Nat → VarId → VarId) (i : Nat)
    (inst : Instruction) (o : Nat) (x : VarId) : Prop :=
  if o ≤ (readHomes (f.homes vs) inst).length then
    (x ∈ lv₀.liveIn i ∧ x ∉ vs) ∨ ∃ home ∈ (readHomes (f.homes vs) inst).take o, x = tmp i home.1
  else
    (x ∈ lv₀.liveOut i ∧ x ∉ vs) ∨ ∃ v ∈ vs, inst.destination? = some (.var v) ∧ x = tmp i v

def After (lv₀ : Liveness) (f : Function) (vs : List VarId) (tmp : Nat → VarId → VarId) (i : Nat)
    (inst : Instruction) (o : Nat) (x : VarId) : Prop :=
  if o ≤ (readHomes (f.homes vs) inst).length then Before lv₀ f vs tmp i inst (o + 1) x
  else x ∈ lv₀.liveOut i ∧ x ∉ vs

theorem before_cases (before : Before lv₀ f vs tmp i inst o x) :
    ((x ∈ lv₀.liveIn i ∨ x ∈ lv₀.liveOut i) ∧ x ∉ vs) ∨ ∃ v ∈ vs, .var v ∈ inst.operands ∧ x = tmp i v := by
  unfold Before at before
  split at before
  · rcases before with ⟨live, stays⟩ | ⟨⟨v, offset⟩, member, same⟩
    · exact .inl ⟨.inl live, stays⟩
    · obtain ⟨known, reading⟩ := mem_readHomes.mp (List.mem_of_mem_take member)
      have home : v ∈ vs := Function.mem_of_home known
      exact .inr ⟨v, home, Instruction.reads_subset_operands inst reading, same⟩
  · rcases before with ⟨live, stays⟩ | ⟨v, home, written, same⟩
    · exact .inl ⟨.inr live, stays⟩
    · exact .inr ⟨v, home, Instruction.destination?_mem_operands written, same⟩

theorem after_cases (after : After lv₀ f vs tmp i inst o x) :
    ((x ∈ lv₀.liveIn i ∨ x ∈ lv₀.liveOut i) ∧ x ∉ vs) ∨ ∃ v ∈ vs, .var v ∈ inst.operands ∧ x = tmp i v := by
  unfold After at after
  split at after
  · exact before_cases after
  · exact .inl ⟨.inr after.1, after.2⟩

def AtPlace (f : Function) (sp : VarId) (vs : List VarId) (tmp : Nat → VarId → VarId)
    (sets : Nat → Instruction → Nat → VarId → Prop) (p : Nat) (x : VarId) : Prop :=
  ∃ i inst o, f.body[i]? = some inst ∧ o < (group sp (f.homes vs) (tmp i) inst).length ∧
    p = place f sp vs tmp i + o ∧ sets i inst o x

theorem AtPlace.at {sets : Nat → Instruction → Nat → VarId → Prop} (here : f.body[i]? = some inst)
    (inside : o < (group sp (f.homes vs) (tmp i) inst).length)
    (member : AtPlace f sp vs tmp sets (place f sp vs tmp i + o) x) : sets i inst o x := by
  obtain ⟨j, inst', o', there, within, same, holds⟩ := member
  obtain ⟨rfl, rfl⟩ := place_unique here inside there within same
  cases Option.some.inj (here.symm.trans there)
  exact holds

section Sets

variable {s₀ s : Sheet} (accepted : rf.Accepted) (analyzed₀ : s₀.Analyzed rf lv₀)
  (expanded : Expanded s₀.function sp vs tmp s.function)

include analyzed₀ expanded

theorem implicit_known {names : List String} (here : s₀.function.body[i]? = some inst)
    (implied : ∀ r ∈ names, r ∈ inst.implicitReads rf ++ inst.implicitWrites rf)
    (known : x < s.function.table.size) (named : s.function.table.nameOf x ∈ names) :
    x < s₀.function.table.size ∧ s₀.function.table.nameOf x ∈ names := by
  obtain ⟨note, -, described⟩ := analyzed₀.note_of_inst here
  obtain ⟨y, yKnown, same⟩ := VarTable.exists_of_mem_names (described.implied _ (implied _ named))
  have equal : y = x := VarTable.nameOf_inj expanded.sound
    (Nat.lt_of_lt_of_le yKnown expanded.grown.size_le) known ((expanded.grown.nameOf yKnown).trans same)
  subst equal
  exact ⟨yKnown, same ▸ named⟩

theorem spilled_name (listed : v ∈ vs) :
    s₀.function.table.nameOf v ≠ rf.sp ∧ s₀.function.table.nameOf v ∉ rf.registers := by
  obtain ⟨known, virtual⟩ := expanded.originals v listed
  rw [VarTable.isRegister_eq analyzed₀.valid.sound analyzed₀.valid.convention known, Bool.eq_false_iff,
    ne_eq, RegisterFile.isRegister_iff, not_or] at virtual
  exact virtual

include accepted

theorem uses_main (here : s₀.function.body[i]? = some inst)
    (used : (inst.rename (moved (s₀.function.homes vs) (tmp i))).Uses rf s.function.table x) :
    (inst.Uses rf s₀.function.table x ∧ x ∉ vs) ∨
      ∃ home ∈ readHomes (s₀.function.homes vs) inst, x = tmp i home.1 := by
  rcases used with ⟨reading, apart⟩ | ⟨known, named⟩
  · rw [Instruction.reads_rename, Instruction.var_mem_map_rename] at reading
    obtain ⟨y, reading, rfl⟩ := reading
    have known := (analyzed₀.valid.resolvable inst (List.mem_of_getElem? here)).operands y
      (Instruction.reads_subset_operands inst reading)
    unfold moved at apart ⊢
    split
    · rename_i home
      obtain ⟨offset, found⟩ := Option.isSome_iff_exists.mp home
      exact .inr ⟨(y, offset), mem_readHomes.mpr ⟨mem_of_lookup found, reading⟩, rfl⟩
    · rename_i home
      rw [if_neg home, expanded.grown.nameOf known] at apart
      exact .inl ⟨.inl ⟨reading, apart⟩, mt Function.lookup_homes.mpr home⟩
  · rw [Instruction.implicitReads_rename] at named
    obtain ⟨known, named⟩ := implicit_known analyzed₀ expanded here
      (fun r member => List.mem_append_left _ member) known named
    exact .inl ⟨.inr ⟨known, named⟩, fun listed => (spilled_name analyzed₀ expanded listed).2
        (Instruction.implicitReads_allocatable accepted inst _ named)⟩

-- Within a group only the instruction itself writes anything but temporaries.
theorem defines_cases (here : s₀.function.body[i]? = some inst)
    (found : (group sp (s₀.function.homes vs) (tmp i) inst)[o]? = some other)
    (defined : other.Defines rf s.function.table x) :
    (∃ v ∈ vs, .var v ∈ inst.operands ∧ x = tmp i v) ∨
      (o = (readHomes (s₀.function.homes vs) inst).length ∧ inst.Defines rf s₀.function.table x ∧ x ∉ vs) := by
  rcases group_getElem? found with ⟨v, offset, load, rfl⟩ | ⟨rfl, rfl⟩ | ⟨-, v, offset, -, -, rfl⟩
  · obtain ⟨known, reading⟩ := mem_readHomes.mp (List.mem_of_getElem? load)
    have home : v ∈ vs := Function.mem_of_home known
    rcases defined with ⟨written, -⟩ | ⟨-, none⟩
    · cases written
      exact .inl ⟨v, home, Instruction.reads_subset_operands inst reading, rfl⟩
    · simp [Instruction.implicitWrites] at none
  · rcases defined with ⟨renamed, apart⟩ | ⟨known, named⟩
    · obtain ⟨y, written, rfl⟩ := Instruction.destination?_rename_var.mp renamed
      have operand := Instruction.destination?_mem_operands written
      have known := (analyzed₀.valid.resolvable inst (List.mem_of_getElem? here)).operands y operand
      unfold moved at apart ⊢
      split
      · rename_i home
        exact .inl ⟨y, Function.lookup_homes.mp home, operand, rfl⟩
      · rename_i home
        rw [if_neg home, expanded.grown.nameOf known] at apart
        exact .inr ⟨rfl, .inl ⟨written, apart⟩, mt Function.lookup_homes.mpr home⟩
    · rw [Instruction.implicitWrites_rename] at named
      obtain ⟨known, named⟩ := implicit_known analyzed₀ expanded here
        (fun r member => List.mem_append_right _ member) known named
      exact .inr ⟨rfl, .inr ⟨known, named⟩, fun listed => (spilled_name analyzed₀ expanded listed).2
        (Instruction.implicitWrites_allocatable accepted inst _ named)⟩
  · rcases defined with ⟨written, -⟩ | ⟨-, none⟩
    · cases written
    · simp [Instruction.implicitWrites] at none

omit accepted in
theorem defines_main (here : s₀.function.body[i]? = some inst) (defined : inst.Defines rf s₀.function.table x)
    (stays : x ∉ vs) :
    (inst.rename (moved (s₀.function.homes vs) (tmp i))).Defines rf s.function.table x := by
  rcases defined with ⟨written, apart⟩ | ⟨known, named⟩
  · have known := (analyzed₀.valid.resolvable inst (List.mem_of_getElem? here)).operands x
      (Instruction.destination?_mem_operands written)
    refine .inl ⟨Instruction.destination?_rename_var.mpr ⟨x, written, ?_⟩, ?_⟩
    · exact Function.moved_of_not_mem stays (tmp i)
    · rwa [expanded.grown.nameOf known]
  · refine .inr ⟨Nat.lt_of_lt_of_le known expanded.grown.size_le, ?_⟩
    rwa [expanded.grown.nameOf known, Instruction.implicitWrites_rename]

variable (pointer : sp < s₀.function.table.size ∧ s₀.function.table.nameOf sp = rf.sp)

include pointer

theorem temp_ne_sp (home : v ∈ vs) (touched : Touches s₀.function.body v i) :
    s.function.table.nameOf (tmp i v) ≠ rf.sp := by
  intro same
  have virtual := expanded.temp_virtual accepted analyzed₀.valid pointer home touched
  rw [VarTable.isRegister_eq expanded.sound (expanded.grown.convention.trans analyzed₀.valid.convention)
    (expanded.fresh i v home touched).2, same] at virtual
  simp [RegisterFile.isRegister] at virtual

theorem defines_temp (here : s₀.function.body[i]? = some inst) (home : v ∈ vs)
    (written : inst.destination? = some (.var v)) :
    (inst.rename (moved (s₀.function.homes vs) (tmp i))).Defines rf s.function.table (tmp i v) := by
  have touched : Touches s₀.function.body v i :=
    ⟨inst, here, Instruction.destination?_mem_operands written⟩
  refine .inl ⟨Instruction.destination?_rename_var.mpr ⟨v, written, ?_⟩, ?_⟩
  · exact Function.moved_of_mem home (tmp i)
  · exact temp_ne_sp accepted analyzed₀ expanded pointer home touched

theorem before_of_uses (here : s₀.function.body[i]? = some inst)
    (found : (group sp (s₀.function.homes vs) (tmp i) inst)[o]? = some other)
    (used : other.Uses rf s.function.table x) : Before lv₀ s₀.function vs tmp i inst o x := by
  have pointerName : s.function.table.nameOf sp = rf.sp := by
    rw [expanded.grown.nameOf pointer.1, pointer.2]
  rcases group_getElem? found with ⟨v, offset, load, rfl⟩ | ⟨rfl, rfl⟩ | ⟨rfl, v, offset, written, home, rfl⟩
  · rcases used with ⟨reading, apart⟩ | ⟨-, none⟩
    · simp only [Instruction.reads, List.mem_singleton, Operand.var.injEq] at reading
      exact absurd (reading ▸ pointerName) apart
    · simp [Instruction.implicitReads] at none
  · rw [Before, if_pos (Nat.le_refl _), List.take_length]
    rcases uses_main accepted analyzed₀ expanded here used with ⟨original, stays⟩ | temporary
    · exact .inl ⟨analyzed₀.live_of_uses here original, stays⟩
    · exact .inr temporary
  · rw [Before, if_neg (by omega)]
    rcases used with ⟨reading, apart⟩ | ⟨-, none⟩
    · simp only [Instruction.reads, List.mem_cons, Operand.var.injEq, List.not_mem_nil, or_false] at reading
      rcases reading with rfl | rfl
      · exact .inr ⟨v, Function.lookup_homes.mp (by rw [home]; rfl), written, rfl⟩
      · exact absurd pointerName apart
    · simp [Instruction.implicitReads] at none

theorem before_of_after (here : s₀.function.body[i]? = some inst)
    (found : (group sp (s₀.function.homes vs) (tmp i) inst)[o]? = some other)
    (after : After lv₀ s₀.function vs tmp i inst o x) (kept : ¬other.Defines rf s.function.table x) :
    Before lv₀ s₀.function vs tmp i inst o x := by
  rcases group_getElem? found with ⟨v, offset, load, rfl⟩ | ⟨rfl, rfl⟩ | ⟨rfl, v, offset, written, home, rfl⟩
  · have early := (List.getElem?_eq_some_iff.mp load).1
    rw [After, if_pos (Nat.le_of_lt early), Before, if_pos (Nat.succ_le_of_lt early)] at after
    rw [Before, if_pos (Nat.le_of_lt early)]
    refine after.imp_right ?_
    intro h
    obtain ⟨home, member, rfl⟩ := h
    rw [List.take_add_one, load, Option.toList_some, List.mem_append, List.mem_singleton] at member
    rcases member with member | rfl
    · exact ⟨home, member, rfl⟩
    · -- The temporary that is loaded here was not live before.
      obtain ⟨known, reading⟩ := mem_readHomes.mp (List.mem_of_getElem? load)
      have listed : v ∈ vs := Function.mem_of_home known
      have touched : Touches s₀.function.body v i :=
        ⟨inst, here, Instruction.reads_subset_operands inst reading⟩
      exact absurd (.inl ⟨rfl, temp_ne_sp accepted analyzed₀ expanded pointer listed touched⟩) kept
  · rw [After, if_pos (Nat.le_refl _), Before, if_neg (by omega)] at after
    rw [Before, if_pos (Nat.le_refl _)]
    rcases after with ⟨out, stays⟩ | ⟨v, home, written, rfl⟩
    · refine .inl ⟨analyzed₀.live_of_kept here out fun defined => ?_, stays⟩
      exact kept (defines_main analyzed₀ expanded here defined stays)
    · exact absurd (defines_temp accepted analyzed₀ expanded pointer here home written) kept
  · rw [After, if_neg (by omega)] at after
    rw [Before, if_neg (by omega)]
    exact .inl after

omit accepted pointer in
theorem after_of_before {q : Nat} (here : s₀.function.body[i]? = some inst)
    (found : (group sp (s₀.function.homes vs) (tmp i) inst)[o]? = some other)
    (edge : Flow.Edge s.function.body (place s₀.function sp vs tmp i + o) q)
    (before : AtPlace s₀.function sp vs tmp (Before lv₀ s₀.function vs tmp) q x) :
    After lv₀ s₀.function vs tmp i inst o x := by
  rcases expanded.edge_cases analyzed₀.valid.labels here found edge with
    ⟨rfl, more⟩ | ⟨last, j, next, rfl⟩
  · have inside := before.at here more
    have short : o ≤ (readHomes (s₀.function.homes vs) inst).length := by
      rw [group_length] at more
      rcases stores_cases sp (s₀.function.homes vs) (tmp i) inst with ⟨_, _, -, -, single⟩ | ⟨-, none⟩
      · rw [single, List.length_singleton] at more
        omega
      · rw [none, List.length_nil] at more
        omega
    rwa [After, if_pos short]
  · obtain ⟨inst', there⟩ : ∃ inst', s₀.function.body[j]? = some inst' :=
      ⟨_, List.getElem?_eq_getElem next.lt_length⟩
    have first : Before lv₀ s₀.function vs tmp j inst' 0 x := by
      refine AtPlace.at there ?_ (by simpa using before)
      rw [group_length]
      omega
    rw [Before, if_pos (Nat.zero_le _), List.take_zero] at first
    obtain ⟨live, stays⟩ := first.resolve_right (by simp)
    have out : x ∈ lv₀.liveOut i := analyzed₀.live_of_edge next live
    rw [After]
    split
    · rw [Before, if_neg]
      · exact .inl ⟨out, stays⟩
      · rw [group_length] at last
        omega
    · exact ⟨out, stays⟩

variable (analyzed : s.Analyzed rf lv)

include analyzed

theorem live_bound :
    (∀ p, ∀ x ∈ lv.liveIn p, AtPlace s₀.function sp vs tmp (Before lv₀ s₀.function vs tmp) p x) ∧
      ∀ p, ∀ x ∈ lv.liveOut p, AtPlace s₀.function sp vs tmp (After lv₀ s₀.function vs tmp) p x := by
  refine analyzed.live.least _ _ ⟨fun p note noted x used => ?_, fun p note noted x after kept => ?_,
    fun p note noted q next x before => ?_⟩
  all_goals
    obtain ⟨other, found, described⟩ := analyzed.inst_of_note noted
    obtain ⟨i, o, inst, here, inGroup, rfl⟩ := expanded.exists_place found
    have inside := (List.getElem?_eq_some_iff.mp inGroup).1
    refine ⟨i, inst, o, here, inside, rfl, ?_⟩
  · exact before_of_uses accepted analyzed₀ expanded pointer here inGroup ((described.used x).mp used)
  · exact before_of_after accepted analyzed₀ expanded pointer here inGroup (after.at here inside)
      fun defined => kept ((described.defined x).mpr defined)
  · exact after_of_before analyzed₀ expanded here inGroup
      ((analyzed.links _ note noted q).mp next) before

theorem liveIn_zero (live : x ∈ lv.liveIn 0) : x ∈ lv₀.liveIn 0 ∧ x ∉ vs := by
  have bound := (live_bound accepted analyzed₀ expanded pointer analyzed).1 0 x live
  obtain ⟨first, present⟩ : ∃ inst, s₀.function.body[0]? = some inst := by
    obtain ⟨i, inst, o, here, -⟩ := bound
    have inside := (List.getElem?_eq_some_iff.mp here).1
    exact ⟨_, List.getElem?_eq_getElem (Nat.zero_lt_of_lt inside)⟩
  have start : Before lv₀ s₀.function vs tmp 0 first 0 x := by
    refine AtPlace.at present ?_ (by simpa [place_zero] using bound)
    rw [group_length]
    omega
  rw [Before, if_pos (Nat.zero_le _), List.take_zero] at start
  exact start.resolve_right (by simp)

end Sets

end Expanded

end RegisterAllocation
