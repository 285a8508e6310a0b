import RegisterAllocation.Proofs.Cores
import RegisterAllocation.Proofs.ExpandedLiveness
import RegisterAllocation.Proofs.Progress

namespace RegisterAllocation

open Spill

def Liveness.registersAround (lv : Liveness) (rf : RegisterFile) (t : VarTable) (i : Nat) : List VarId :=
  (lv.liveIn i ∪ lv.liveOut i).toList.filter fun x => t.nameOf x ∈ rf.registers

theorem Liveness.mem_registersAround {lv : Liveness} {rf : RegisterFile} {t : VarTable} {i : Nat} {x : VarId} :
    x ∈ lv.registersAround rf t i ↔
      (x ∈ lv.liveIn i ∨ x ∈ lv.liveOut i) ∧ t.nameOf x ∈ rf.registers := by
  simp [registersAround, List.mem_filter, Std.ExtTreeSet.mem_union_iff]

namespace Allocation

section Exhausted

variable {rf : RegisterFile} {s₀ : Sheet} {lv₀ lv : Liveness} {sp v x y : VarId} {vs : List VarId}
  {tmp : Nat → VarId → VarId} {b : Built} {i : Nat} {inst : Instruction}
  (accepted : rf.Accepted) (analyzed₀ : s₀.Analyzed rf lv₀)
  (pointer : sp < s₀.function.table.size ∧ s₀.function.table.nameOf sp = rf.sp)
  (ready : Ready rf s₀.function sp vs tmp lv b)
  (unspilled : ∀ x ∈ s₀.function.virtuals, s₀.function.table.nameOf x ∉ s₀.function.spilled)
  (exhausted : ∀ x, ¬Left s₀.function vs x)

include unspilled exhausted in
theorem spilled_of_exhausted (original : x ∈ s₀.function.virtuals) : x ∈ vs := by
  by_contra absent
  exact exhausted x ⟨original, absent, unspilled x original⟩

include accepted analyzed₀ unspilled exhausted in
theorem live_register (live : x ∈ lv₀.liveIn i ∨ x ∈ lv₀.liveOut i) (stays : x ∉ vs) :
    x ∈ lv₀.registersAround rf s₀.function.table i := by
  have referenced : x ∈ s₀.referenced :=
    live.elim (analyzed₀.live_referenced.1 i x) (analyzed₀.live_referenced.2 i x)
  have known := analyzed₀.referenced_lt_size referenced
  have register : s₀.function.table.isRegister x = true := by
    by_contra virtual
    rw [Bool.not_eq_true] at virtual
    have mentioned := (analyzed₀.referenced_virtual accepted virtual).mp referenced
    exact stays (spilled_of_exhausted unspilled exhausted (Function.mem_virtuals.mpr ⟨mentioned, virtual⟩))
  rw [VarTable.isRegister_eq analyzed₀.valid.sound analyzed₀.valid.convention known,
    RegisterFile.isRegister_iff] at register
  exact Liveness.mem_registersAround.mpr
    ⟨live, register.resolve_left (analyzed₀.referenced_ne_sp accepted referenced)⟩

include accepted analyzed₀ pointer ready unspilled exhausted

theorem temp_of_virtualNode (node : x ∈ Coloring.virtualNodes b.graph) :
    ∃ i, ∃ v ∈ vs, Touches s₀.function.body v i ∧ x = tmp i v := by
  obtain ⟨present, uncolored⟩ := Coloring.mem_virtualNodes.mp node
  have virtual := (ready.interferes.color?_eq_none_iff accepted ready.analyzed present).mp uncolored
  refine (virtual_node_cases accepted analyzed₀.valid pointer ready present virtual).resolve_left fun original =>
    original.2 ?_
  exact spilled_of_exhausted unspilled exhausted original.1

omit accepted pointer unspilled exhausted in
theorem temp_group {j : Nat} (home : v ∈ vs) (touched : Touches s₀.function.body v i)
    (here : s₀.function.body[j]? = some inst)
    (member : tmp i v ∈ s₀.referenced ∨ ∃ w ∈ vs, .var w ∈ inst.operands ∧ tmp i v = tmp j w) : j = i := by
  have expanded := ready.underway.expanded
  rcases member with referenced | ⟨w, listed, operand, same⟩
  · have fresh := (expanded.fresh i v home touched).1
    exact absurd (analyzed₀.referenced_lt_size referenced) (Nat.not_lt.mpr fresh)
  · exact (expanded.injective i j v home w listed touched ⟨inst, here, operand⟩ same).1.symm

omit accepted pointer ready unspilled exhausted in
theorem live_or_temp (member : ((x ∈ lv₀.liveIn i ∨ x ∈ lv₀.liveOut i) ∧ x ∉ vs) ∨
    ∃ v ∈ vs, .var v ∈ inst.operands ∧ x = tmp i v) :
    x ∈ s₀.referenced ∨ ∃ v ∈ vs, .var v ∈ inst.operands ∧ x = tmp i v :=
  member.imp_left fun live =>
    live.1.elim (analyzed₀.live_referenced.1 i x) (analyzed₀.live_referenced.2 i x)

theorem live_after_temp (here : s₀.function.body[i]? = some inst) (home : v ∈ vs)
    (operand : .var v ∈ inst.operands) {p : Nat} {note : Note}
    (noted : b.state.sheet.notes[p]? = some note) (defined : tmp i v ∈ note.defined)
    (out : y ∈ lv.liveOut p) :
    y ∈ lv₀.registersAround rf s₀.function.table i ∨ ∃ w ∈ vs, .var w ∈ inst.operands ∧ y = tmp i w := by
  have expanded := ready.underway.expanded
  obtain ⟨other, found, described⟩ := ready.analyzed.inst_of_note noted
  obtain ⟨j, o, inst', there, inGroup, rfl⟩ := expanded.exists_place found
  have touches := Expanded.defines_cases accepted analyzed₀ expanded there inGroup
    ((described.defined _).mp defined)
  have inOwn : j = i := temp_group analyzed₀ ready home ⟨inst, here, operand⟩ there <|
    touches.symm.imp_left fun ⟨_, plain, _⟩ =>
      analyzed₀.referenced_iff.mpr ⟨inst', List.mem_of_getElem? there, .inr plain⟩
  subst inOwn
  cases Option.some.inj (here.symm.trans there)
  have after := ((Expanded.live_bound accepted analyzed₀ expanded pointer ready.analyzed).2 _ y out).at here
    (List.getElem?_eq_some_iff.mp inGroup).1
  exact (Expanded.after_cases after).imp_left fun live =>
    live_register accepted analyzed₀ unspilled exhausted live.1 live.2

omit unspilled exhausted in
theorem defined_under_temp (here : s₀.function.body[i]? = some inst) (home : v ∈ vs)
    (operand : .var v ∈ inst.operands) {p : Nat} {note : Note}
    (noted : b.state.sheet.notes[p]? = some note) (out : tmp i v ∈ lv.liveOut p)
    (defined : y ∈ note.defined) : ∃ w ∈ vs, .var w ∈ inst.operands ∧ y = tmp i w := by
  have expanded := ready.underway.expanded
  obtain ⟨other, found, described⟩ := ready.analyzed.inst_of_note noted
  obtain ⟨j, o, inst', there, inGroup, rfl⟩ := expanded.exists_place found
  have after := ((Expanded.live_bound accepted analyzed₀ expanded pointer ready.analyzed).2 _ _ out).at there
    (List.getElem?_eq_some_iff.mp inGroup).1
  have inOwn : j = i := temp_group analyzed₀ ready home ⟨inst, here, operand⟩ there
    (live_or_temp analyzed₀ (Expanded.after_cases after))
  subst inOwn
  cases Option.some.inj (here.symm.trans there)
  refine (Expanded.defines_cases accepted analyzed₀ expanded here inGroup
    ((described.defined _).mp defined)).resolve_right ?_
  intro h
  obtain ⟨rfl, plain, stays⟩ := h
  -- A temporary that outlives the instruction itself is the one it writes.
  rw [Expanded.After, if_pos (Nat.le_refl _), Expanded.Before, if_neg (Nat.not_succ_le_self _)] at after
  rcases after with ⟨live, -⟩ | ⟨w, listed, written, -⟩
  · have fresh := (expanded.fresh j v home ⟨inst, here, operand⟩).1
    exact absurd (analyzed₀.referenced_lt_size (analyzed₀.live_referenced.2 j _ live)) (Nat.not_lt.mpr fresh)
  · rcases plain with ⟨destination, -⟩ | ⟨-, implied⟩
    · rw [written] at destination
      cases destination
      exact stays listed
    · simp [Instruction.implicitWrites_eq_nil written] at implied

theorem neighbor_cases (here : s₀.function.body[i]? = some inst) (home : v ∈ vs)
    (operand : .var v ∈ inst.operands) (neighbor : y ∈ b.graph.neighborSet (tmp i v)) :
    y ∈ lv₀.registersAround rf s₀.function.table i ∨
      ∃ w ∈ vs, .var w ∈ inst.operands ∧ y = tmp i w := by
  have expanded := ready.underway.expanded
  have touched : Touches s₀.function.body v i := ⟨inst, here, operand⟩
  obtain ⟨-, ⟨allocatable, -⟩ | ⟨p, note, noted, ⟨defined, out⟩ | ⟨defined, out⟩⟩⟩ :=
    (ready.interferes.edge _ y).mp neighbor
  · have virtual := expanded.temp_virtual accepted analyzed₀.valid pointer home touched
    rw [VarTable.isRegister_eq expanded.sound (expanded.grown.convention.trans analyzed₀.valid.convention)
      allocatable.1, RegisterFile.isRegister_of_mem allocatable.2] at virtual
    cases virtual
  · exact live_after_temp accepted analyzed₀ pointer ready unspilled exhausted here home operand noted
      defined out
  · exact .inr (defined_under_temp accepted analyzed₀ pointer ready here home operand noted out defined)

-- The neighbors of a temporary are registers around its instruction and the other temporaries there.
theorem temp_degree (here : s₀.function.body[i]? = some inst) (home : v ∈ vs)
    (operand : .var v ∈ inst.operands) :
    b.graph.degree (tmp i v) < (lv₀.registersAround rf s₀.function.table i).length +
      (s₀.function.table.virtualsIn inst.operands).length := by
  let others := ((s₀.function.table.virtualsIn inst.operands).map (tmp i)).erase (tmp i v)
  have virtual : ∀ w ∈ vs, .var w ∈ inst.operands → w ∈ s₀.function.table.virtualsIn inst.operands :=
    fun w listed touched => VarTable.mem_virtualsIn.mpr
      ⟨touched, (ready.underway.expanded.originals w listed).2⟩
  have bound : (b.graph.neighborSet (tmp i v)).toList ⊆
      lv₀.registersAround rf s₀.function.table i ++ others := by
    intro y member
    have neighbor := Std.ExtTreeSet.mem_toList.mp member
    have apart := ((ready.interferes.edge _ y).mp neighbor).1
    rcases neighbor_cases accepted analyzed₀ pointer ready unspilled exhausted here home operand neighbor with
      register | ⟨w, listed, touched, rfl⟩
    · exact List.mem_append_left _ register
    · refine List.mem_append_right _ ((List.mem_erase_of_ne apart.symm).mpr ?_)
      exact List.mem_map_of_mem (virtual w listed touched)
  have count := (List.subperm_of_subset (VarSet.nodup_toList _) bound).length_le
  have own : tmp i v ∈ (s₀.function.table.virtualsIn inst.operands).map (tmp i) :=
    List.mem_map_of_mem (virtual v home operand)
  have some_virtual := List.length_pos_of_mem own
  rw [List.length_append, List.length_erase_of_mem own, List.length_map] at count
  rw [List.length_map] at some_virtual
  rw [Std.ExtTreeSet.length_toList] at count
  rw [Graph.degree]
  omega

theorem colors_of_pressure (pressure : ∀ i inst, s₀.function.body[i]? = some inst →
      s₀.function.table.virtualsIn inst.operands ≠ [] →
      (lv₀.registersAround rf s₀.function.table i).length +
        (s₀.function.table.virtualsIn inst.operands).length ≤ rf.k) :
    ∃ attempt, Coloring.color b.graph b.state.sheet.function rf b.state.temps = .ok attempt ∧
      attempt.success = true := by
  refine Coloring.color_low accepted ready.analyzed ready.interferes b.state.temps fun x node => ?_
  obtain ⟨i, v, home, ⟨inst, here, operand⟩, rfl⟩ :=
    temp_of_virtualNode accepted analyzed₀ pointer ready unspilled exhausted node
  refine Nat.lt_of_lt_of_le
    (temp_degree accepted analyzed₀ pointer ready unspilled exhausted here home operand)
    (pressure i inst here ?_)
  exact List.ne_nil_of_mem (VarTable.mem_virtualsIn.mpr
    ⟨operand, (ready.underway.expanded.originals v home).2⟩)

end Exhausted

theorem Opened.registersAround {rf : RegisterFile} {s : State} {sheet : Sheet} {lv : Liveness} {b : Built}
    (opened : Opened rf s sheet lv b) (i : Nat) :
    lv.registersAround rf b.state.sheet.function.table i = lv.registersAround rf sheet.function.table i := by
  rw [opened.built, Graph.build_snd]
  refine List.filter_congr fun x member => ?_
  rw [Std.ExtTreeSet.mem_toList, Std.ExtTreeSet.mem_union_iff] at member
  have known := opened.analyzed.referenced_lt_size
    (member.elim (opened.analyzed.live_referenced.1 i x) (opened.analyzed.live_referenced.2 i x))
  rw [Sheet.withTable, (VarTable.internAll_extends _ _).nameOf known]

-- A function finds its registers if no instruction has too many registers and variables around it,
-- whatever is tried and spilled on the way.
theorem allocates_of_pressure {cfg : Config} {rf : RegisterFile} {f : Function}
    (configured : RegisterFile.ofConfig cfg = .ok rf) (sound : f.table.Sound)
    (convention : f.convention = some rf) (clean : f.problems = [])
    (unspilled : ∀ x ∈ f.virtuals, f.table.nameOf x ∉ f.spilled) :
    ∃ s lv, (Sheet.ofFunction f).analyze = (s, .ok lv) ∧
      ((∀ i inst, f.body[i]? = some inst → f.table.virtualsIn inst.operands ≠ [] →
          (lv.registersAround rf s.function.table i).length +
            (f.table.virtualsIn inst.operands).length ≤ rf.k) →
        ∃ g, (f.allocate rf).result = .ok g) := by
  have accepted := RegisterFile.accepted_of_ofConfig configured
  have valid := Function.valid_of_problems sound convention clean
  obtain ⟨s, lv, f', sp, b, begun⟩ := start_begun accepted valid
  refine ⟨s, lv, begun.opened.analysis, fun pressure => ?_⟩
  obtain ⟨_, _, vs, tmp, _, lv', b', attempt, -, -, -, last⟩ := allocate_last accepted valid begun
  rcases last.outcome with ⟨-, s', -, -, done⟩ | ⟨failure, -, -, exhausted, -, -⟩
  · exact ⟨_, congrArg Outcome.result done⟩
  · obtain rfl := begun.function.symm
    have body : b.state.sheet.function.body = f.body := by rw [begun.same]
    have spilled : b.state.sheet.function.spilled = f.spilled := by rw [begun.same]
    have known : ∀ inst ∈ f.body, ∀ x, .var x ∈ inst.operands → x < f.table.size := fun inst member =>
      (valid.resolvable inst member).operands
    have unspilled' : ∀ x ∈ b.state.sheet.function.virtuals,
        b.state.sheet.function.table.nameOf x ∉ b.state.sheet.function.spilled := by
      intro x member
      rw [begun.sameVirtuals] at member
      rw [spilled, begun.grown.nameOf (valid.mentions_lt_size (Function.mem_virtuals.mp member).1)]
      exact unspilled x member
    obtain ⟨attempt', colored, success⟩ := colors_of_pressure accepted begun.opened.analyzed_built
      begun.pointer last.ready unspilled' exhausted fun i inst here some_virtual => by
        rw [body] at here
        rw [begun.grown.virtualsIn (known inst (List.mem_of_getElem? here))] at some_virtual ⊢
        rw [begun.opened.registersAround]
        exact pressure i inst here some_virtual
    rw [last.colored] at colored
    cases colored
    rw [failure] at success
    cases success

theorem allocates_of_pressure_acrossCall :
    (acrossCall.allocate (.draft threeRegisters)).stats.spills = 1 ∧
      ∃ g, (acrossCall.allocate (.draft threeRegisters)).result = .ok g := by
  refine ⟨acrossCall_spills, ?_⟩
  obtain ⟨s, lv, analysis, allocates⟩ := allocates_of_pressure threeRegisters_configured
    acrossCall_sound rfl acrossCall_problems (by simp [acrossCall])
  have around : (acrossCall.body.zipIdx.all fun here =>
      (Sheet.ofFunction acrossCall).analyze.2.toOption.any fun lv =>
        (lv.registersAround (.draft threeRegisters) (Sheet.ofFunction acrossCall).analyze.1.function.table
            here.2).length + (acrossCall.table.virtualsIn here.1.operands).length ≤
          RegisterFile.k (.draft threeRegisters)) = true := by decide +kernel
  refine allocates fun i inst here _ => ?_
  have member := List.mk_mem_zipIdx_iff_getElem?.mpr here
  have low := List.all_eq_true.mp around _ member
  simpa [analysis, Except.toOption] using low

end Allocation

end RegisterAllocation
