import RegisterAllocation.Analysis.Sheet
import RegisterAllocation.Proofs.ControlFlow
import RegisterAllocation.Proofs.LivenessSolution
import RegisterAllocation.Proofs.ReadsAndWrites

namespace RegisterAllocation

namespace UseDef

variable {t t' : VarTable} {inst : Instruction} {set : UseDef} {sp : Option VarId}

-- Where the members of the two sets of an instruction come from, valid or not: they are operands, or
-- registers that the calling convention implies.
structure Sourced (sp : Option VarId) (t : VarTable) (inst : Instruction) (set : UseDef) : Prop where
  used : ∀ x ∈ set.used, sp ≠ some x ∧ (.var x ∈ inst.operands ∨ x < t.size)
  defined : ∀ x ∈ set.defined, (sp ≠ some x ∧ .var x ∈ inst.operands) ∨
    (x < t.size ∧ ∃ rf, t.convention = some rf ∧ t.nameOf x ∈ rf.callerSaved)

theorem Sourced.extend (sourced : Sourced sp t inst set) (grown : t.Extends t') :
    Sourced sp t' inst set := by
  refine ⟨fun x used => ?_, fun x defined => ?_⟩
  · obtain ⟨apart, source⟩ := sourced.used x used
    exact ⟨apart, source.imp_right fun known => Nat.lt_of_lt_of_le known grown.size_le⟩
  · refine (sourced.defined x defined).imp_right ?_
    intro h
    obtain ⟨known, rf, convention, named⟩ := h
    exact ⟨Nat.lt_of_lt_of_le known grown.size_le, rf, grown.convention.trans convention,
      (grown.nameOf known).symm ▸ named⟩

theorem uses_sourced (sp : Option VarId) (inst : Instruction) {x : VarId} (used : x ∈ uses sp inst.reads) :
    sp ≠ some x ∧ .var x ∈ inst.operands := by
  obtain ⟨member, apart⟩ := (mem_uses sp _).mp used
  exact ⟨apart, Instruction.reads_subset_operands inst member⟩

theorem ofCall_sourced {arity : Word} (found : ofCall sp t (uses sp inst.reads) arity = .ok (set, t')) :
    t.Extends t' ∧ (t.Sound → t'.Sound) ∧ Sourced sp t' inst set := by
  unfold ofCall at found
  split at found
  · cases found
    refine ⟨.refl t, id, fun x used => ?_, by simp⟩
    obtain ⟨apart, operand⟩ := uses_sourced sp inst used
    exact ⟨apart, .inl operand⟩
  · rename_i rf convention
    split at found
    · cases found
    · cases found
      let names := (rf.args.take arity.toNatClampNeg).filter (!·.isEmpty)
      let t₁ := (t.internAll names).2
      have grown₁ : t.Extends t₁ := VarTable.internAll_extends t names
      have grown₂ : t₁.Extends (t₁.internAll rf.callerSaved).2 := VarTable.internAll_extends t₁ _
      refine ⟨grown₁.trans grown₂,
        fun sound => VarTable.internAll_sound (VarTable.internAll_sound sound names) _,
        fun x used => ?_, fun x defined => .inr ?_⟩
      · rcases Std.ExtTreeSet.mem_union_iff.mp used with operand | argument
        · obtain ⟨apart, operand⟩ := uses_sourced sp inst operand
          exact ⟨apart, .inl operand⟩
        · obtain ⟨member, apart⟩ := (mem_ids sp _).mp argument
          have known := VarTable.internAll_lt_size t names x member
          exact ⟨apart, .inr (Nat.lt_of_lt_of_le known grown₂.size_le)⟩
      · have member : x ∈ (t₁.internAll rf.callerSaved).1 := by simpa using defined
        have named := List.mem_map_of_mem (f := (t₁.internAll rf.callerSaved).2.nameOf) member
        rw [VarTable.map_nameOf_internAll] at named
        exact ⟨VarTable.internAll_lt_size t₁ _ x member, rf,
          (grown₁.trans grown₂).convention.trans convention, named⟩

theorem ofReturn_sourced (found : ofReturn sp t = (set, t')) :
    t.Extends t' ∧ (t.Sound → t'.Sound) ∧ Sourced sp t' .ret set := by
  unfold ofReturn at found
  split at found
  · cases found
    exact ⟨.refl t, id, by simp, by simp⟩
  · cases found
    refine ⟨VarTable.internAll_extends t _, fun sound => VarTable.internAll_sound sound _, fun x used => ?_,
      by simp⟩
    obtain ⟨member, apart⟩ := (mem_ids sp _).mp used
    exact ⟨apart, .inr (VarTable.internAll_lt_size t _ x member)⟩

theorem ofInstruction_sourced (found : ofInstruction sp t inst = .ok (set, t')) :
    t.Extends t' ∧ (t.Sound → t'.Sound) ∧ Sourced sp t' inst set := by
  have reads : ∀ x ∈ uses sp inst.reads, sp ≠ some x ∧ (.var x ∈ inst.operands ∨ x < t.size) := by
    intro x used
    obtain ⟨apart, operand⟩ := uses_sourced sp inst used
    exact ⟨apart, .inl operand⟩
  by_cases isReturn : inst = .ret
  · subst isReturn
    exact ofReturn_sourced (Except.ok.inj found)
  · cases call : inst.arity? with
    | some n =>
      rw [ofInstruction_call _ _ call] at found
      exact ofCall_sourced found
    | none =>
      cases written : inst.destination? with
      | none =>
        rw [ofInstruction_reading _ _ written call isReturn] at found
        cases found
        exact ⟨.refl t, id, reads, by simp⟩
      | some op =>
        rw [ofInstruction_writing _ _ written] at found
        cases op with
        | var d =>
          cases found
          refine ⟨.refl t, id, reads, fun x defined => .inl ?_⟩
          obtain ⟨member, apart⟩ := (mem_ids sp _).mp defined
          cases List.mem_singleton.mp member
          exact ⟨apart, Instruction.destination?_mem_operands written⟩
        | num _ | label _ | name _ => cases found

-- What is found before the first fault stays true of the table at the end.
theorem ofBody_sourced {body : List Instruction} {sets : List UseDef}
    (found : ofBody sp t body = (sets, t', none)) :
    t.Extends t' ∧ (t.Sound → t'.Sound) ∧ List.Forall₂ (Sourced sp t') body sets := by
  induction body generalizing t sets with
  | nil =>
    cases found
    exact ⟨.refl _, id, .nil⟩
  | cons inst rest ih =>
    unfold ofBody at found
    split at found
    · cases found
    · rename_i set t₁ first
      obtain ⟨grown₁, sound₁, sourced⟩ := ofInstruction_sourced first
      cases more : ofBody sp t₁ rest with
      | mk later tail =>
        obtain ⟨t₂, fault⟩ := tail
        simp only [more, Prod.mk.injEq] at found
        obtain ⟨rfl, rfl, rfl⟩ := found
        obtain ⟨grown₂, sound₂, all⟩ := ih more
        exact ⟨grown₁.trans grown₂, fun sound => sound₂ (sound₁ sound), .cons (sourced.extend grown₂) all⟩

theorem internStackPointer_extends (t : VarTable) :
    t.Extends (internStackPointer t).2 ∧ (t.Sound → (internStackPointer t).2.Sound) := by
  unfold internStackPointer
  split
  · exact ⟨.refl t, id⟩
  · split
    · exact ⟨.refl t, id⟩
    · exact ⟨VarTable.intern_extends t _, fun sound => VarTable.intern_sound sound _⟩

theorem internStackPointer_named {rf : RegisterFile} (sound : t.Sound) (convention : t.convention = some rf)
    (named : rf.sp.isEmpty = false) :
    ∃ id, (internStackPointer t).1 = some id ∧ (internStackPointer t).2.id? rf.sp = some id := by
  refine ⟨(t.intern rf.sp).1, ?_⟩
  simp only [internStackPointer, convention, named, Bool.false_eq_true, if_false, true_and]
  exact (VarTable.id?_eq_some_iff (VarTable.intern_sound sound _)).mpr
    ⟨VarTable.intern_lt_size t rf.sp, VarTable.nameOf_intern t rf.sp⟩

end UseDef

theorem Function.useDefs_sourced {f : Function} {sets : List UseDef} {t : VarTable}
    (found : f.useDefs = (sets, t, none)) :
    ∃ sp, f.table.Extends t ∧ (f.table.Sound → t.Sound) ∧ List.Forall₂ (UseDef.Sourced sp t) f.body sets ∧
      ∀ rf, f.table.Sound → f.convention = some rf → rf.sp.isEmpty = false →
        ∃ id, sp = some id ∧ t.id? rf.sp = some id := by
  obtain ⟨grown₁, sound₁⟩ := UseDef.internStackPointer_extends f.table
  obtain ⟨grown₂, sound₂, sourced⟩ := UseDef.ofBody_sourced (found : UseDef.ofBody _ _ f.body = _)
  refine ⟨_, grown₁.trans grown₂, fun sound => sound₂ (sound₁ sound), sourced, ?_⟩
  intro rf sound convention named
  obtain ⟨id, pointer, known⟩ := UseDef.internStackPointer_named sound convention named
  exact ⟨id, pointer, grown₂.id? (sound₁ sound) (sound₂ (sound₁ sound)) known⟩

structure Sheet.Resolves (f : Function) (sp : Option VarId) (s : Sheet) : Prop where
  grown : f.table.Extends s.function.table
  sound : f.table.Sound → s.function.table.Sound
  sets : List.Forall₂ (fun inst note => UseDef.Sourced sp s.function.table inst note.toUseDef) f.body s.notes
  pointer : ∀ rf, f.table.Sound → f.convention = some rf → rf.sp.isEmpty = false →
    ∃ id, sp = some id ∧ s.function.table.id? rf.sp = some id

namespace Sheet

variable {s s' : Sheet} {lv : Liveness} {x : VarId}

theorem mem_referenced : x ∈ s.referenced ↔ ∃ note ∈ s.notes, x ∈ note.used ∨ x ∈ note.defined := by
  have general : ∀ (notes : List Note) (start : VarSet),
      x ∈ notes.foldl (fun vars note => vars ∪ note.used ∪ note.defined) start ↔
        x ∈ start ∨ ∃ note ∈ notes, x ∈ note.used ∨ x ∈ note.defined := by
    intro notes
    induction notes with
    | nil => simp
    | cons note rest ih =>
      intro start
      rw [List.foldl_cons, ih]
      simp only [Std.ExtTreeSet.mem_union_iff, List.exists_mem_cons_iff, or_assoc]
  rw [referenced, general]
  simp

theorem solved_referenced (solved : lv.Solves s.notes) :
    (∀ i, ∀ x ∈ lv.liveIn i, x ∈ s.referenced) ∧ (∀ i, ∀ x ∈ lv.liveOut i, x ∈ s.referenced) := by
  refine solved.least (fun _ x => x ∈ s.referenced) (fun _ x => x ∈ s.referenced) ?_
  refine ⟨fun i note here x used => ?_, fun _ _ _ _ out _ => out, fun _ _ _ _ _ _ live => live⟩
  exact mem_referenced.mpr ⟨note, List.mem_of_getElem? here, .inl used⟩

theorem length_writeSets (notes : List Note) (sets : List UseDef) :
    (writeSets notes sets).length = notes.length := by
  induction notes generalizing sets with
  | nil => cases sets <;> rfl
  | cons note notes ih =>
    cases sets with
    | nil => rfl
    | cons set sets => simp only [writeSets, List.length_cons, ih]

theorem writeSets_eq_zipWith {notes : List Note} {sets : List UseDef}
    (same : notes.length = sets.length) :
    writeSets notes sets = notes.zipWith (fun note set => { note with toUseDef := set }) sets := by
  induction notes generalizing sets with
  | nil => rfl
  | cons note notes ih =>
    cases sets with
    | nil => cases same
    | cons set sets => simp only [writeSets, List.zipWith_cons_cons, ih (Nat.succ.inj same)]

theorem link_edges
    (targets : ∀ inst ∈ s.function.body, ∀ target, inst.target? = some target → .label target ∈ s.function.body)
    (noted : s.notes.length = s.function.body.length) :
    ∃ notes, s.link = ({ s with notes := notes }, none) ∧ notes.length = s.function.body.length ∧
      ∀ i note, notes[i]? = some note → ∀ j, j ∈ note.succ ↔ Flow.Edge s.function.body i j := by
  obtain ⟨links, flow, count, edges⟩ := Function.flow_edges targets
  refine ⟨_, by rw [link, flow]; rfl, by simp [noted, count], ?_⟩
  intro i note found j
  rw [List.getElem?_zipWith_eq_some] at found
  obtain ⟨old, l, -, there, rfl⟩ := found
  exact edges i l there j

theorem targets_of_link (linked : s.link.2 = none) :
    ∀ inst ∈ s.function.body, ∀ target, inst.target? = some target → .label target ∈ s.function.body :=
  Function.defined_of_flow (Option.map_eq_none_iff.mp linked)

theorem resolve_resolves (noted : s.notes.length = s.function.body.length) (resolved : s.resolve = (s', none)) :
    s'.notes.map Note.toLinks = s.notes.map Note.toLinks ∧ ∃ sp, Resolves s.function sp s' := by
  cases found : s.function.useDefs with
  | mk sets rest =>
    obtain ⟨t, fault⟩ := rest
    simp only [resolve, found, Prod.mk.injEq] at resolved
    obtain ⟨rfl, rfl⟩ := resolved
    obtain ⟨sp, grown, sound, sourced, pointer⟩ := Function.useDefs_sourced found
    have count : s.notes.length = sets.length := noted.trans sourced.length_eq
    have links : (writeSets s.notes sets).map Note.toLinks = s.notes.map Note.toLinks := by
      rw [writeSets_eq_zipWith count]
      exact List.ext_getElem (by simp [count]) fun i left right => by simp
    have written : (writeSets s.notes sets).map Note.toUseDef = sets := by
      rw [writeSets_eq_zipWith count]
      exact List.ext_getElem (by simp [count]) fun i left right => by simp
    refine ⟨links, sp, grown, sound, ?_, pointer⟩
    rw [← written] at sourced
    exact List.forall₂_map_right_iff.mp sourced

theorem Resolves.mem_notes {f : Function} {sp : Option VarId} {note : Note} (resolves : Resolves f sp s)
    (member : note ∈ s.notes) :
    ∃ inst ∈ f.body, UseDef.Sourced sp s.function.table inst note.toUseDef := by
  obtain ⟨i, inside, rfl⟩ := List.mem_iff_getElem.mp member
  have same := resolves.sets.length_eq
  have bound : i < f.body.length := by omega
  exact ⟨f.body[i], List.getElem_mem bound, (List.forall₂_iff_get.mp resolves.sets).2 i bound inside⟩

theorem stages_of_analyze (analysis : s.analyze = (s', .ok lv)) :
    ∃ linked, s.link = (linked, none) ∧ linked.resolve = (s', none) ∧ s'.live = .ok lv := by
  unfold analyze at analysis
  split at analysis
  · cases analysis
  · rename_i linked link
    split at analysis
    · cases analysis
    · rename_i resolved resolve
      obtain ⟨rfl, live⟩ := Prod.mk.inj analysis
      exact ⟨linked, link, resolve, live⟩

theorem solves_of_live (live : s.live = .ok lv) : lv.Solves s.notes := by
  unfold Sheet.live at live
  split at live
  · rename_i found solved
    cases live
    exact Liveness.solve_solves solved
  · cases live

theorem solves_of_analyze (analysis : s.analyze = (s', .ok lv)) : lv.Solves s'.notes := by
  obtain ⟨-, -, -, live⟩ := stages_of_analyze analysis
  exact solves_of_live live

theorem analyze_resolves (noted : s.notes.length = s.function.body.length)
    (analysis : s.analyze = (s', .ok lv)) : s'.notes.length = s.function.body.length ∧
      (∀ i note, s'.notes[i]? = some note → ∀ j, j ∈ note.succ ↔ Flow.Edge s.function.body i j) ∧
      ∃ sp, Resolves s.function sp s' := by
  obtain ⟨linked, link, resolve, -⟩ := stages_of_analyze analysis
  obtain ⟨notes, again, count, edges⟩ := link_edges (targets_of_link (congrArg Prod.snd link)) noted
  cases link.symm.trans again
  obtain ⟨links, resolves⟩ := resolve_resolves count resolve
  refine ⟨by simpa [count] using congrArg List.length links, fun i note here j => ?_, resolves⟩
  have row : (s'.notes.map Note.toLinks)[i]? = some note.toLinks := by simp [here]
  rw [links, List.getElem?_map, Option.map_eq_some_iff] at row
  obtain ⟨old, there, same⟩ := row
  rw [← same]
  exact edges i old there j

end Sheet

end RegisterAllocation
