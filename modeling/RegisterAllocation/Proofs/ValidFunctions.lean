import RegisterAllocation.Proofs.Analyses
import RegisterAllocation.Validation

namespace RegisterAllocation

namespace Validation

variable {t t' : VarTable} {inst : Instruction} {op : Operand} {x : VarId} {ρ : VarId → VarId}

theorem not_isVirtualName_empty : isVirtualName "" = false := by
  rw [isVirtualName, String.startsWith_string_eq_false_iff]
  decide

theorem spelling_var : spelling t (.var x) = [] ↔ t.isRegister x = true ∨ isVirtualName (t.nameOf x) = true := by
  simp only [spelling, ite_eq_left_iff, Bool.or_eq_true, reduceCtorEq, imp_false, not_not]

theorem lt_size_of_spelling (spelled : spelling t (.var x) = []) : x < t.size := by
  rcases spelling_var.mp spelled with register | virtual
  · exact VarTable.lt_size_of_isRegister register
  · by_contra beyond
    have missing : t.vars[x]? = none := List.getElem?_eq_none (Nat.le_of_not_lt beyond)
    simp [VarTable.nameOf, missing, not_isVirtualName_empty] at virtual

theorem variableFlaws_eq_nil_iff {role : Role} :
    variableFlaws t role op = [] ↔ op.isVar = true ∧ spelling t op = [] := by
  unfold variableFlaws
  split <;> simp_all

theorem spelling_of_valueFlaws {role : Role} (none : valueFlaws t role op = []) :
    spelling t op = [] := by
  cases op <;> simp_all [valueFlaws]

theorem spelling_of_calleeFlaws (none : calleeFlaws t op = []) : spelling t op = [] := by
  cases op <;> simp_all [calleeFlaws]

theorem operands_spelled (clean : instruction t inst = []) :
    ∀ op ∈ inst.operands, spelling t op = [] := by
  intro op member
  cases inst <;> simp only [instruction, List.append_eq_nil_iff, variableFlaws_eq_nil_iff,
    Instruction.operands, List.mem_cons, List.not_mem_nil, or_false] at clean member <;>
    grind [spelling_of_valueFlaws, spelling_of_calleeFlaws]

theorem destination_isVar (clean : instruction t inst = []) (found : inst.destination? = some op) :
    op.isVar = true := by
  cases inst <;> simp only [Instruction.destination?, Option.some.injEq, reduceCtorEq] at found <;>
    subst found <;> simp only [instruction, List.append_eq_nil_iff, variableFlaws_eq_nil_iff] at clean <;>
    grind

theorem runtime_arity_not_neg {function : String} {arity : Word} (clean : runtimeFlaws function arity = []) :
    ¬arity < 0 := by
  unfold runtimeFlaws at clean
  split at clean
  · cases clean
  · split at clean
    · rename_i same
      rw [Int64.lt_iff_toInt_lt, same]
      simp
    · cases clean
  · split at clean
    · rename_i listed
      simp only [List.mem_cons, List.not_mem_nil, or_false] at listed
      rcases listed with rfl | rfl | rfl <;> decide
    · cases clean

theorem resolvable_of_clean (clean : instruction t inst = []) : inst.Resolvable t := by
  refine ⟨fun x member => lt_size_of_spelling (operands_spelled clean _ member),
    fun op found => destination_isVar clean found, fun n call => ?_⟩
  cases inst <;> simp only [Instruction.arity?, Option.some.injEq, reduceCtorEq] at call <;> subst call
  case call =>
    simp only [instruction, List.append_eq_nil_iff, ite_eq_right_iff, reduceCtorEq, imp_false] at clean
    exact clean.2
  case runtimeCall => exact runtime_arity_not_neg clean

section Renaming

variable (spelled : ∀ x, op = .var x → spelling t' (.var (ρ x)) = [])
include spelled

theorem spelling_rename (none : spelling t op = []) : spelling t' (op.rename ρ) = [] := by
  cases op <;> simp_all [Operand.rename, spelling]

theorem variableFlaws_rename {role : Role} (none : variableFlaws t role op = []) :
    variableFlaws t' role (op.rename ρ) = [] := by
  rw [variableFlaws_eq_nil_iff] at none ⊢
  refine ⟨?_, spelling_rename spelled none.2⟩
  cases op <;> simp_all [Operand.rename, Operand.isVar]

theorem valueFlaws_rename {role : Role} (none : valueFlaws t role op = []) :
    valueFlaws t' role (op.rename ρ) = [] := by
  cases op <;> simp_all [valueFlaws, Operand.rename, spelling]

theorem calleeFlaws_rename (none : calleeFlaws t op = []) : calleeFlaws t' (op.rename ρ) = [] := by
  cases op <;> simp_all [calleeFlaws, Operand.rename, spelling]

end Renaming

theorem instruction_rename (clean : instruction t inst = [])
    (spelled : ∀ x, .var x ∈ inst.operands → spelling t' (.var (ρ x)) = []) :
    instruction t' (inst.rename ρ) = [] := by
  have each : ∀ op ∈ inst.operands, ∀ x, op = .var x → spelling t' (.var (ρ x)) = [] := by
    intro _ member x same
    subst same
    exact spelled x member
  cases inst <;> simp only [instruction, Instruction.rename, Instruction.mapOperands,
    List.append_eq_nil_iff, Instruction.operands, List.mem_cons, List.not_mem_nil, or_false,
    forall_eq_or_imp, forall_eq] at clean each ⊢ <;>
    grind [variableFlaws_rename, valueFlaws_rename, calleeFlaws_rename, spelling_rename]

theorem duplicateLabels_eq_nil_iff (seen : List String) (i : Nat) (body : List Instruction) :
    duplicateLabels seen i body = [] ↔
      (Flow.labels body).Nodup ∧ ∀ l ∈ Flow.labels body, l ∉ seen := by
  induction body generalizing seen i with
  | nil => simp [duplicateLabels, Flow.labels]
  | cons inst rest ih =>
    cases head : inst.label? with
    | none =>
      have skip : duplicateLabels seen i (inst :: rest) = duplicateLabels seen (i + 1) rest := by
        cases inst <;> first | rfl | cases head
      rw [skip, ih, Flow.labels_cons, head]
      simp
    | some l =>
      cases Instruction.label?_eq_some_iff.mp head
      rw [duplicateLabels, List.append_eq_nil_iff, ih, Flow.labels_cons, head]
      simp only [Option.toList_some, List.singleton_append, List.nodup_cons, List.mem_cons,
        ite_eq_right_iff, List.contains_iff_mem, reduceCtorEq, imp_false]
      constructor
      · intro h
        obtain ⟨fresh, distinct, apart⟩ := h
        refine ⟨⟨fun again => apart l again (.inl rfl), distinct⟩, ?_⟩
        intro other either
        rcases either with rfl | later
        · exact fresh
        · exact fun old => apart other later (.inr old)
      · intro h
        obtain ⟨⟨once, distinct⟩, apart⟩ := h
        refine ⟨apart l (.inl rfl), distinct, ?_⟩
        intro other later either
        rcases either with rfl | old
        · exact once later
        · exact apart other (.inr later) old

end Validation

structure Function.Valid (rf : RegisterFile) (f : Function) : Prop where
  convention : f.table.convention = some rf
  sound : f.table.Sound
  instructions : ∀ inst ∈ f.body, Validation.instruction f.table inst = []
  labels : (Flow.labels f.body).Nodup
  targets : ∀ inst ∈ f.body, ∀ target, inst.target? = some target → .label target ∈ f.body

theorem Function.problems_eq_nil_iff (f : Function) :
    f.problems = [] ↔ Validation.headFlaws f = [] ∧ (Flow.labels f.body).Nodup ∧
      ∀ inst ∈ f.body, Validation.instruction f.table inst = [] ∧
        ∀ target, inst.target? = some target → .label target ∈ f.body := by
  have branch : ∀ inst, Validation.branchFlaws f.body inst = [] ↔
      ∀ target, inst.target? = some target → .label target ∈ f.body := by
    intro inst
    unfold Validation.branchFlaws
    cases inst.target? with
    | none => simp
    | some target => simp [Validation.definesLabel]
  have rows : Validation.bodyFlaws f = [] ↔ ∀ inst ∈ f.body,
      Validation.instruction f.table inst = [] ∧ Validation.branchFlaws f.body inst = [] := by
    simp only [Validation.bodyFlaws, List.flatMap_eq_nil_iff, List.map_eq_nil_iff,
      List.append_eq_nil_iff, Prod.forall]
    constructor
    · intro all inst member
      obtain ⟨i, bound, rfl⟩ := List.mem_iff_getElem.mp member
      exact all _ i (List.mem_zipIdx_iff_getElem?.mpr (by simp))
    · intro all inst i member
      exact all inst (List.mem_of_getElem? (List.mem_zipIdx_iff_getElem?.mp member))
  simp only [problems, List.map_eq_nil_iff, List.append_eq_nil_iff, rows, branch,
    Validation.duplicateLabels_eq_nil_iff, List.not_mem_nil, not_false_eq_true, implies_true,
    and_true, and_assoc]

theorem Function.valid_of_problems {rf : RegisterFile} {f : Function} (sound : f.table.Sound)
    (convention : f.convention = some rf) (clean : f.problems = []) : f.Valid rf := by
  obtain ⟨-, labels, rows⟩ := f.problems_eq_nil_iff.mp clean
  exact ⟨convention, sound, fun inst member => (rows inst member).1, labels,
    fun inst member => (rows inst member).2⟩

theorem Function.Valid.resolvable {rf : RegisterFile} {f : Function} (valid : f.Valid rf) :
    ∀ inst ∈ f.body, inst.Resolvable f.table :=
  fun inst member => Validation.resolvable_of_clean (valid.instructions inst member)

theorem Function.Valid.pointer_isRegister {rf : RegisterFile} {f : Function} {sp : VarId} (valid : f.Valid rf)
    (pointer : sp < f.table.size ∧ f.table.nameOf sp = rf.sp) : f.table.isRegister sp = true := by
  rw [VarTable.isRegister_eq valid.sound valid.convention pointer.1, pointer.2]
  exact RegisterFile.isRegister_iff.mpr (.inl rfl)

theorem Function.Valid.withTable {rf : RegisterFile} {f : Function} {t : VarTable} (valid : f.Valid rf)
    (grown : f.table.Extends t) (sound : t.Sound) : Function.Valid rf { f with table := t } := by
  -- Validity only looks at the names and kinds of the operands, which a longer table keeps.
  refine ⟨grown.convention.trans valid.convention, sound, fun inst member => ?_, valid.labels,
    valid.targets⟩
  have clean := valid.instructions inst member
  have same : inst.rename id = inst := by
    have trivial : (fun op : Operand => op.rename id) = id := by
      funext op
      cases op <;> rfl
    rw [Instruction.rename, trivial, Instruction.mapOperands_id]
  rw [← same]
  refine Validation.instruction_rename clean fun x operand => ?_
  have spelled := Validation.operands_spelled clean _ operand
  have known := Validation.lt_size_of_spelling spelled
  rw [Validation.spelling_var] at spelled ⊢
  simp only [id_eq, grown.isRegister known, grown.nameOf known]
  exact spelled

def Function.resolved (f : Function) : Function := { f with table := f.useDefs.2.1 }

-- A sheet whose notes are right: the sets, the links and the liveness are those of its function,
-- whose table knows the stack pointer.
structure Sheet.Analyzed (rf : RegisterFile) (s : Sheet) (lv : Liveness) : Prop where
  valid : s.function.Valid rf
  pointer : rf.sp ∈ s.function.table.names
  sets : List.Forall₂ (fun inst note => UseDef.Describes rf s.function.table inst note.toUseDef)
    s.function.body s.notes
  links : ∀ i note, s.notes[i]? = some note → ∀ j, j ∈ note.succ ↔ Flow.Edge s.function.body i j
  live : lv.Solves s.notes

namespace Sheet

variable {rf : RegisterFile} {s s' : Sheet} {lv : Liveness}

theorem resolve_describes (accepted : rf.Accepted) (valid : s.function.Valid rf)
    (noted : s.notes.length = s.function.body.length) :
    ∃ sets t, s.resolve = ({ s.withTable t with
        notes := s.notes.zipWith (fun note set => { note with toUseDef := set }) sets }, none) ∧
      s.function.table.Extends t ∧ t.Sound ∧ rf.sp ∈ t.names ∧ sets.length = s.notes.length ∧
      List.Forall₂ (UseDef.Describes rf t) s.function.body sets := by
  obtain ⟨sets, t, found, grown, sound, pointer, described⟩ :=
    Function.useDefs_describe accepted valid.sound valid.convention valid.resolvable
  have count : s.notes.length = sets.length := noted.trans described.length_eq
  refine ⟨sets, t, ?_, grown, sound, pointer, count.symm, described⟩
  rw [resolve, found]
  simp only [writeSets_eq_zipWith count]

theorem analyze_valid (accepted : rf.Accepted) (valid : s.function.Valid rf)
    (noted : s.notes.length = s.function.body.length) :
    ∃ s' lv, s.analyze = (s', .ok lv) ∧ s'.Analyzed rf lv ∧
      s'.function = { s.function with table := s'.function.table } ∧
      s.function.table.Extends s'.function.table := by
  obtain ⟨notes, linked, count, edges⟩ := link_edges valid.targets noted
  obtain ⟨sets, t, resolved, grown, sound, pointer, setCount, described⟩ :=
    resolve_describes (s := { s with notes := notes }) accepted valid count
  have setCount : sets.length = notes.length := setCount
  let final : Sheet := { s.withTable t with
    notes := notes.zipWith (fun note set => { note with toUseDef := set }) sets }
  have lengths : final.notes.length = s.function.body.length := by
    simp only [final, List.length_zipWith, setCount, Nat.min_self, count]
  have sets : List.Forall₂ (fun inst note => UseDef.Describes rf t inst note.toUseDef)
      s.function.body final.notes := by
    refine List.forall₂_iff_get.mpr ⟨lengths.symm, fun i left right => ?_⟩
    have inside : i < sets.length := by omega
    have same : (final.notes.get ⟨i, right⟩).toUseDef = sets.get ⟨i, inside⟩ := by
      simp [final]
    rw [same]
    exact (List.forall₂_iff_get.mp described).2 i left inside
  have known : ∀ note ∈ final.notes, ∀ x ∈ note.used, x < t.size := by
    intro note member x used
    obtain ⟨i, bound, rfl⟩ := List.mem_iff_getElem.mp member
    have described := (List.forall₂_iff_get.mp sets).2 i (by omega) bound
    have resolvable := (valid.resolvable _ (List.get_mem s.function.body ⟨i, by omega⟩)).extend grown
    exact ((described.used x).mp used).lt_size resolvable
  obtain ⟨lv, -, solved, -⟩ := Liveness.solve_ends known
  refine ⟨final, lv, ?_, ⟨valid.withTable grown sound, pointer, sets, ?_,
    Liveness.solve_solves solved⟩, rfl, grown⟩
  · have live : final.live = .ok lv := by
      unfold Sheet.live
      rw [show final.function.table = t from rfl, solved]
    rw [analyze, linked]
    simp only [resolved]
    exact congrArg _ live
  · intro i note found j
    rw [List.getElem?_zipWith_eq_some] at found
    obtain ⟨old, set, there, -, rfl⟩ := found
    exact edges i old there j

theorem analyze_resolved (analysis : s.analyze = (s', .ok lv)) : s'.function = s.function.resolved := by
  obtain ⟨linked, link, resolve, -⟩ := stages_of_analyze analysis
  have same : linked.function = s.function := (congrArg (·.1.function) link).symm
  have table : s'.function = linked.function.resolved := (congrArg (·.1.function) resolve).symm
  rw [table, same]

theorem analyze_ofFunction (accepted : rf.Accepted) (valid : s.function.Valid rf)
    (noted : s.notes.length = s.function.body.length) : s.analyze = (Sheet.ofFunction s.function).analyze := by
  -- Analysis overwrites the notes, so that what they held before does not matter.
  obtain ⟨links, flow, count, -⟩ := Function.flow_edges valid.targets
  obtain ⟨sets, t, found, -, -, -, described⟩ :=
    Function.useDefs_describe accepted valid.sound valid.convention valid.resolvable
  have setCount := described.length_eq
  have same : ∀ notes : List Note, notes.length = s.function.body.length →
      writeSets (notes.zipWith (fun note l => { note with toLinks := l }) links) sets =
        links.zipWith (fun l set => ⟨set, l⟩) sets := by
    intro notes length
    rw [writeSets_eq_zipWith (by simp [length, count, setCount])]
    refine List.ext_getElem (by simp [length, count]) fun i left right => ?_
    simp
  unfold analyze
  simp only [link, ofFunction, flow, resolve, found, withTable, Option.map_none]
  rw [same _ noted, same _ (by simp)]

end Sheet

theorem Sheet.Analyzed.withTable {rf : RegisterFile} {s : Sheet} {lv : Liveness} {t : VarTable}
    (analyzed : s.Analyzed rf lv) (grown : s.function.table.Extends t) (sound : t.Sound) :
    (s.withTable t).Analyzed rf lv := by
  refine ⟨analyzed.valid.withTable grown sound, grown.mem_names analyzed.pointer, ?_, analyzed.links,
    analyzed.live⟩
  refine List.forall₂_iff_get.mpr ⟨analyzed.sets.length_eq, fun i left right => ?_⟩
  exact ((List.forall₂_iff_get.mp analyzed.sets).2 i left right).extend
    (analyzed.valid.resolvable _ (List.get_mem _ _)) grown sound

namespace Sheet.Analyzed

variable {rf : RegisterFile} {s : Sheet} {lv : Liveness} {i : Nat} {note : Note} {inst : Instruction}
  {x : VarId}

theorem notes_length (analyzed : s.Analyzed rf lv) : s.notes.length = s.function.body.length :=
  analyzed.sets.length_eq.symm

theorem note_of_inst (analyzed : s.Analyzed rf lv) (here : s.function.body[i]? = some inst) :
    ∃ note, s.notes[i]? = some note ∧ UseDef.Describes rf s.function.table inst note.toUseDef := by
  obtain ⟨inside, rfl⟩ := List.getElem?_eq_some_iff.mp here
  have noted : i < s.notes.length := by rwa [analyzed.notes_length]
  exact ⟨s.notes[i], List.getElem?_eq_getElem noted,
    (List.forall₂_iff_get.mp analyzed.sets).2 i inside noted⟩

theorem inst_of_note (analyzed : s.Analyzed rf lv) (here : s.notes[i]? = some note) :
    ∃ inst, s.function.body[i]? = some inst ∧
      UseDef.Describes rf s.function.table inst note.toUseDef := by
  obtain ⟨noted, rfl⟩ := List.getElem?_eq_some_iff.mp here
  have inside : i < s.function.body.length := by rwa [← analyzed.notes_length]
  exact ⟨s.function.body[i], List.getElem?_eq_getElem inside,
    (List.forall₂_iff_get.mp analyzed.sets).2 i inside noted⟩

theorem referenced_iff (analyzed : s.Analyzed rf lv) :
    x ∈ s.referenced ↔ ∃ inst ∈ s.function.body,
      inst.Uses rf s.function.table x ∨ inst.Defines rf s.function.table x := by
  rw [Sheet.mem_referenced]
  constructor
  · intro h
    obtain ⟨note, member, touched⟩ := h
    obtain ⟨i, inside⟩ := List.mem_iff_getElem?.mp member
    obtain ⟨inst, here, described⟩ := analyzed.inst_of_note inside
    exact ⟨inst, List.mem_of_getElem? here,
      touched.imp (described.used x).mp (described.defined x).mp⟩
  · intro h
    obtain ⟨inst, member, touched⟩ := h
    obtain ⟨i, inside⟩ := List.mem_iff_getElem?.mp member
    obtain ⟨note, here, described⟩ := analyzed.note_of_inst inside
    exact ⟨note, List.mem_of_getElem? here,
      touched.imp (described.used x).mpr (described.defined x).mpr⟩

theorem referenced_lt_size (analyzed : s.Analyzed rf lv) (member : x ∈ s.referenced) :
    x < s.function.table.size := by
  obtain ⟨inst, inside, touched⟩ := analyzed.referenced_iff.mp member
  exact touched.elim (·.lt_size (analyzed.valid.resolvable inst inside))
    (·.lt_size (analyzed.valid.resolvable inst inside))

theorem referenced_ne_sp (analyzed : s.Analyzed rf lv) (accepted : rf.Accepted)
    (member : x ∈ s.referenced) : s.function.table.nameOf x ≠ rf.sp := by
  obtain ⟨inst, -, touched⟩ := analyzed.referenced_iff.mp member
  exact touched.elim (·.ne_sp accepted) (·.ne_sp accepted)

theorem live_referenced (analyzed : s.Analyzed rf lv) :
    (∀ i, ∀ x ∈ lv.liveIn i, x ∈ s.referenced) ∧ (∀ i, ∀ x ∈ lv.liveOut i, x ∈ s.referenced) :=
  Sheet.solved_referenced analyzed.live

theorem live_of_uses (analyzed : s.Analyzed rf lv) (here : s.function.body[i]? = some inst)
    (used : inst.Uses rf s.function.table x) : x ∈ lv.liveIn i := by
  obtain ⟨note, noted, described⟩ := analyzed.note_of_inst here
  exact (analyzed.live.mem_in i note noted x).mpr (.inl ((described.used x).mpr used))

theorem live_of_kept (analyzed : s.Analyzed rf lv) (here : s.function.body[i]? = some inst)
    (out : x ∈ lv.liveOut i) (kept : ¬inst.Defines rf s.function.table x) : x ∈ lv.liveIn i := by
  obtain ⟨note, noted, described⟩ := analyzed.note_of_inst here
  exact (analyzed.live.mem_in i note noted x).mpr
    (.inr ⟨out, fun defined => kept ((described.defined x).mp defined)⟩)

theorem live_of_edge (analyzed : s.Analyzed rf lv) {j : Nat} (edge : Flow.Edge s.function.body i j)
    (live : x ∈ lv.liveIn j) : x ∈ lv.liveOut i := by
  obtain ⟨inst, here, -⟩ := id edge
  obtain ⟨note, noted, -⟩ := analyzed.note_of_inst here
  exact (analyzed.live.mem_out i note noted x).mpr ⟨j, (analyzed.links i note noted j).mpr edge, live⟩

theorem liveIn_lt (analyzed : s.Analyzed rf lv) (live : x ∈ lv.liveIn i) :
    i < s.function.body.length := by
  rw [← analyzed.notes_length, ← analyzed.live.ins_size]
  exact Liveness.lt_size_of_mem live

theorem liveOut_lt (analyzed : s.Analyzed rf lv) (live : x ∈ lv.liveOut i) :
    i < s.function.body.length := by
  rw [← analyzed.notes_length, ← analyzed.live.outs_size]
  exact Liveness.lt_size_of_mem live

end Sheet.Analyzed

end RegisterAllocation
