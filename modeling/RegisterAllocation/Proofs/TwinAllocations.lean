import RegisterAllocation.Proofs.Fixpoints
import RegisterAllocation.Proofs.Preservation
import RegisterAllocation.Proofs.TwinSpills

namespace RegisterAllocation

namespace Allocation

variable {rf : RegisterFile} {f f' : Function} {β φ : VarId → VarId} {sp sp' x v : VarId} {vs : List VarId}
  {tmp tmp' : Nat → VarId → VarId} {lv lv' : Liveness} {b b' : Built} {s s' : State}
  {attempt attempt' : Coloring}

structure Outcome.Alike (o o' : Outcome) : Prop where
  stats : o'.stats = o.stats
  result : (∃ g g', o.result = .ok g ∧ o'.result = .ok g' ∧ g'.text = g.text) ∨
    ∃ name uncolored uncolored', o.result = .error (.nothingToSpill name uncolored) ∧
      o'.result = .error (.nothingToSpill name uncolored')

inductive Paired (rf : RegisterFile) (β : VarId → VarId) (f f' : Function) (sp sp' : VarId) :
    Except Outcome State → Except Outcome State → Prop where
  | ended {o o' : Outcome} (alike : o.Alike o') : Paired rf β f f' sp sp' (.error o) (.error o')
  | spilled {vs : List VarId} {tmp tmp' : Nat → VarId → VarId} {s s' : State}
      (underway : Underway rf f sp vs tmp s) (underway' : Underway rf f' sp' (vs.map β) tmp' s')
      (stats : s'.stats = s.stats) : Paired rf β f f' sp sp' (.ok s) (.ok s')

structure Abreast (rf : RegisterFile) (β φ : VarId → VarId) (f f' : Function) (sp sp' : VarId)
    (vs : List VarId) (tmp tmp' : Nat → VarId → VarId) (lv lv' : Liveness) (b b' : Built) : Prop where
  ready : Ready rf f sp vs tmp lv b
  ready' : Ready rf f' sp' (vs.map β) tmp' lv' b'
  relocates : Relocates β f b.state.sheet.function b'.state.sheet.function vs tmp tmp' φ
  renumbers : b.state.sheet.function.Renumbers φ b'.state.sheet.function
  alike : Coloring.Alike φ b.graph b'.graph
  stats : b'.state.stats = b.state.stats

theorem Abreast.report (abreast : Abreast rf β φ f f' sp sp' vs tmp tmp' lv lv' b b') (e e' : Event) :
    Abreast rf β φ f f' sp sp' vs tmp tmp' lv lv' { b with state := b.state.report e }
      { b' with state := b'.state.report e' } :=
  ⟨abreast.ready.report e, abreast.ready'.report e', abreast.relocates, abreast.renumbers, abreast.alike,
    abreast.stats⟩

theorem Abreast.colored (abreast : Abreast rf β φ f f' sp sp' vs tmp tmp' lv lv' b b')
    (attempt attempt' : Coloring) :
    Abreast rf β φ f f' sp sp' vs tmp tmp' lv lv' { b with state := .colored b attempt }
      { b' with state := .colored b' attempt' } :=
  (abreast.report _ _).report _ _

section Assigning

theorem registerMap_length (t : VarTable) (pairs : List (VarId × String)) :
    (registerMap t pairs).1.length = pairs.length := by
  induction pairs generalizing t with
  | nil => rfl
  | cons pair rest ih => exact congrArg Nat.succ (ih _)

theorem nodup_chosen (t : VarTable) (rf : RegisterFile) (attempt : Coloring) :
    ((chosen t rf attempt).map Prod.fst).Nodup := by
  have keys : (attempt.assigned t).Pairwise fun a b => a.1 ≠ b.1 :=
    (Std.ExtTreeMap.distinct_keys_toList.imp fun apart same => apart (by simp [same])).filter _
  refine List.pairwise_map.mpr (List.pairwise_filterMap.mpr (keys.imp fun apart a chose b chose' => ?_))
  obtain ⟨_, -, rfl⟩ := Option.map_eq_some_iff.mp chose
  obtain ⟨_, -, rfl⟩ := Option.map_eq_some_iff.mp chose'
  exact apart

theorem chosen_length {s : Sheet} {g : Graph} (accepted : rf.Accepted) (analyzed : s.Analyzed rf lv)
    (interferes : Graph.Interferes rf s lv g) (attempted : Coloring.Attempted rf g attempt)
    (success : attempt.success = true) :
    (chosen s.function.table rf attempt).length = (Coloring.virtualNodes g).length := by
  rw [← List.length_map (f := Prod.fst)]
  refine List.Perm.length_eq ?_
  rw [List.perm_ext_iff_of_nodup (nodup_chosen _ _ _) (Coloring.nodup_virtualNodes g)]
  intro x
  rw [Coloring.mem_virtualNodes, List.mem_map]
  constructor
  · intro h
    obtain ⟨⟨_, r⟩, member, rfl⟩ := h
    obtain ⟨virtual, c, colored, -⟩ := mem_chosen.mp member
    have node := (attempted.bounded _ c colored).2
    exact ⟨node, (interferes.color?_eq_none_iff accepted analyzed node).mpr virtual⟩
  · intro h
    obtain ⟨node, bare⟩ := h
    obtain ⟨c, colored, found⟩ := registerOf_node accepted analyzed interferes attempted success node
    have virtual := (interferes.color?_eq_none_iff accepted analyzed node).mp bare
    exact ⟨(x, _), mem_chosen.mpr ⟨virtual, c, colored, found⟩, rfl⟩

end Assigning

section Twins

variable (accepted : rf.Accepted) (valid : f.Valid rf) (valid' : f'.Valid rf)
  (pointer : sp < f.table.size ∧ f.table.nameOf sp = rf.sp)
  (pointer' : sp' < f'.table.size ∧ f'.table.nameOf sp' = rf.sp) (twins : f.Twins β f')
  (abreast : Abreast rf β φ f f' sp sp' vs tmp tmp' lv lv' b b')

include accepted valid valid' pointer pointer' twins

theorem exists_abreast (registers : ∀ r ∈ rf.registers, r ∈ f.table.names)
    (registers' : ∀ r ∈ rf.registers, r ∈ f'.table.names) (ready : Ready rf f sp vs tmp lv b)
    (ready' : Ready rf f' sp' (vs.map β) tmp' lv' b') (stats : b'.state.stats = b.state.stats) :
    ∃ φ, Abreast rf β φ f f' sp sp' vs tmp tmp' lv lv' b b' := by
  have expanded := ready.underway.expanded
  have expanded' := ready'.underway.expanded
  obtain ⟨φ, relocates⟩ := exists_relocates accepted valid pointer pointer' expanded expanded' registers'
  have renumbers := relocates.renumbers accepted valid valid' twins
    (fun v listed => (ready.underway.originals v listed).1) pointer pointer' expanded expanded' registers
  exact ⟨φ, ready, ready', relocates, renumbers, renumbers.alike accepted ready.analyzed ready'.analyzed
    ready.interferes ready'.interferes, stats⟩

omit accepted pointer pointer' in
theorem left_twin (originals : ∀ v ∈ vs, v ∈ f.virtuals) (virtual : x ∈ f.virtuals) :
    Left f' (vs.map β) (β x) ↔ Left f vs x := by
  have marked := twins.spilled x virtual
  rw [Function.isSpilled, Function.isSpilled, Bool.eq_iff_iff, Std.ExtTreeSet.contains_iff_mem,
    Std.ExtTreeSet.contains_iff_mem] at marked
  unfold Left
  rw [twins.mem_map_iff valid valid' originals (Function.mem_virtuals.mp virtual).1, marked]
  exact and_congr_left fun _ => iff_of_true (twins.mem_virtuals virtual) virtual

theorem spillAll_paired (underway : Underway rf f sp vs tmp s)
    (underway' : Underway rf f' sp' (vs.map β) tmp' s') (stats : s'.stats = s.stats) (victims : List VarId)
    (distinct : victims.Nodup) (left : ∀ v ∈ victims, Left f vs v) :
    Paired rf β f f' sp sp' (spillAll s victims) (spillAll s' (victims.map β)) := by
  have originals : ∀ v ∈ vs, v ∈ f.virtuals := fun v listed => (underway.originals v listed).1
  have distinct' : (victims.map β).Nodup := by
    refine distinct.map_on fun x first y second same => ?_
    exact eq_of_order twins.order (left x first).1 (left y second).1 same
  have left' : ∀ v ∈ victims.map β, Left f' (vs.map β) v := by
    intro v member
    obtain ⟨x, victim, rfl⟩ := List.mem_map.mp member
    exact (left_twin valid valid' twins originals (left x victim).1).mpr (left x victim)
  obtain ⟨after, _, done, spilled, -, counts⟩ :=
    spillAll_underway accepted valid pointer victims distinct underway left
  obtain ⟨after', _, done', spilled', -, counts'⟩ :=
    spillAll_underway accepted valid' pointer' _ distinct' underway' left'
  rw [done, done']
  rw [← List.map_append] at spilled'
  refine .spilled spilled spilled' ?_
  rw [counts, counts', stats, List.length_map]

include abreast

omit pointer' in
theorem temps_twin (node : x ∈ Coloring.virtualNodes b.graph) :
    b'.state.temps.contains (φ x) = b.state.temps.contains x := by
  obtain ⟨ready, ready', relocates, -, -, -⟩ := abreast
  have virtual := ready.interferes.mem_virtuals accepted ready.analyzed node
  rw [Bool.eq_iff_iff, Std.ExtTreeSet.contains_iff_mem, Std.ExtTreeSet.contains_iff_mem, ready.underway.temps,
    ready'.underway.temps]
  rcases (ready.underway.expanded.mem_virtuals accepted valid pointer).mp virtual with
    ⟨old, -⟩ | ⟨i, v, listed, touched, rfl⟩
  · refine iff_of_false (fun temporary => ?_) fun temporary => ?_
    · obtain ⟨i, v, listed, touched, same⟩ := temporary
      rw [relocates.original x old] at same
      exact ready'.underway.expanded.ne_temp valid' (twins.mem_virtuals old) listed touched same
    · obtain ⟨i, v, listed, touched, same⟩ := temporary
      exact ready.underway.expanded.ne_temp valid old listed touched same
  · have there := relocates.temporary i v listed touched
    exact iff_of_true ⟨i, β v, List.mem_map_of_mem listed, twins.touches touched, there⟩
      ⟨i, v, listed, touched, rfl⟩

theorem spillable_twin (node : x ∈ Coloring.virtualNodes b.graph) :
    b'.state.spillable (φ x) = b.state.spillable x := by
  obtain ⟨ready, ready', relocates, -, alike, -⟩ := abreast
  have virtual := ready.interferes.mem_virtuals accepted ready.analyzed node
  have originals : ∀ v ∈ vs, v ∈ f.virtuals := fun v listed => (ready.underway.originals v listed).1
  have present := (Coloring.mem_virtualNodes.mp node).1
  rw [Bool.eq_iff_iff, spillable_iff accepted valid pointer ready present,
    spillable_iff accepted valid' pointer' ready' ((alike.twins.node x present).mpr present)]
  rcases (ready.underway.expanded.mem_virtuals accepted valid pointer).mp virtual with
    ⟨old, -⟩ | ⟨i, v, listed, touched, rfl⟩
  · rw [relocates.original x old]
    exact left_twin valid valid' twins originals old
  · rw [relocates.temporary i v listed touched]
    refine iff_of_false (fun left => ?_) fun left => ?_
    · exact absurd rfl (ready'.underway.expanded.ne_temp valid' left.1 (List.mem_map_of_mem listed)
        (twins.touches touched))
    · exact absurd rfl (ready.underway.expanded.ne_temp valid left.1 listed touched)

theorem victims_twin {list : List VarId} (nodes : ∀ x ∈ list, x ∈ Coloring.virtualNodes b.graph) :
    (list.map φ).filter b'.state.spillable = (list.filter b.state.spillable).map β := by
  rw [filter_map_of fun x member =>
    spillable_twin accepted valid valid' pointer pointer' twins abreast (nodes x member)]
  refine List.map_congr_left fun x member => ?_
  obtain ⟨inside, able⟩ := List.mem_filter.mp member
  have node := (Coloring.mem_virtualNodes.mp (nodes x inside)).1
  exact abreast.relocates.original x ((spillable_iff accepted valid pointer abreast.ready node).mp able).1

omit valid' pointer' twins abreast in
theorem nodes_spillable (ready : Ready rf f sp vs tmp lv b) :
    b.graph.nodes.filter b.state.spillable = (Coloring.virtualNodes b.graph).filter b.state.spillable := by
  rw [Coloring.virtualNodes, List.filter_filter]
  refine List.filter_congr fun x member => ?_
  have node := Graph.mem_nodes.mp member
  rw [Bool.eq_iff_iff, Bool.and_eq_true]
  refine ⟨fun able => ⟨able, Option.isNone_iff_eq_none.mpr ?_⟩, fun both => both.1⟩
  have left := (spillable_iff accepted valid pointer ready node).mp able
  obtain ⟨-, -, virtual, -⟩ := left_virtual valid pointer ready left
  exact (ready.interferes.color?_eq_none_iff accepted ready.analyzed node).mpr virtual

theorem sweep_paired (attempt attempt' : Coloring) :
    Paired rf β f f' sp sp' (sweep b attempt) (sweep b' attempt') := by
  have ready := abreast.ready
  have ready' := abreast.ready'
  have victims : b'.graph.nodes.filter b'.state.spillable = (b.graph.nodes.filter b.state.spillable).map β := by
    rw [nodes_spillable accepted valid pointer ready, nodes_spillable accepted valid' pointer' ready',
      abreast.alike.virtualNodes_map]
    exact victims_twin accepted valid valid' pointer pointer' twins abreast fun x node => node
  have distinct := b.graph.nodup_nodes.filter b.state.spillable
  cases chosen : b.graph.nodes.filter b.state.spillable with
  | nil =>
    rw [chosen, List.map_nil] at victims
    have name : b'.state.sheet.function.name = b.state.sheet.function.name := by
      rw [ready'.underway.expanded.name, ready.underway.expanded.name, twins.name]
    rw [sweep_nil chosen, sweep_nil victims, name]
    exact .ended ⟨abreast.stats, .inr ⟨_, _, _, rfl, rfl⟩⟩
  | cons first rest =>
    have left : ∀ v ∈ first :: rest, Left f vs v := by
      intro v member
      rw [← chosen, List.mem_filter, Graph.mem_nodes] at member
      exact (spillable_iff accepted valid pointer ready member.1).mp member.2
    rw [chosen] at victims distinct
    rw [sweep_cons chosen, sweep_cons victims]
    exact spillAll_paired accepted valid valid' pointer pointer' twins (ready.underway.sweeping _)
      (ready'.underway.sweeping _)
      (congrArg (fun work : Stats => { work with sweeps := work.sweeps + 1 }) abreast.stats) _ distinct left

theorem spill_paired (attempted : Coloring.Attempted rf b.graph attempt)
    (same : Coloring.Twins (· ∈ b.graph.adj) φ attempt attempt') :
    Paired rf β f f' sp sp' (spill b attempt) (spill b' attempt') := by
  have ready := abreast.ready
  have victims : attempt'.uncolored.filter b'.state.spillable =
      (attempt.uncolored.filter b.state.spillable).map β := by
    rw [same.uncolored]
    exact victims_twin accepted valid valid' pointer pointer' twins abreast attempted.uncolored
  have distinct := attempted.once.filter b.state.spillable
  cases chosen : attempt.uncolored.filter b.state.spillable with
  | nil =>
    rw [chosen, List.map_nil] at victims
    rw [spill_nil chosen, spill_nil victims]
    exact sweep_paired accepted valid valid' pointer pointer' twins (abreast.report _ _) attempt attempt'
  | cons first rest =>
    have left : ∀ v ∈ first :: rest, Left f vs v := by
      intro v member
      rw [← chosen, List.mem_filter] at member
      have node := (Coloring.mem_virtualNodes.mp (attempted.uncolored v member.1)).1
      exact (spillable_iff accepted valid pointer ready node).mp member.2
    rw [chosen] at victims distinct
    rw [spill_cons chosen, spill_cons victims]
    exact spillAll_paired accepted valid valid' pointer pointer' twins (ready.underway.report _)
      (abreast.ready'.underway.report _) abreast.stats _ distinct left

omit valid valid' pointer pointer' twins in
theorem registerOf_twin (attempted : Coloring.Attempted rf b.graph attempt)
    (attempted' : Coloring.Attempted rf b'.graph attempt')
    (same : Coloring.Twins (· ∈ b.graph.adj) φ attempt attempt') (success : attempt.success = true)
    (mentioned : b.state.sheet.function.Mentions x) :
    attempt'.registerOf rf b'.state.table (φ x) = attempt.registerOf rf b.state.table x := by
  obtain ⟨ready, ready', -, renumbers, alike, -⟩ := abreast
  cases register : b.state.table.isRegister x with
  | true =>
    obtain ⟨register', named⟩ := renumbers.register x register
    exact (if_pos register').trans (named.trans (if_pos register).symm)
  | false =>
    have node : x ∈ b.graph.adj := (ready.interferes.node x).mpr
      (.inr ((ready.analyzed.referenced_virtual accepted register).mpr mentioned))
    obtain ⟨c, colored, found⟩ :=
      registerOf_node accepted ready.analyzed ready.interferes attempted success node
    obtain ⟨c', colored', found'⟩ := registerOf_node accepted ready'.analyzed ready'.interferes attempted'
      (same.success.trans success) ((alike.twins.node x node).mpr node)
    rw [same.colors x node, colored] at colored'
    cases colored'
    exact Option.some.inj (found'.symm.trans found)

omit valid valid' pointer pointer' twins in
theorem replaced_twin (attempted : Coloring.Attempted rf b.graph attempt)
    (attempted' : Coloring.Attempted rf b'.graph attempt')
    (same : Coloring.Twins (· ∈ b.graph.adj) φ attempt attempt') (success : attempt.success = true) :
    (assignRegisters b'.state.sheet.function rf attempt').2 =
      (assignRegisters b.state.sheet.function rf attempt).2 := by
  obtain ⟨ready, ready', -, -, alike, -⟩ := abreast
  calc (registerMap b'.state.table (chosen b'.state.table rf attempt')).1.length
    _ = (chosen b'.state.table rf attempt').length := registerMap_length _ _
    _ = (Coloring.virtualNodes b'.graph).length :=
      chosen_length accepted ready'.analyzed ready'.interferes attempted' (same.success.trans success)
    _ = (Coloring.virtualNodes b.graph).length := by rw [alike.virtualNodes_map, List.length_map]
    _ = (chosen b.state.table rf attempt).length :=
      (chosen_length accepted ready.analyzed ready.interferes attempted success).symm
    _ = (registerMap b.state.table (chosen b.state.table rf attempt)).1.length := (registerMap_length _ _).symm

omit valid valid' pointer pointer' in
theorem text_twin (attempted : Coloring.Attempted rf b.graph attempt)
    (attempted' : Coloring.Attempted rf b'.graph attempt')
    (same : Coloring.Twins (· ∈ b.graph.adj) φ attempt attempt') (success : attempt.success = true) :
    (assignRegisters b'.state.sheet.function rf attempt').1.text =
      (assignRegisters b.state.sheet.function rf attempt).1.text := by
  have renumbers := abreast.renumbers
  have expanded := abreast.ready.underway.expanded
  have expanded' := abreast.ready'.underway.expanded
  have old : (assignRegisters b.state.sheet.function rf attempt).1.body =
      b.state.sheet.function.body.map (·.rename (replacement b.state.table rf attempt)) := rfl
  have new : (assignRegisters b'.state.sheet.function rf attempt').1.body =
      b.state.sheet.function.body.map (·.rename (replacement b'.state.table rf attempt' ∘ φ)) := by
    rw [assignRegisters_eq, renumbers.body, List.map_map]
    exact List.map_congr_left fun inst _ => Instruction.rename_rename ..
  refine Function.text_of_names ?_ ?_ ?_ old new fun inst member x operand => ?_
  · exact expanded'.name.trans (twins.name.trans expanded.name.symm)
  · exact expanded'.args.trans (twins.args.trans expanded.args.symm)
  · refine expanded'.locals.trans (.trans ?_ expanded.locals.symm)
    rw [twins.locals, List.length_map]
  · have mentioned : b.state.sheet.function.Mentions x := ⟨inst, member, operand⟩
    have known := abreast.ready.analyzed.valid.mentions_lt_size mentioned
    have known' := abreast.ready'.analyzed.valid.mentions_lt_size (mentioned.renamed renumbers.body)
    refine (nameOf_replacement known').trans (.trans ?_ (nameOf_replacement known).symm)
    exact registerOf_twin accepted abreast attempted attempted' same success mentioned

omit valid valid' pointer pointer' in
theorem finish_alike (attempted : Coloring.Attempted rf b.graph attempt)
    (attempted' : Coloring.Attempted rf b'.graph attempt')
    (same : Coloring.Twins (· ∈ b.graph.adj) φ attempt attempt') (success : attempt.success = true) :
    (finish (.colored b attempt) rf attempt).Alike (finish (.colored b' attempt') rf attempt') := by
  have replaced := replaced_twin accepted abreast attempted attempted' same success
  refine ⟨?_, .inl ⟨_, _, rfl, rfl, text_twin accepted twins abreast attempted attempted' same success⟩⟩
  exact congrArg₂ (fun (work : Stats) more => { work with replaced := work.replaced + more }) abreast.stats
    replaced

theorem conclude_paired : Paired rf β f f' sp sp' (conclude rf b) (conclude rf b') := by
  have ready := abreast.ready
  have ready' := abreast.ready'
  obtain ⟨attempt, attempt', found, found', attempted, same⟩ := abreast.alike.color_twins accepted
    ready.analyzed ready'.analyzed ready.interferes ready'.interferes fun x node =>
      temps_twin accepted valid valid' pointer twins abreast node
  obtain ⟨_, again, attempted'⟩ :=
    Coloring.color_attempted accepted ready'.analyzed ready'.interferes b'.state.temps
  cases found'.symm.trans again
  have colored := abreast.colored attempt attempt'
  rw [conclude_eq found, conclude_eq found', same.success, same.bigFail]
  cases success : attempt.success with
  | true => exact .ended (finish_alike accepted twins abreast attempted attempted' same success)
  | false =>
    cases attempt.bigFail with
    | true => exact sweep_paired accepted valid valid' pointer pointer' twins colored attempt attempt'
    | false => exact spill_paired accepted valid valid' pointer pointer' twins colored attempted same

end Twins

section Entries

variable {f₀ f₀' : Function} {s₁ s₁' : Sheet} {lv₀ lv₀' : Liveness} {b₀ b₀' : Built} {n : Nat}
  (accepted : rf.Accepted) (begun : Begun rf f₀ s₁ lv₀ f sp b₀) (begun' : Begun rf f₀' s₁' lv₀' f' sp' b₀')
  (twins : f.Twins β f')

include accepted begun begun' twins

theorem opened_abreast {sheet sheet' : Sheet} (opened : Opened rf s sheet lv b)
    (opened' : Opened rf s' sheet' lv' b') (ready : Ready rf f sp vs tmp lv b)
    (ready' : Ready rf f' sp' (vs.map β) tmp' lv' b')
    (stats : s'.stats = s.stats) : ∃ φ, Abreast rf β φ f f' sp sp' vs tmp tmp' lv lv' b b' := by
  apply exists_abreast accepted begun.valid begun'.valid begun.pointer begun'.pointer twins begun.registers_known
    begun'.registers_known ready ready'
  rw [opened.stats, opened'.stats, stats]

theorem round_paired {sheet sheet' : Sheet} (opened : Opened rf s sheet lv b)
    (opened' : Opened rf s' sheet' lv' b') (abreast : Abreast rf β φ f f' sp sp' vs tmp tmp' lv lv' b b') :
    Paired rf β f f' sp sp' (round rf s) (round rf s') := by
  rw [opened.shape, opened'.shape]
  exact conclude_paired accepted begun.valid begun'.valid begun.pointer begun'.pointer twins abreast

theorem entry_abreast (entered : entry rf n (start f₀ rf) = some s) :
    ∃ s' φ vs tmp tmp' sheet sheet' lv lv' b b', entry rf n (start f₀' rf) = some s' ∧
      Opened rf s sheet lv b ∧ Opened rf s' sheet' lv' b' ∧
      Abreast rf β φ f f' sp sp' vs tmp tmp' lv lv' b b' := by
  induction n generalizing s with
  | zero =>
    cases entered
    obtain ⟨φ, abreast⟩ := opened_abreast accepted begun begun' twins begun.opened begun'.opened
      (begun.ready fun _ x => x) (begun'.ready fun _ x => x) rfl
    exact ⟨_, φ, [], _, _, _, _, _, _, _, _, rfl, begun.opened, begun'.opened, abreast⟩
  | succ n ih =>
    obtain ⟨before, earlier, went⟩ := entry_succ.mp entered
    obtain ⟨before', φ, vs, tmp, tmp', sheet, sheet', lv, lv', b, b', earlier', opened, opened', abreast⟩ :=
      ih earlier
    have paired := round_paired accepted begun begun' twins opened opened' abreast
    rw [went] at paired
    generalize went' : round rf before' = after at paired
    cases paired with
    | spilled underway underway' stats =>
      obtain ⟨_, _, _, next, ready⟩ := round_ready accepted begun.valid begun.pointer underway
      obtain ⟨_, _, _, next', ready'⟩ := round_ready accepted begun'.valid begun'.pointer underway'
      obtain ⟨φ, abreast⟩ := opened_abreast accepted begun begun' twins next next' ready ready' stats
      exact ⟨_, φ, _, _, _, _, _, _, _, _, _, entry_succ.mpr ⟨before', earlier', went'⟩, next, next', abreast⟩

end Entries

theorem allocate_alike {f f' : Function} (accepted : rf.Accepted) (valid : f.Valid rf) (valid' : f'.Valid rf)
    (twins : f.Twins β f') : (f.allocate rf).Alike (f'.allocate rf) := by
  obtain ⟨s₁, lv₀, g, sp, b₀, begun⟩ := start_begun accepted valid
  obtain ⟨s₁', lv₀', g', sp', b₀', begun'⟩ := start_begun accepted valid'
  have grown : g.Twins β g' := by
    rw [begun.same, begun'.same]
    exact twins.withTables valid valid' begun.grown begun'.grown
  obtain ⟨n, s, _, _, _, _, _, _, entered, ended, -, -⟩ := allocate_last accepted valid begun
  obtain ⟨s', φ, vs, tmp, tmp', sheet, sheet', lv, lv', b, b', entered', opened, opened', abreast⟩ :=
    entry_abreast accepted begun begun' grown entered
  have paired := round_paired accepted begun begun' grown opened opened' abreast
  rw [ended] at paired
  generalize ended' : round rf s' = last at paired
  cases paired with
  | ended alike =>
    rw [allocate_of_round accepted valid' begun' entered' ended']
    exact alike

theorem sheet_allocate_eq {s : Sheet} (accepted : rf.Accepted) (valid : s.function.Valid rf)
    (noted : s.notes.length = s.function.body.length) :
    s.allocate rf = (Sheet.ofFunction s.function).allocate rf := by
  simp only [Sheet.allocate, analyze, State.enter, State.report, s.analyze_ofFunction accepted valid noted]

theorem Begun.sheet {f₀ : Function} {s₁ : Sheet} (begun : Begun rf f₀ s₁ lv f sp b) :
    ((Sheet.ofFunction f₀).allocate rf).1 = b.state.sheet := by
  have analysis : (Sheet.ofFunction f₀).analyze = (s₁, .ok lv) := begun.opened.analysis
  rw [begun.opened.built]
  simp only [Sheet.allocate, analyze, State.enter, State.report, analysis, build]

-- The outcome of an allocation depends on the virtual variables only through their order and on whether they
-- are marked as spilled. An allocation leaves more registers in the table than it found, which does not
-- matter to the next one.
theorem twins_allocate_alike {cfg : Config} (s s' : Sheet) (configured : RegisterFile.ofConfig cfg = .ok rf)
    (sound : s.function.table.Sound) (convention : s.function.convention = some rf)
    (clean : s.function.problems = []) (noted : s.notes.length = s.function.body.length)
    (sound' : s'.function.table.Sound) (convention' : s'.function.convention = some rf)
    (clean' : s'.function.problems = []) (noted' : s'.notes.length = s'.function.body.length)
    (twins : s.function.Twins β s'.function) :
    (s.allocate rf).2.Alike (s'.allocate rf).2 ∧ (s.allocate rf).2.Alike ((s.allocate rf).1.allocate rf).2 := by
  have accepted := RegisterFile.accepted_of_ofConfig configured
  have valid := Function.valid_of_problems sound convention clean
  have valid' := Function.valid_of_problems sound' convention' clean'
  obtain ⟨s₁, lv, f, sp, b, begun⟩ := start_begun accepted valid
  have again : b.state.sheet.function.Valid rf := begun.function ▸ begun.valid
  rw [sheet_allocate_eq accepted valid noted, sheet_allocate_eq accepted valid' noted', begun.sheet,
    sheet_allocate_eq accepted again begun.opened.noted]
  have repeated : s.function.Twins id b.state.sheet.function := by
    rw [begun.function, begun.same]
    exact (Function.Twins.refl _).withTables valid valid (.refl _) begun.grown
  exact ⟨allocate_alike accepted valid valid' twins, allocate_alike accepted valid again repeated⟩

def acrossCallRenumbered : Function where
  name := "@f"
  args := 1
  table := (VarTable.internAll { convention := some (.draft threeRegisters) } ["rax", "%unused", "rdi", "%b"]).2
  body := [.assign (.var 3) (.var 2), .call (.name "@g") 1, .assign (.var 0) (.var 3), .ret]

theorem acrossCallRenumbered_twins :
    acrossCall.Twins (fun x => ([3, 2, 0] : List VarId).getD x 0) acrossCallRenumbered := by
  have valid : acrossCall.Valid (.draft threeRegisters) :=
    Function.valid_of_problems acrossCall_sound rfl acrossCall_problems
  have small : acrossCall.table.size = 3 := by decide +kernel
  refine ⟨rfl, rfl, rfl, rfl, fun x mentioned => ?_, by decide +kernel, by decide +kernel, by decide +kernel⟩
  have inside := valid.mentions_lt_size mentioned
  rw [small] at inside
  clear mentioned
  revert x
  decide +kernel

theorem twins_allocate_alike_acrossCall :
    (acrossCall.allocate (.draft threeRegisters)).stats.spills = 1 ∧
      acrossCall.body ≠ acrossCallRenumbered.body ∧
      (acrossCall.allocate (.draft threeRegisters)).Alike
        (acrossCallRenumbered.allocate (.draft threeRegisters)) ∧
      (acrossCall.allocate (.draft threeRegisters)).Alike
        (((Sheet.ofFunction acrossCall).allocate (.draft threeRegisters)).1.allocate
          (.draft threeRegisters)).2 := by
  refine ⟨acrossCall_spills, by decide +kernel, ?_⟩
  exact twins_allocate_alike (.ofFunction acrossCall) (.ofFunction acrossCallRenumbered)
    threeRegisters_configured acrossCall_sound rfl acrossCall_problems rfl
    (VarTable.internAll_sound (VarTable.empty_sound _) _) (by decide +kernel) (by decide +kernel) rfl
    acrossCallRenumbered_twins

end Allocation

end RegisterAllocation
