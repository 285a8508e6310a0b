import Mathlib.Data.List.Dedup
import RegisterAllocation.Proofs.Colorings
import RegisterAllocation.Proofs.Expansion
import RegisterAllocation.Proofs.Rounds

namespace RegisterAllocation

open Spill

def VarTable.virtualsIn (t : VarTable) (ops : List Operand) : List VarId :=
  (ops.filterMap Operand.var?).dedup.filter fun x => !t.isRegister x

def Function.virtuals (f : Function) : List VarId :=
  f.table.virtualsIn (f.body.flatMap Instruction.operands)

theorem VarTable.mem_virtualsIn {t : VarTable} {ops : List Operand} {x : VarId} :
    x ∈ t.virtualsIn ops ↔ .var x ∈ ops ∧ t.isRegister x = false := by
  simp only [virtualsIn, List.mem_filter, List.mem_dedup, List.mem_filterMap, Bool.not_eq_true']
  refine and_congr_left fun _ => ?_
  constructor
  · intro h
    obtain ⟨op, member, found⟩ := h
    cases op <;> simp only [Operand.var?, Option.some.injEq, reduceCtorEq] at found
    exact found ▸ member
  · intro member
    exact ⟨.var x, member, rfl⟩

theorem VarTable.nodup_virtualsIn (t : VarTable) (ops : List Operand) : (t.virtualsIn ops).Nodup :=
  (List.nodup_dedup _).filter _

theorem VarTable.Extends.virtualsIn {t t' : VarTable} (grown : t.Extends t') {ops : List Operand}
    (known : ∀ x, .var x ∈ ops → x < t.size) : t'.virtualsIn ops = t.virtualsIn ops := by
  refine List.filter_congr fun x member => ?_
  obtain ⟨op, operand, found⟩ := List.mem_filterMap.mp (List.mem_dedup.mp member)
  cases op <;> simp only [Operand.var?, Option.some.injEq, reduceCtorEq] at found
  exact congrArg (!·) (grown.isRegister (known x (found ▸ operand)))

theorem Function.mem_virtuals {f : Function} {x : VarId} :
    x ∈ f.virtuals ↔ f.Mentions x ∧ f.table.isRegister x = false := by
  rw [virtuals, VarTable.mem_virtualsIn, List.mem_flatMap]
  rfl

theorem Function.Valid.mentions_lt_size {rf : RegisterFile} {f : Function} {x : VarId}
    (valid : f.Valid rf) (mentioned : f.Mentions x) : x < f.table.size := by
  obtain ⟨inst, member, operand⟩ := mentioned
  exact (valid.resolvable inst member).operands x operand

theorem Expanded.mem_virtuals {rf : RegisterFile} {f g : Function} {sp x : VarId} {vs : List VarId}
    {tmp : Nat → VarId → VarId} (accepted : rf.Accepted) (valid : f.Valid rf)
    (pointer : sp < f.table.size ∧ f.table.nameOf sp = rf.sp) (expanded : Expanded f sp vs tmp g) :
    x ∈ g.virtuals ↔
      (x ∈ f.virtuals ∧ x ∉ vs) ∨ ∃ i, ∃ v ∈ vs, Touches f.body v i ∧ x = tmp i v := by
  have apart : ∀ {x}, g.table.isRegister x = false → x ≠ sp := expanded.ne_pointer valid pointer
  rw [Function.mem_virtuals, Function.mem_virtuals]
  constructor
  · intro h
    obtain ⟨mentioned, virtual⟩ := h
    rcases (expanded.mentions_iff (apart virtual)).mp mentioned with ⟨old, newHome⟩ | temporary
    · exact .inl ⟨⟨old, expanded.grown.isRegister (valid.mentions_lt_size old) ▸ virtual⟩, newHome⟩
    · exact .inr temporary
  · intro either
    rcases either with ⟨⟨old, virtual⟩, newHome⟩ | ⟨i, v, member, touched, rfl⟩
    · have stays : g.table.isRegister x = false := by
        rw [expanded.grown.isRegister (valid.mentions_lt_size old), virtual]
      exact ⟨(expanded.mentions_iff (apart stays)).mpr (.inl ⟨old, newHome⟩), stays⟩
    · have virtual := expanded.temp_virtual accepted valid pointer member touched
      exact ⟨(expanded.mentions_iff (apart virtual)).mpr (.inr ⟨i, v, member, touched, rfl⟩), virtual⟩

theorem Expanded.ne_temp {rf : RegisterFile} {f g : Function} {sp x v : VarId} {vs : List VarId}
    {tmp : Nat → VarId → VarId} {i : Nat} (valid : f.Valid rf) (expanded : Expanded f sp vs tmp g)
    (original : x ∈ f.virtuals) (listed : v ∈ vs) (touched : Touches f.body v i) : x ≠ tmp i v := by
  have known := valid.mentions_lt_size (Function.mem_virtuals.mp original).1
  exact Nat.ne_of_lt (Nat.lt_of_lt_of_le known (expanded.fresh i v listed touched).1)

theorem Sheet.Analyzed.referenced_virtual {rf : RegisterFile} {s : Sheet} {lv : Liveness} {x : VarId}
    (accepted : rf.Accepted) (analyzed : s.Analyzed rf lv) (virtual : s.function.table.isRegister x = false) :
    x ∈ s.referenced ↔ s.function.Mentions x := by
  have sets : ∀ inst ∈ s.function.body, x < s.function.table.size →
      (inst.Uses rf s.function.table x ∨ inst.Defines rf s.function.table x ↔ .var x ∈ inst.operands) := by
    intro inst member known
    obtain ⟨i, here⟩ := List.mem_iff_getElem?.mp member
    obtain ⟨note, -, described⟩ := analyzed.note_of_inst here
    have shown := shown_of_describes accepted known virtual analyzed.valid.sound
      analyzed.valid.convention described
    rw [← described.used, ← described.defined, shown.used, shown.defined, Instruction.mem_operands_iff]
  constructor
  · intro member
    obtain ⟨inst, inside, touched⟩ := analyzed.referenced_iff.mp member
    exact ⟨inst, inside, (sets inst inside (analyzed.referenced_lt_size member)).mp touched⟩
  · intro mentioned
    have known := analyzed.valid.mentions_lt_size mentioned
    obtain ⟨inst, inside, operand⟩ := mentioned
    exact analyzed.referenced_iff.mpr ⟨inst, inside, (sets inst inside known).mpr operand⟩

theorem Sheet.Analyzed.virtuals_eq {rf : RegisterFile} {s : Sheet} {lv : Liveness}
    (accepted : rf.Accepted) (analyzed : s.Analyzed rf lv) :
    Allocation.virtuals s = s.function.virtuals.length := by
  refine List.Perm.length_eq ?_
  have once : s.function.virtuals.Nodup := s.function.table.nodup_virtualsIn _
  rw [List.perm_ext_iff_of_nodup ((VarSet.nodup_toList _).filter _) once]
  intro x
  rw [Function.mem_virtuals, List.mem_filter, Std.ExtTreeSet.mem_toList, Bool.not_eq_true']
  exact and_congr_left fun virtual => analyzed.referenced_virtual accepted virtual

namespace Allocation

variable {rf : RegisterFile} {f : Function} {sp v x : VarId} {vs : List VarId}
  {tmp : Nat → VarId → VarId} {s : State} {b : Built} {lv : Liveness}

def spilledNames (events : List Event) : List String :=
  events.reverse.flatMap fun
    | .spill _ names _ => names
    | _ => []

-- An allocation on its way. `f` is the function as its first analysis left it, and `vs` are the
-- variables spilled since then.
structure Underway (rf : RegisterFile) (f : Function) (sp : VarId) (vs : List VarId)
    (tmp : Nat → VarId → VarId) (s : State) : Prop where
  expanded : Expanded f sp vs tmp s.sheet.function
  noted : s.sheet.notes.length = s.sheet.function.body.length
  temps : ∀ x, x ∈ s.temps ↔ ∃ i, ∃ v ∈ vs, Touches f.body v i ∧ x = tmp i v
  stem : s.names.stem = rf.tempPrefix
  spills : s.stats.spills = vs.length
  originals : ∀ v ∈ vs, v ∈ f.virtuals ∧ f.table.nameOf v ∉ f.spilled

def Left (f : Function) (vs : List VarId) (x : VarId) : Prop :=
  x ∈ f.virtuals ∧ x ∉ vs ∧ f.table.nameOf x ∉ f.spilled

theorem mem_foldl_insert (ids : List VarId) (temps : VarSet) :
    x ∈ ids.foldl (fun temps id => temps.insert id) temps ↔ x ∈ temps ∨ x ∈ ids := by
  induction ids generalizing temps with
  | nil => simp
  | cons id rest ih =>
    rw [List.foldl_cons, ih, VarSet.mem_insert_iff, List.mem_cons]
    tauto

section Spilling

variable (accepted : rf.Accepted) (valid : f.Valid rf)
  (pointer : sp < f.table.size ∧ f.table.nameOf sp = rf.sp)

include accepted valid pointer

theorem spill_one (underway : Underway rf f sp vs tmp s) (left : Left f vs v) :
    ∃ names spilled tmp', (s.sheet.spill v s.names).2 = (names, .ok spilled) ∧
      (∀ name ∈ spilled.temps, name ∈ spilled.function.table.names) ∧
      Underway rf f sp (vs ++ [v]) tmp' { s with
        sheet := Sheet.ofFunction spilled.function
        names := names
        temps := (spilled.temps.filterMap spilled.function.table.id?).foldl
          (fun temps id => temps.insert id) s.temps
        stats := { s.stats with spills := s.stats.spills + 1 } } := by
  obtain ⟨original, newHome, unmarked⟩ := left
  obtain ⟨mentioned, virtual⟩ := Function.mem_virtuals.mp original
  have known := valid.mentions_lt_size mentioned
  have unspilled : s.sheet.function.isSpilled (f.table.nameOf v) = false := by
    rw [Function.isSpilled, Bool.eq_false_iff, ne_eq, Std.ExtTreeSet.contains_iff_mem,
      underway.expanded.spilled]
    intro either
    rcases either with before | now
    · exact unmarked before
    · obtain ⟨w, member, same⟩ := List.mem_map.mp now
      have equal := VarTable.nameOf_inj valid.sound (underway.expanded.originals w member).1 known same
      exact newHome (equal ▸ member)
  have stem : isVirtualName s.names.stem = true := by
    rw [underway.stem]
    exact accepted.tempPrefix
  obtain ⟨names, spilled, tmp', moved, sameStem, expanded, kept, found, temps⟩ :=
    underway.expanded.spill accepted valid pointer underway.noted stem known virtual unspilled
  refine ⟨names, spilled, tmp', moved, found, expanded, ?_, fun x => ?_, sameStem.trans underway.stem, ?_,
    fun w member => ?_⟩
  · simp [Sheet.ofFunction]
  · rw [mem_foldl_insert, temps, underway.temps]
    constructor
    · intro either
      rcases either with ⟨i, w, member, touched, rfl⟩ | ⟨i, touched, rfl⟩
      · exact ⟨i, w, List.mem_append_left _ member, touched, (kept i w member).symm⟩
      · exact ⟨i, v, by simp, touched, rfl⟩
    · intro h
      obtain ⟨i, w, member, touched, rfl⟩ := h
      rcases List.mem_append.mp member with old | new
      · exact .inl ⟨i, w, old, touched, kept i w old⟩
      · cases List.mem_singleton.mp new
        exact .inr ⟨i, touched, rfl⟩
  · simp [underway.spills]
  · rcases List.mem_append.mp member with old | new
    · exact underway.originals w old
    · cases List.mem_singleton.mp new
      exact ⟨original, unmarked⟩

theorem spillEach_underway (victims : List VarId) (distinct : victims.Nodup)
    (underway : Underway rf f sp vs tmp s) (left : ∀ v ∈ victims, Left f vs v) :
    ∃ s' tmp', spillEach s victims = (s', none) ∧ Underway rf f sp (vs ++ victims) tmp' s' ∧
      s'.events = s.events ∧ s'.stats = { s.stats with spills := s.stats.spills + victims.length } := by
  induction victims generalizing vs tmp s with
  | nil => exact ⟨s, tmp, rfl, by simpa using underway, rfl, rfl⟩
  | cons v rest ih =>
    obtain ⟨once, distinct⟩ := List.nodup_cons.mp distinct
    obtain ⟨names, spilled, tmp₁, moved, -, next⟩ :=
      spill_one accepted valid pointer underway (left v List.mem_cons_self)
    have later : ∀ w ∈ rest, Left f (vs ++ [v]) w := by
      intro w member
      obtain ⟨original, newHome, unmarked⟩ := left w (List.mem_cons_of_mem _ member)
      refine ⟨original, ?_, unmarked⟩
      rw [List.mem_append, List.mem_singleton]
      intro either
      rcases either with old | rfl
      · exact newHome old
      · exact once member
    obtain ⟨s', tmp', done, underway', events, stats⟩ := ih distinct next later
    refine ⟨s', tmp', ?_, by simpa using underway', events, ?_⟩
    · rw [spillEach]
      cases whole : s.sheet.spill v s.names with
      | mk sheet result =>
        rw [whole] at moved
        cases moved
        exact done
    · rw [stats, List.length_cons, Nat.add_assoc, Nat.add_comm 1]

omit accepted valid pointer in
theorem Underway.report (underway : Underway rf f sp vs tmp s) (e : Event) :
    Underway rf f sp vs tmp (s.report e) :=
  ⟨underway.expanded, underway.noted, underway.temps, underway.stem, underway.spills, underway.originals⟩

omit accepted valid pointer in
theorem Underway.sweeping (underway : Underway rf f sp vs tmp s) (victims : List VarId) :
    Underway rf f sp vs tmp (s.sweeping victims) :=
  ⟨underway.expanded, underway.noted, underway.temps, underway.stem, underway.spills, underway.originals⟩

omit accepted pointer in
theorem map_nameOf_victims {victims : List VarId} (underway : Underway rf f sp vs tmp s)
    (left : ∀ v ∈ victims, Left f vs v) : victims.map s.table.nameOf = victims.map f.table.nameOf := by
  refine List.map_congr_left fun v member => ?_
  exact underway.expanded.grown.nameOf
    (valid.mentions_lt_size (Function.mem_virtuals.mp (left v member).1).1)

theorem spillAll_underway (victims : List VarId) (distinct : victims.Nodup)
    (underway : Underway rf f sp vs tmp s) (left : ∀ v ∈ victims, Left f vs v) :
    ∃ s' tmp', spillAll s victims = .ok s' ∧ Underway rf f sp (vs ++ victims) tmp' s' ∧
      spilledNames s'.events = spilledNames s.events ++ victims.map f.table.nameOf ∧
      s'.stats = { s.stats with spills := s.stats.spills + victims.length } := by
  obtain ⟨s', tmp', done, underway', events, stats⟩ :=
    spillEach_underway accepted valid pointer victims distinct underway left
  refine ⟨_, tmp', by rw [spillAll, done], underway'.report _, ?_, stats⟩
  rw [map_nameOf_victims valid underway left]
  simp [State.report, spilledNames, events]

end Spilling

structure Ready (rf : RegisterFile) (f : Function) (sp : VarId) (vs : List VarId)
    (tmp : Nat → VarId → VarId) (lv : Liveness) (b : Built) : Prop where
  underway : Underway rf f sp vs tmp b.state
  analyzed : b.state.sheet.Analyzed rf lv
  interferes : Graph.Interferes rf b.state.sheet lv b.graph

theorem Ready.report (ready : Ready rf f sp vs tmp lv b) (e : Event) :
    Ready rf f sp vs tmp lv { b with state := b.state.report e } :=
  ⟨ready.underway.report e, ready.analyzed, ready.interferes⟩

-- What a round that goes on has done: some variables were spilled, and with a sweep all that were
-- left.
structure Advanced (rf : RegisterFile) (f : Function) (sp : VarId) (vs ws : List VarId)
    (before after : State) : Prop where
  underway : ∃ tmp, Underway rf f sp (vs ++ ws) tmp after
  some_spilled : ws ≠ []
  left : ∀ v ∈ ws, Left f vs v
  logged : spilledNames after.events = spilledNames before.events ++ ws.map f.table.nameOf
  iterations : after.stats.iterations = before.stats.iterations
  sweeps : after.stats.sweeps = before.stats.sweeps ∨
    (after.stats.sweeps = before.stats.sweeps + 1 ∧ ∀ x, ¬Left f (vs ++ ws) x)

section Concluding

variable (accepted : rf.Accepted) (valid : f.Valid rf)
  (pointer : sp < f.table.size ∧ f.table.nameOf sp = rf.sp) (ready : Ready rf f sp vs tmp lv b)

include accepted valid pointer ready

omit accepted in
theorem left_virtual (left : Left f vs x) :
    x ≠ sp ∧ x < f.table.size ∧ b.state.table.isRegister x = false ∧
      b.state.table.nameOf x = f.table.nameOf x := by
  obtain ⟨mentioned, virtual⟩ := Function.mem_virtuals.mp left.1
  have known := valid.mentions_lt_size mentioned
  refine ⟨?_, known, ?_, ready.underway.expanded.grown.nameOf known⟩
  · intro same
    rw [same, valid.pointer_isRegister pointer] at virtual
    cases virtual
  · rw [← virtual]
    exact ready.underway.expanded.grown.isRegister known

theorem left_node (left : Left f vs x) : x ∈ b.graph.adj := by
  obtain ⟨apart, -, virtual, -⟩ := left_virtual valid pointer ready left
  refine (ready.interferes.node x).mpr (.inr ?_)
  rw [ready.analyzed.referenced_virtual accepted virtual, ready.underway.expanded.mentions_iff apart]
  exact .inl ⟨(Function.mem_virtuals.mp left.1).1, left.2.1⟩

theorem virtual_node_cases (node : x ∈ b.graph.adj) (virtual : b.state.table.isRegister x = false) :
    (x ∈ f.virtuals ∧ x ∉ vs) ∨ ∃ i, ∃ v ∈ vs, Touches f.body v i ∧ x = tmp i v := by
  have referenced : x ∈ b.state.sheet.referenced := by
    refine ((ready.interferes.node x).mp node).resolve_left fun allocatable => ?_
    have register := (ready.interferes.isRegister_iff accepted ready.analyzed node).mpr
      (ready.interferes.color_of_allocatable allocatable)
    exact absurd register (Bool.eq_false_iff.mp virtual)
  apply (ready.underway.expanded.mem_virtuals accepted valid pointer).mp
  refine Function.mem_virtuals.mpr ⟨?_, virtual⟩
  exact (ready.analyzed.referenced_virtual accepted virtual).mp referenced

theorem spillable_iff (node : x ∈ b.graph.adj) : b.state.spillable x = true ↔ Left f vs x := by
  have expanded := ready.underway.expanded
  simp only [State.spillable, Bool.and_eq_true, Bool.not_eq_true', Bool.eq_false_iff, ne_eq,
    Std.ExtTreeSet.contains_iff_mem, Function.isSpilled, expanded.spilled, not_or]
  constructor
  · intro h
    obtain ⟨⟨virtual, ordinary⟩, unmarked, -⟩ := h
    have plain := Bool.eq_false_iff.mpr virtual
    rcases virtual_node_cases accepted valid pointer ready node plain with ⟨original, newHome⟩ | temporary
    · have known := valid.mentions_lt_size (Function.mem_virtuals.mp original).1
      rw [State.table, expanded.grown.nameOf known] at unmarked
      exact ⟨original, newHome, unmarked⟩
    · exact absurd ((ready.underway.temps x).mpr temporary) ordinary
  · intro left
    obtain ⟨-, known, virtual, named⟩ := left_virtual valid pointer ready left
    obtain ⟨-, newHome, unmarked⟩ := left
    refine ⟨⟨by simp [virtual], fun temporary => ?_⟩, by rwa [named], fun now => ?_⟩
    · obtain ⟨i, v, member, touched, rfl⟩ := (ready.underway.temps x).mp temporary
      exact absurd known (Nat.not_lt.mpr (expanded.fresh i v member touched).1)
    · obtain ⟨w, member, same⟩ := List.mem_map.mp now
      rw [named] at same
      exact newHome (VarTable.nameOf_inj valid.sound (expanded.originals w member).1 known same ▸ member)

theorem sweep_cases (attempt : Coloring) :
    (∃ (s : State) (uncolored : List String), (∀ x, ¬Left f vs x) ∧ s.stats = b.state.stats ∧
      sweep b attempt = .error (s.fail (.nothingToSpill f.name uncolored))) ∨
    ∃ ws s, sweep b attempt = .ok s ∧ Advanced rf f sp vs ws b.state s := by
  have victims : ∀ x, x ∈ b.graph.nodes.filter b.state.spillable ↔ Left f vs x := by
    intro x
    rw [List.mem_filter, Graph.mem_nodes]
    constructor
    · intro h
      obtain ⟨node, able⟩ := h
      exact (spillable_iff accepted valid pointer ready node).mp able
    · intro left
      have node := left_node accepted valid pointer ready left
      exact ⟨node, (spillable_iff accepted valid pointer ready node).mpr left⟩
  have distinct := b.graph.nodup_nodes.filter b.state.spillable
  cases chosen : b.graph.nodes.filter b.state.spillable with
  | nil =>
    refine .inl ⟨b.state.enter .sweep, attempt.uncolored.map b.state.table.nameOf, fun x left => ?_, rfl, ?_⟩
    · simpa [chosen] using (victims x).mpr left
    · rw [sweep_nil chosen, ready.underway.expanded.name]
  | cons first rest =>
    rw [chosen] at victims distinct
    obtain ⟨s, tmp', done, underway, logged, stats⟩ := spillAll_underway accepted valid pointer
      (first :: rest) distinct (ready.underway.sweeping _) fun v => (victims v).mp
    have iterations := congrArg Stats.iterations stats
    have sweeps := congrArg Stats.sweeps stats
    refine .inr ⟨first :: rest, s, ?_, ⟨tmp', underway⟩, List.cons_ne_nil _ _, fun v => (victims v).mp, ?_,
      iterations, .inr ⟨sweeps, fun x left => ?_⟩⟩
    · rw [sweep_cons chosen, done]
    · simpa [State.sweeping, State.enter, State.report, spilledNames] using logged
    · obtain ⟨original, newHome, unmarked⟩ := left
      rw [List.mem_append, not_or] at newHome
      exact newHome.2 ((victims x).mpr ⟨original, newHome.1, unmarked⟩)

theorem spill_cases {attempt : Coloring} (attempted : Coloring.Attempted rf b.graph attempt) :
    (∃ (s : State) (uncolored : List String), (∀ x, ¬Left f vs x) ∧ s.stats = b.state.stats ∧
      spill b attempt = .error (s.fail (.nothingToSpill f.name uncolored))) ∨
    ∃ ws s, spill b attempt = .ok s ∧ Advanced rf f sp vs ws b.state s := by
  have node : ∀ x ∈ attempt.uncolored, x ∈ b.graph.adj := fun x member =>
    (Coloring.mem_virtualNodes.mp (attempted.uncolored x member)).1
  have distinct := attempted.once.filter b.state.spillable
  have ready' : Ready rf f sp vs tmp lv { b with state := b.state.enter .spill } := ready.report _
  cases chosen : attempt.uncolored.filter b.state.spillable with
  | nil =>
    rw [spill_nil chosen]
    rcases sweep_cases accepted valid pointer ready' attempt with ended | ⟨ws, s, done, advanced⟩
    · exact .inl ended
    · refine .inr ⟨ws, s, done, advanced.underway, advanced.some_spilled, advanced.left, ?_,
        advanced.iterations, advanced.sweeps⟩
      simpa [State.enter, State.report, spilledNames] using advanced.logged
  | cons first rest =>
    have left : ∀ v ∈ first :: rest, Left f vs v := by
      intro v member
      rw [← chosen, List.mem_filter] at member
      exact (spillable_iff accepted valid pointer ready (node v member.1)).mp member.2
    rw [chosen] at distinct
    obtain ⟨s, tmp', done, underway, logged, stats⟩ := spillAll_underway accepted valid pointer
      (first :: rest) distinct ready'.underway left
    have iterations := congrArg Stats.iterations stats
    have sweeps := congrArg Stats.sweeps stats
    refine .inr ⟨first :: rest, s, ?_, ⟨tmp', underway⟩, List.cons_ne_nil _ _, left, ?_, iterations,
      .inl sweeps⟩
    · rw [spill_cons chosen, done]
    · simpa [State.enter, State.report, spilledNames] using logged

theorem conclude_cases :
    ∃ attempt, Coloring.color b.graph b.state.sheet.function rf b.state.temps = .ok attempt ∧
      Coloring.Attempted rf b.graph attempt ∧
      ((attempt.success = true ∧ ∃ s : State, s.sheet = b.state.sheet ∧ s.stats = b.state.stats ∧
          conclude rf b = .error (finish s rf attempt)) ∨
        (attempt.success = false ∧ ∃ (s : State) (uncolored : List String), (∀ x, ¬Left f vs x) ∧
          s.stats = b.state.stats ∧
          conclude rf b = .error (s.fail (.nothingToSpill f.name uncolored))) ∨
        ∃ ws s, conclude rf b = .ok s ∧ Advanced rf f sp vs ws b.state s) := by
  obtain ⟨attempt, colored, attempted⟩ :=
    Coloring.color_attempted accepted ready.analyzed ready.interferes b.state.temps
  refine ⟨attempt, colored, attempted, ?_⟩
  have shape := conclude_eq colored
  have ready' : Ready rf f sp vs tmp lv { b with state := .colored b attempt } := (ready.report _).report _
  have logged : spilledNames (State.colored b attempt).events = spilledNames b.state.events := by
    simp [State.colored, State.enter, State.report, spilledNames]
  cases success : attempt.success with
  | true =>
    rw [success, if_pos rfl] at shape
    exact .inl ⟨rfl, .colored b attempt, rfl, rfl, shape⟩
  | false =>
    rw [success, if_neg Bool.false_ne_true] at shape
    have goes : (∃ (s' : State) (uncolored : List String), (∀ x, ¬Left f vs x) ∧ s'.stats = b.state.stats ∧
          conclude rf b = .error (s'.fail (.nothingToSpill f.name uncolored))) ∨
        ∃ ws s', conclude rf b = .ok s' ∧ Advanced rf f sp vs ws (.colored b attempt) s' := by
      rw [shape]
      split
      · exact sweep_cases accepted valid pointer ready' attempt
      · exact spill_cases accepted valid pointer ready' attempted
    rcases goes with ended | ⟨ws, s', done, advanced⟩
    · exact .inr (.inl ⟨rfl, ended⟩)
    · exact .inr (.inr ⟨ws, s', done, advanced.underway, advanced.some_spilled, advanced.left,
        logged ▸ advanced.logged, advanced.iterations, advanced.sweeps⟩)

end Concluding

structure Opened (rf : RegisterFile) (s : State) (sheet : Sheet) (lv : Liveness) (b : Built) : Prop where
  analysis : s.sheet.analyze = (sheet, .ok lv)
  analyzed : sheet.Analyzed rf lv
  shape : round rf s = conclude rf b
  built : b.state.sheet = (Graph.build sheet lv rf).2
  graph : b.graph = (Graph.build sheet lv rf).1
  names : b.state.names = s.names
  temps : b.state.temps = s.temps
  stats : b.state.stats = { s.stats with iterations := s.stats.iterations + 1 }
  logged : spilledNames b.state.events = spilledNames s.events

theorem exists_opened {sheet : Sheet} (analysis : s.sheet.analyze = (sheet, .ok lv))
    (analyzed : sheet.Analyzed rf lv) :
    ∃ b, Opened rf s sheet lv b ∧ (analyze s).1.sheet = sheet := by
  have step : (s.enter .analyze).sheet.analyze = (sheet, .ok lv) := analysis
  have entered : (analyze s).1.sheet = sheet := by simp only [analyze, step]
  refine ⟨build (analyze s).1 lv rf, ⟨analysis, analyzed, ?_, ?_, ?_, ?_, ?_, ?_, ?_⟩, entered⟩
  · simp only [round, analyze, step]
  all_goals simp only [analyze, step, build]
  all_goals simp [State.enter, State.report, spilledNames]

theorem Opened.analyzed_built {sheet : Sheet} (opened : Opened rf s sheet lv b) :
    b.state.sheet.Analyzed rf lv := by
  rw [opened.built]
  exact Graph.build_analyzed opened.analyzed

theorem Opened.interferes {sheet : Sheet} (accepted : rf.Accepted) (opened : Opened rf s sheet lv b) :
    Graph.Interferes rf b.state.sheet lv b.graph := by
  rw [opened.built, opened.graph]
  exact Graph.build_interferes accepted opened.analyzed

theorem Opened.function {sheet : Sheet} (opened : Opened rf s sheet lv b)
    (same : sheet.function = { s.sheet.function with table := sheet.function.table }) :
    b.state.sheet.function = { s.sheet.function with
      table := (sheet.function.table.internAll rf.registers).2 } := by
  rw [opened.built, Graph.build_snd, Sheet.withTable, same]

theorem Opened.noted {sheet : Sheet} (opened : Opened rf s sheet lv b) :
    b.state.sheet.notes.length = b.state.sheet.function.body.length :=
  opened.analyzed_built.notes_length

theorem round_ready (accepted : rf.Accepted) (valid : f.Valid rf)
    (pointer : sp < f.table.size ∧ f.table.nameOf sp = rf.sp) (underway : Underway rf f sp vs tmp s) :
    ∃ sheet lv b, Opened rf s sheet lv b ∧ Ready rf f sp vs tmp lv b := by
  obtain ⟨sheet, lv, found, analyzed, same, grown⟩ := Sheet.analyze_valid accepted
    (underway.expanded.stays_valid valid pointer) underway.noted
  obtain ⟨b, opened, -⟩ := exists_opened found analyzed
  have registers := VarTable.internAll_extends sheet.function.table rf.registers
  have sound := VarTable.internAll_sound analyzed.valid.sound rf.registers
  refine ⟨sheet, lv, b, opened, ⟨?_, opened.noted, ?_, ?_, ?_, underway.originals⟩, opened.analyzed_built,
    opened.interferes accepted⟩
  · rw [opened.function same]
    exact underway.expanded.withTable (grown.trans registers) sound
  · rw [opened.temps]
    exact underway.temps
  · rw [opened.names]
    exact underway.stem
  · rw [opened.stats]
    exact underway.spills

structure Begun (rf : RegisterFile) (f₀ : Function) (s₁ : Sheet) (lv : Liveness) (f : Function) (sp : VarId)
    (b : Built) : Prop where
  opened : Opened rf (start f₀ rf) s₁ lv b
  same : f = { f₀ with table := f.table }
  grown : f₀.table.Extends f.table
  function : b.state.sheet.function = f
  valid : f.Valid rf
  pointer : sp < f.table.size ∧ f.table.nameOf sp = rf.sp
  ready : ∀ tmp, Ready rf f sp [] tmp lv b
  sameVirtuals : f.virtuals = f₀.virtuals
  count : virtuals (analyze (start f₀ rf)).1.sheet = f₀.virtuals.length

theorem virtuals_withTable {f₀ : Function} {t : VarTable} (valid : f₀.Valid rf)
    (grown : f₀.table.Extends t) : Function.virtuals { f₀ with table := t } = f₀.virtuals := by
  refine grown.virtualsIn fun x member => ?_
  obtain ⟨inst, inside, operand⟩ := List.mem_flatMap.mp member
  exact (valid.resolvable inst inside).operands x operand

theorem start_begun {f₀ : Function} (accepted : rf.Accepted) (valid : f₀.Valid rf) :
    ∃ s₁ lv f sp b, Begun rf f₀ s₁ lv f sp b := by
  have noted : (Sheet.ofFunction f₀).notes.length = f₀.body.length := by simp [Sheet.ofFunction]
  obtain ⟨sheet, lv, found, analyzed, same, grown⟩ := Sheet.analyze_valid (s := Sheet.ofFunction f₀) accepted
    valid noted
  obtain ⟨b, opened, entered⟩ := exists_opened (s := start f₀ rf) found analyzed
  have registers := VarTable.internAll_extends sheet.function.table rf.registers
  have sound := VarTable.internAll_sound analyzed.valid.sound rf.registers
  obtain ⟨sp, known, named⟩ := VarTable.exists_of_mem_names (Graph.build_analyzed analyzed).pointer
  have function := opened.function same
  have all : f₀.table.Extends (sheet.function.table.internAll rf.registers).2 := grown.trans registers
  refine ⟨sheet, lv, _, sp, b, opened, rfl, all, function, valid.withTable all sound, ⟨known, named⟩,
    fun tmp => ⟨⟨?_, opened.noted, ?_, ?_, ?_, by simp⟩, opened.analyzed_built, opened.interferes accepted⟩,
    virtuals_withTable valid all, ?_⟩
  · rw [function]
    exact Expanded.refl _ sp tmp sound
  · rw [opened.temps]
    simp [start]
  · rw [opened.names]
    rfl
  · rw [opened.stats]
    rfl
  · rw [entered, analyzed.virtuals_eq accepted, same]
    exact congrArg List.length (virtuals_withTable valid grown)

end Allocation

end RegisterAllocation
