import RegisterAllocation.Proofs.Simplification
import RegisterAllocation.Proofs.TwinGraphs

namespace RegisterAllocation

namespace Graph

variable {g : Graph} {set around : VarSet} {x : VarId}

def crowd (g : Graph) (set : VarSet) (x : VarId) : Nat :=
  ((g.neighbors x).filter fun y => set.contains y || (g.color? y).isSome).length

theorem crowd_le (counted : ∀ y ∈ g.neighborSet x, y ∈ set ∨ (g.color? y).isSome → y ∈ around) :
    g.crowd set x ≤ around.size := by
  rw [crowd, ← Std.ExtTreeSet.length_toList]
  refine (List.subperm_of_subset ((VarSet.nodup_toList _).filter _) fun y member => ?_).length_le
  obtain ⟨edge, among⟩ := List.mem_filter.mp member
  rw [Bool.or_eq_true, Std.ExtTreeSet.contains_iff_mem] at among
  exact Std.ExtTreeSet.mem_toList.mpr (counted y (mem_neighbors.mp edge) among)

theorem le_crowd (counted : ∀ y ∈ around, y ∈ g.neighborSet x ∧ (y ∈ set ∨ (g.color? y).isSome)) :
    around.size ≤ g.crowd set x := by
  rw [crowd, ← Std.ExtTreeSet.length_toList]
  refine (List.subperm_of_subset (VarSet.nodup_toList _) fun y member => ?_).length_le
  obtain ⟨edge, among⟩ := counted y (Std.ExtTreeSet.mem_toList.mp member)
  rw [← Std.ExtTreeSet.contains_iff_mem, ← Bool.or_eq_true] at among
  exact List.mem_filter.mpr ⟨mem_neighbors.mpr edge, among⟩

end Graph

namespace Coloring

variable {rf : RegisterFile} {g g' w : Graph} {temps : VarSet} {set : VarSet} {gone : List VarId}
  {x : VarId} {k : Nat} {s s' : Simplifying}

-- Variables that each have as many neighbours among themselves and the registers as there are colors.
structure Core (g : Graph) (k : Nat) (set : VarSet) : Prop where
  inhabited : ∃ x, x ∈ set
  virtual : ∀ x ∈ set, x ∈ virtualNodes g
  crowded : ∀ x ∈ set, k ≤ g.crowd set x

theorem core_of_stuck (without : g.Without gone w)
    (stuck : ∀ x ∈ virtualNodes g, x ∈ w.adj → k ≤ w.degree x)
    (some_left : (virtualNodes g).filter w.hasNode ≠ []) :
    Core g k (.ofList ((virtualNodes g).filter w.hasNode)) := by
  have left : ∀ x, x ∈ Std.ExtTreeSet.ofList ((virtualNodes g).filter w.hasNode) ↔
      x ∈ virtualNodes g ∧ x ∈ w.adj := by
    intro x
    rw [Std.ExtTreeSet.mem_ofList, List.contains_iff_mem, List.mem_filter, Graph.hasNode_iff]
  refine ⟨?_, fun x member => ((left x).mp member).1, fun x member => ?_⟩
  · obtain ⟨x, member⟩ := List.exists_mem_of_ne_nil _ some_left
    obtain ⟨virtual, node⟩ := List.mem_filter.mp member
    exact ⟨x, (left x).mpr ⟨virtual, Graph.hasNode_iff.mp node⟩⟩
  · obtain ⟨virtual, node⟩ := (left x).mp member
    refine Nat.le_trans (stuck x virtual node) (Graph.le_crowd fun y edge => ⟨?_, ?_⟩)
    · exact ((without.edge x y).mp edge).1
    · have present := without.formed.node x y edge
      cases own : g.color? y with
      | some c => exact .inr rfl
      | none =>
        have known := ((without.node y).mp present).1
        exact .inl ((left y).mpr ⟨mem_virtualNodes.mpr ⟨known, own⟩, present⟩)

namespace Core

variable (core : Core g k set)

include core

theorem le_degree (without : g.Without gone w) (virtual : ∀ x ∈ gone, x ∈ virtualNodes g)
    (present : ∀ x ∈ set, x ∈ w.adj) : ∀ x ∈ set, k ≤ w.degree x := by
  intro x member
  refine Nat.le_trans (core.crowded x member) (Graph.crowd_le fun y edge among => ?_)
  have kept : y ∉ gone := by
    intro picked
    rcases among with other | register
    · exact ((without.node y).mp (present y other)).2 picked
    · simp [(mem_virtualNodes.mp (virtual y picked)).2] at register
  exact (without.edge x y).mpr ⟨edge, ((without.node x).mp (present x member)).2, kept⟩

end Core

namespace Simplifying

theorem Traced.virtual (traced : Traced rf g temps s) : ∀ x ∈ s.picks.map Pick.node, x ∈ virtualNodes g := by
  intro x picked
  obtain ⟨p, made, rfl⟩ := List.mem_map.mp picked
  obtain ⟨later, earlier, split⟩ := List.append_of_mem made
  exact (traced.justified later p earlier split).present.1

theorem Traced.core_next (traced : Traced rf g temps s) (core : Core g rf.k set)
    (next : s.next? rf (virtualNodes g) temps = some s')
    (kept : s.optimistic = 0 → ∀ x ∈ set, x ∈ s.graph.adj) :
    s'.optimistic = 0 → ∀ x ∈ set, x ∈ s'.graph.adj := by
  rcases next?_eq_some_iff.mp next with ⟨x, found, rfl⟩ | ⟨-, -, x, -, rfl⟩
  · intro none y member
    rw [optimistic_take_low] at none
    have present := kept none
    have other : y ≠ x := by
      rintro rfl
      have many := core.le_degree traced.graph traced.virtual present y member
      exact Nat.not_lt.mpr many (low?_degree found)
    exact traced.graph.formed.mem_remove.mpr ⟨present y member, other⟩
  · intro none
    rw [optimistic_take] at none
    cases none

end Simplifying

theorem core_left (formed : g.WellFormed) (core : Core g rf.k set)
    (none : (simplified g rf temps).optimistic = 0) : ∀ x ∈ set, x ∈ (simplified g rf temps).graph.adj := by
  have run := Simplifying.run_keeps rf (virtualNodes g) temps
    (P := fun s => s.Traced rf g temps ∧ (s.optimistic = 0 → ∀ x ∈ set, x ∈ s.graph.adj))
    (fun s s' next both => ⟨both.1.next next, both.1.core_next core next both.2⟩)
    (virtualNodes g).length
    ⟨Simplifying.start_traced formed, fun _ x member => (mem_virtualNodes.mp (core.virtual x member)).1⟩
  exact run.2 none

theorem simplified_stuck {f : Function} (pinned : g.Pinned rf f.table)
    (some_left : (simplified g rf temps).remaining (virtualNodes g) ≠ []) :
    low? rf (virtualNodes g) (simplified g rf temps).graph = none ∧
      (simplified g rf temps).optimistic = rf.retry := by
  have ended := (Simplifying.run_ends rf temps (s := ⟨g, []⟩) (nodup_virtualNodes g)
    (start_partition pinned)).resolve_left some_left
  obtain ⟨stuck, spent⟩ := (Simplifying.next?_eq_none some_left).mp ended
  exact ⟨stuck, Nat.le_antisymm (simplified_traced rf temps pinned.formed).budget spent⟩

theorem core_of_optimistic (formed : g.WellFormed) (some_pick : 0 < (simplified g rf temps).optimistic) :
    ∃ set, Core g rf.k set := by
  obtain ⟨p, made, optimistic⟩ := List.countP_pos_iff.mp some_pick
  obtain ⟨later, earlier, split⟩ := List.append_of_mem made
  have justified := (simplified_traced rf temps formed).justified later p earlier split
  obtain ⟨virtual, present⟩ := justified.present
  refine ⟨_, core_of_stuck justified.graph (justified.crowded optimistic) (List.ne_nil_of_mem (a := p.node) ?_)⟩
  exact List.mem_filter.mpr ⟨virtual, Graph.hasNode_iff.mpr present⟩

section Follows

variable {f : Function} {attempt : Coloring} (pinned : g.Pinned rf f.table)
  (follows : Follows g (simplified g rf temps) attempt)

include pinned follows

theorem core_of_bigFail (failed : attempt.bigFail = true) :
    attempt.optimistic = rf.retry + 1 ∧ attempt.colors = ∅ ∧ Core g rf.k (.ofList attempt.uncolored) := by
  obtain ⟨stuck, spent⟩ := simplified_stuck pinned (follows.bigFail.mp failed)
  rw [follows.gaveUp failed, spent]
  refine ⟨rfl, rfl, ?_⟩
  exact core_of_stuck (simplified_traced rf temps pinned.formed).graph (low?_eq_none_iff.mp stuck)
    (follows.bigFail.mp failed)

theorem bigFail_iff : attempt.bigFail = true ↔ attempt.optimistic = rf.retry + 1 := by
  refine ⟨fun failed => (core_of_bigFail pinned follows failed).1, fun spent => ?_⟩
  cases failed : attempt.bigFail with
  | true => rfl
  | false =>
    have budget := (simplified_traced rf temps pinned.formed).budget
    rw [← follows.optimistic failed, spent] at budget
    exact absurd budget (Nat.not_succ_le_self _)

theorem optimistic_le : attempt.optimistic ≤ rf.retry + 1 := by
  cases failed : attempt.bigFail with
  | true => exact Nat.le_of_eq ((bigFail_iff pinned follows).mp failed)
  | false =>
    rw [follows.optimistic failed]
    exact Nat.le_succ_of_le (simplified_traced rf temps pinned.formed).budget

theorem optimistic_pos_iff : 0 < attempt.optimistic ↔ ∃ set, Core g rf.k set := by
  constructor
  · intro some_pick
    cases failed : attempt.bigFail with
    | true => exact ⟨_, (core_of_bigFail pinned follows failed).2.2⟩
    | false =>
      rw [follows.optimistic failed] at some_pick
      exact core_of_optimistic pinned.formed some_pick
  · intro h
    obtain ⟨set, core⟩ := h
    apply Nat.pos_of_ne_zero
    intro none
    have finished : attempt.bigFail = false := by
      cases failed : attempt.bigFail with
      | false => rfl
      | true => simp [(bigFail_iff pinned follows).mp failed] at none
    rw [follows.optimistic finished] at none
    obtain ⟨x, member⟩ := core.inhabited
    have left := core_left pinned.formed core none x member
    have failed := follows.bigFail.mpr (List.ne_nil_of_mem (a := x)
      (List.mem_filter.mpr ⟨core.virtual x member, Graph.hasNode_iff.mpr left⟩))
    simp [finished] at failed

end Follows

theorem color_low {sheet : Sheet} {lv : Liveness} (accepted : rf.Accepted) (analyzed : sheet.Analyzed rf lv)
    (interferes : Graph.Interferes rf sheet lv g) (temps : VarSet)
    (low : ∀ x ∈ virtualNodes g, g.degree x < rf.k) :
    ∃ attempt, color g sheet.function rf temps = .ok attempt ∧ attempt.success = true := by
  -- With fewer neighbours than registers at every variable there is no core, so the attempt succeeds.
  have pinned := interferes.pinned accepted analyzed
  obtain ⟨attempt, colored, attempted, follows⟩ := color_follows pinned temps
  have none : attempt.optimistic = 0 := by
    by_contra some_pick
    obtain ⟨set, core⟩ := (optimistic_pos_iff pinned follows).mp (Nat.pos_of_ne_zero some_pick)
    obtain ⟨x, member⟩ := core.inhabited
    have many : rf.k ≤ g.degree x :=
      Nat.le_trans (core.crowded x member) (Graph.crowd_le fun y edge _ => edge)
    exact Nat.not_lt.mpr many (low x (core.virtual x member))
  have finished : attempt.bigFail = false := by
    rw [← Bool.not_eq_true, bigFail_iff pinned follows, none]
    exact Nat.zero_ne_add_one _
  have uncolored := follows.uncolored_le attempted finished
  rw [none, Nat.le_zero, List.length_eq_zero_iff] at uncolored
  exact ⟨attempt, colored, by simp [success, finished, uncolored]⟩

structure Renumbered (φ : VarId → VarId) (g g' : Graph) : Prop where
  twins : Graph.Twins (· ∈ g.adj) φ g g'
  registers : ∀ x ∈ g.adj, (g'.color? (φ x)).isSome = (g.color? x).isSome

theorem renumbered_of_nodes {φ : VarId → VarId} (formed : g.WellFormed) (formed' : g'.WellFormed)
    (onto : ∀ y ∈ g'.nodes, ∃ x ∈ g.nodes, φ x = y)
    (same : ∀ x ∈ g.nodes, φ x ∈ g'.nodes ∧ (g'.color? (φ x)).isSome = (g.color? x).isSome ∧
      ∀ y ∈ g.nodes, (φ x = φ y → x = y) ∧ (φ y ∈ g'.neighbors (φ x) ↔ y ∈ g.neighbors x)) :
    Renumbered φ g g' := by
  simp only [Graph.mem_nodes, Graph.mem_neighbors] at onto same
  refine ⟨⟨formed, formed', fun _ node => node, onto, fun x y left right => ((same x left).2.2 y right).1,
    fun x node => ⟨fun _ => node, fun _ => (same x node).1⟩,
    fun x y left right => ((same x left).2.2 y right).2⟩, fun x node => (same x node).2.1⟩

namespace Renumbered

variable {φ : VarId → VarId} {set' : VarSet} (renumbered : Renumbered φ g g')

include renumbered

theorem mem_virtualNodes (node : x ∈ g.adj) : φ x ∈ virtualNodes g' ↔ x ∈ virtualNodes g := by
  rw [Coloring.mem_virtualNodes, Coloring.mem_virtualNodes, renumbered.twins.node x node,
    ← Option.isNone_iff_eq_none, ← Option.isNone_iff_eq_none, ← Option.not_isSome, ← Option.not_isSome,
    renumbered.registers x node]

theorem crowd (same : ∀ y ∈ g.adj, φ y ∈ set' ↔ y ∈ set) (node : x ∈ g.adj) :
    g'.crowd set' (φ x) = g.crowd set x := by
  have counted : ∀ y ∈ g.neighbors x, (set'.contains (φ y) || (g'.color? (φ y)).isSome) =
      (set.contains y || (g.color? y).isSome) := by
    intro y edge
    have known := renumbered.twins.formed.node x y (Graph.mem_neighbors.mp edge)
    rw [renumbered.registers y known, Bool.eq_iff_iff, Bool.or_eq_true, Bool.or_eq_true,
      Std.ExtTreeSet.contains_iff_mem, Std.ExtTreeSet.contains_iff_mem, same y known]
  have moved := (renumbered.twins.neighbors_perm node).filter fun y =>
    set'.contains y || (g'.color? y).isSome
  rw [filter_map_of counted] at moved
  rw [Graph.crowd, Graph.crowd, moved.length_eq, List.length_map]

theorem core_iff (same : ∀ y ∈ g.adj, φ y ∈ set' ↔ y ∈ set) (nodes : ∀ x ∈ set, x ∈ g.adj)
    (nodes' : ∀ y ∈ set', y ∈ g'.adj) : Core g' k set' ↔ Core g k set := by
  have image : ∀ y ∈ set', ∃ x ∈ set, φ x = y := by
    intro y member
    obtain ⟨x, node, rfl⟩ := renumbered.twins.reached y (nodes' y member)
    exact ⟨x, (same x node).mp member, rfl⟩
  constructor
  · intro core
    refine ⟨?_, fun x member => ?_, fun x member => ?_⟩
    · obtain ⟨y, member⟩ := core.inhabited
      obtain ⟨x, inside, -⟩ := image y member
      exact ⟨x, inside⟩
    all_goals
      have node := nodes x member
      have moved := (same x node).mpr member
    · exact (renumbered.mem_virtualNodes node).mp (core.virtual _ moved)
    · rw [← renumbered.crowd same node]
      exact core.crowded _ moved
  · intro core
    refine ⟨?_, fun y member => ?_, fun y member => ?_⟩
    · obtain ⟨x, member⟩ := core.inhabited
      exact ⟨φ x, (same x (nodes x member)).mpr member⟩
    all_goals obtain ⟨x, inside, rfl⟩ := image y member
    · exact (renumbered.mem_virtualNodes (nodes x inside)).mpr (core.virtual x inside)
    · rw [renumbered.crowd same (nodes x inside)]
      exact core.crowded x inside

theorem exists_core_iff : (∃ set, Core g' k set) ↔ ∃ set, Core g k set := by
  constructor
  · intro h
    obtain ⟨set', core⟩ := h
    obtain ⟨set, member⟩ : ∃ set : VarSet, ∀ x, x ∈ set ↔ x ∈ g.adj ∧ φ x ∈ set' := by
      refine ⟨.ofList (g.nodes.filter fun x => set'.contains (φ x)), fun x => ?_⟩
      rw [Std.ExtTreeSet.mem_ofList, List.contains_iff_mem, List.mem_filter, Graph.mem_nodes,
        Std.ExtTreeSet.contains_iff_mem]
    refine ⟨set, (renumbered.core_iff (fun y node => ?_) (fun x inside => ((member x).mp inside).1)
      fun y inside => (Coloring.mem_virtualNodes.mp (core.virtual y inside)).1).mp core⟩
    rw [member, and_iff_right node]
  · intro h
    obtain ⟨set, core⟩ := h
    obtain ⟨set', member⟩ : ∃ set' : VarSet, ∀ y, y ∈ set' ↔ ∃ x ∈ set, φ x = y := by
      refine ⟨.ofList (set.toList.map φ), fun y => ?_⟩
      simp only [Std.ExtTreeSet.mem_ofList, List.contains_iff_mem, List.mem_map, Std.ExtTreeSet.mem_toList]
    have nodes : ∀ x ∈ set, x ∈ g.adj := fun x inside =>
      (Coloring.mem_virtualNodes.mp (core.virtual x inside)).1
    refine ⟨set', (renumbered.core_iff (fun y node => ?_) nodes fun y inside => ?_).mpr core⟩
    · rw [member]
      constructor
      · intro h
        obtain ⟨x, inside, equal⟩ := h
        exact renumbered.twins.injective x y (nodes x inside) node equal ▸ inside
      · exact fun inside => ⟨y, inside, rfl⟩
    · obtain ⟨x, origin, rfl⟩ := (member y).mp inside
      exact (renumbered.twins.node x (nodes x origin)).mpr (nodes x origin)

end Renumbered

-- Whether an optimistic pick is made depends on the graph alone: there is one just if there is a core.
-- Giving up means that the budget is spent, and what is left then is a core.
theorem optimistic_iff_core {f : Function} (pinned : g.Pinned rf f.table) (temps : VarSet) :
    ∃ attempt, color g f rf temps = .ok attempt ∧
      (0 < attempt.optimistic ↔ ∃ set, Core g rf.k set) ∧
      (∀ φ g' (f' : Function) temps', Renumbered φ g g' → g'.Pinned rf f'.table →
        ∃ attempt', color g' f' rf temps' = .ok attempt' ∧
          (0 < attempt'.optimistic ↔ 0 < attempt.optimistic)) ∧
      attempt.optimistic ≤ rf.retry + 1 ∧
      (attempt.bigFail = true ↔ attempt.optimistic = rf.retry + 1) ∧
      (attempt.bigFail = true → attempt.colors = ∅ ∧ Core g rf.k (.ofList attempt.uncolored)) := by
  obtain ⟨attempt, colored, -, follows⟩ := color_follows pinned temps
  refine ⟨attempt, colored, optimistic_pos_iff pinned follows, fun φ g' f' temps' renumbered pinned' => ?_,
    optimistic_le pinned follows, bigFail_iff pinned follows,
    fun failed => (core_of_bigFail pinned follows failed).2⟩
  obtain ⟨attempt', colored', -, follows'⟩ := color_follows pinned' temps'
  refine ⟨attempt', colored', ?_⟩
  rw [optimistic_pos_iff pinned follows, optimistic_pos_iff pinned' follows']
  exact renumbered.exists_core_iff

def pairs (b c : VarId) : Graph :=
  [(0, b), (c, 3), (0, 4), (1, 4), (2, 4), (3, 4)].foldl (fun g edge => g.addEdge edge.1 edge.2)
    (.ofRegisters [4, 5])

def pairsFunction : Function where
  name := "@f"
  table := (VarTable.internAll { convention := some twoRegisters } ["%a", "%b", "%c", "%d", "rax", "rdi"]).2

def swapped (x : VarId) : VarId := if x = 1 then 2 else if x = 2 then 1 else x

theorem pairs_pinned : (pairs 1 2).Pinned twoRegisters pairsFunction.table ∧
    (pairs 2 1).Pinned twoRegisters pairsFunction.table := by decide +kernel

theorem pairs_renumbered : Renumbered swapped (pairs 1 2) (pairs 2 1) :=
  renumbered_of_nodes pairs_pinned.1.formed pairs_pinned.2.formed (by decide +kernel) (by decide +kernel)

-- One optimistic pick is spent on the first pair, so the second one is left. Another order of the
-- variables does not spare the pick.
theorem optimistic_iff_core_pairs : (pairs 1 2).Pinned twoRegisters pairsFunction.table ∧ ∃ attempt attempt',
    color (pairs 1 2) pairsFunction twoRegisters ∅ = .ok attempt ∧ attempt.bigFail = true ∧
      attempt.optimistic = 2 ∧ attempt.uncolored = [2, 3] ∧ Core (pairs 1 2) 2 (.ofList attempt.uncolored) ∧
      color (pairs 2 1) pairsFunction twoRegisters (.ofList [0]) = .ok attempt' ∧ 0 < attempt'.optimistic := by
  obtain ⟨attempt, colored, -, independent, -, failed, left⟩ := optimistic_iff_core pairs_pinned.1 ∅
  have found : ((color (pairs 1 2) pairsFunction twoRegisters ∅).toOption.any fun attempt =>
      attempt.bigFail && attempt.uncolored == [2, 3]) = true := by decide +kernel
  simp only [colored, Except.toOption, Option.any_some, Bool.and_eq_true, beq_iff_eq] at found
  have spent : attempt.optimistic = 2 := failed.mp found.1
  obtain ⟨attempt', colored', same⟩ :=
    independent swapped (pairs 2 1) pairsFunction (.ofList [0]) pairs_renumbered pairs_pinned.2
  exact ⟨pairs_pinned.1, attempt, attempt', colored, found.1, spent, found.2, (left found.1).2, colored',
    same.mpr (spent ▸ Nat.succ_pos 1)⟩

end Coloring

end RegisterAllocation
