import RegisterAllocation.Proofs.Colorings

namespace RegisterAllocation

namespace Graph

variable {g w : Graph} {gone : List VarId} {x : VarId}

structure Without (g : Graph) (gone : List VarId) (w : Graph) : Prop where
  formed : w.WellFormed
  node : ∀ x, x ∈ w.adj ↔ x ∈ g.adj ∧ x ∉ gone
  edge : ∀ x y, y ∈ w.neighborSet x ↔ y ∈ g.neighborSet x ∧ x ∉ gone ∧ y ∉ gone

theorem WellFormed.without_nothing (formed : g.WellFormed) : g.Without [] g :=
  ⟨formed, by simp, by simp⟩

theorem Without.remove (without : g.Without gone w) (x : VarId) : g.Without (x :: gone) (w.remove x) := by
  refine ⟨without.formed.remove x, fun y => ?_, fun y z => ?_⟩
  · rw [without.formed.mem_remove, without.node, List.mem_cons]
    tauto
  · rw [without.formed.mem_neighborSet_remove, without.edge, List.mem_cons, List.mem_cons]
    tauto

end Graph

namespace Coloring

variable {rf : RegisterFile} {g w : Graph} {temps : VarSet} {virtual : List VarId} {x y : VarId} {k : Nat}

-- A node that was taken out of a graph. It is optimistic if every node had too many neighbours.
structure Pick where
  node : VarId
  graph : Graph
  optimistic : Bool

structure Simplifying where
  graph : Graph
  picks : List Pick := []

def low? (rf : RegisterFile) (virtual : List VarId) (w : Graph) : Option VarId :=
  virtual.find? fun id => w.hasNode id && w.degree id < rf.k

namespace Simplifying

def stack (s : Simplifying) : Stack VarId := ⟨s.picks.map Pick.node⟩

def optimistic (s : Simplifying) : Nat := s.picks.countP Pick.optimistic

def take (s : Simplifying) (x : VarId) (optimistic : Bool) : Simplifying where
  graph := s.graph.remove x
  picks := ⟨x, s.graph, optimistic⟩ :: s.picks

def next? (rf : RegisterFile) (virtual : List VarId) (temps : VarSet) (s : Simplifying) :
    Option Simplifying :=
  ((low? rf virtual s.graph).map (s.take · false)).or
    (if s.optimistic < rf.retry then (optimisticPick s.graph virtual temps).map (s.take · true) else none)

def run (rf : RegisterFile) (virtual : List VarId) (temps : VarSet) : Nat → Simplifying → Simplifying
  | 0, s => s
  | left + 1, s => ((s.next? rf virtual temps).map (run rf virtual temps left)).getD s

def remaining (virtual : List VarId) (s : Simplifying) : List VarId := virtual.filter s.graph.hasNode

def outcome (virtual : List VarId) (s : Simplifying) : Simplified :=
  if (s.remaining virtual).isEmpty then .done s.stack s.optimistic
  else .gaveUp (s.remaining virtual) (s.optimistic + 1)

variable {s s' : Simplifying} {left : Nat}

theorem optimistic_take_low (s : Simplifying) (x : VarId) : (s.take x false).optimistic = s.optimistic := by
  simp [optimistic, take]

theorem optimistic_take (s : Simplifying) (x : VarId) :
    (s.take x true).optimistic = s.optimistic + 1 := by
  simp [optimistic, take]

theorem next?_eq_some_iff : s.next? rf virtual temps = some s' ↔
    (∃ x, low? rf virtual s.graph = some x ∧ s' = s.take x false) ∨
      (low? rf virtual s.graph = none ∧ s.optimistic < rf.retry ∧
        ∃ x, optimisticPick s.graph virtual temps = some x ∧ s' = s.take x true) := by
  unfold next?
  cases low? rf virtual s.graph with
  | some x => simp [eq_comm]
  | none =>
    by_cases budget : s.optimistic < rf.retry
    · simp [budget, eq_comm]
    · simp [budget]

theorem run_keeps (rf : RegisterFile) (virtual : List VarId) (temps : VarSet) {P : Simplifying → Prop}
    (keeps : ∀ s s', s.next? rf virtual temps = some s' → P s → P s') (left : Nat) (start : P s) :
    P (s.run rf virtual temps left) := by
  induction left generalizing s with
  | zero => exact start
  | succ left ih =>
    unfold run
    cases next : s.next? rf virtual temps with
    | none => exact start
    | some s' => exact ih (keeps s s' next start)

end Simplifying

variable {s s' : Simplifying} {left : Nat}

theorem Partition.next (distinct : virtual.Nodup)
    (parts : Partition virtual (left + 1) s.graph s.stack) (next : s.next? rf virtual temps = some s') :
    Partition virtual left s'.graph s'.stack := by
  rcases Simplifying.next?_eq_some_iff.mp next with ⟨x, found, rfl⟩ | ⟨-, -, x, found, rfl⟩
  · exact parts.step distinct (mem_of_find found)
  · exact parts.step distinct (optimisticPick_mem found)

namespace Simplifying

theorem run_ends (rf : RegisterFile) (temps : VarSet) (distinct : virtual.Nodup)
    (parts : Partition virtual left s.graph s.stack) :
    (s.run rf virtual temps left).remaining virtual = [] ∨
      (s.run rf virtual temps left).next? rf virtual temps = none := by
  induction left generalizing s with
  | zero => exact .inl (List.eq_nil_of_length_eq_zero parts.count)
  | succ left ih =>
    unfold run
    cases next : s.next? rf virtual temps with
    | none => exact .inr next
    | some s' => exact ih (parts.next distinct next)

theorem next?_eq_none (some_left : s.remaining virtual ≠ []) :
    s.next? rf virtual temps = none ↔ low? rf virtual s.graph = none ∧ rf.retry ≤ s.optimistic := by
  obtain ⟨x, picked⟩ := Option.isSome_iff_exists.mp (optimisticPick_isSome temps some_left)
  unfold next?
  cases low? rf virtual s.graph with
  | some x => simp
  | none =>
    by_cases budget : s.optimistic < rf.retry
    · simp [budget, picked]
    · simp [budget, Nat.le_of_not_lt budget]

theorem remaining_ne_nil (parts : Partition virtual (left + 1) s.graph s.stack) :
    s.remaining virtual ≠ [] := by
  apply List.ne_nil_of_length_pos
  rw [remaining, parts.count]
  exact Nat.succ_pos left

theorem outcome_done (all : s.remaining virtual = []) : s.outcome virtual = .done s.stack s.optimistic := by
  simp [outcome, all]

theorem outcome_gaveUp (some_left : s.remaining virtual ≠ []) :
    s.outcome virtual = .gaveUp (s.remaining virtual) (s.optimistic + 1) :=
  if_neg (by rwa [List.isEmpty_iff])

theorem simplify_eq_run (distinct : virtual.Nodup) (parts : Partition virtual left s.graph s.stack) :
    simplify rf virtual temps left s.graph s.stack s.optimistic =
      (s.run rf virtual temps left).outcome virtual := by
  induction left generalizing s with
  | zero =>
    unfold simplify run
    exact (outcome_done (List.eq_nil_of_length_eq_zero parts.count)).symm
  | succ left ih =>
    have some_left := remaining_ne_nil parts
    unfold simplify run
    cases next : s.next? rf virtual temps with
    | none =>
      obtain ⟨low, spent⟩ := (next?_eq_none some_left).mp next
      unfold low? at low
      simp only [low, Nat.lt_succ_of_le spent, if_true]
      exact (outcome_gaveUp some_left).symm
    | some s' =>
      have later := ih (parts.next distinct next)
      rcases next?_eq_some_iff.mp next with ⟨x, low, rfl⟩ | ⟨low, budget, x, picked, rfl⟩
      · unfold low? at low
        rw [optimistic_take_low] at later
        simp only [low]
        exact later
      · unfold low? at low
        rw [optimistic_take] at later
        simp only [low, picked, if_neg (Nat.not_lt.mpr budget)]
        exact later

end Simplifying

theorem low?_degree (found : low? rf virtual w = some x) : w.degree x < rf.k := by
  have holds := List.find?_some found
  rw [Bool.and_eq_true, decide_eq_true_eq] at holds
  exact holds.2

theorem low?_eq_none_iff : low? rf virtual w = none ↔ ∀ x ∈ virtual, x ∈ w.adj → rf.k ≤ w.degree x := by
  simp [low?, List.find?_eq_none, Graph.hasNode_iff]

theorem optimisticPick_temps (picked : optimisticPick w virtual temps = some x) (temporary : x ∈ temps) :
    ∀ y ∈ virtual.filter w.hasNode, y ∈ temps := by
  rw [optimisticPick, Option.or_eq_some_iff] at picked
  rcases picked with first | ⟨none, -⟩
  · have lasting := (List.mem_filter.mp (highest_mem _ first)).2
    rw [Std.ExtTreeSet.contains_iff_mem.mpr temporary] at lasting
    cases lasting
  · intro y present
    by_contra absent
    have lasting : (!temps.contains y) = true := by
      rw [Bool.not_eq_true', ← Bool.not_eq_true, Std.ExtTreeSet.contains_iff_mem]
      exact absent
    have other : y ∈ (virtual.filter w.hasNode).filter fun id => !temps.contains id :=
      List.mem_filter.mpr ⟨present, lasting⟩
    have found := highest_isSome (w := w) _ (List.ne_nil_of_mem other)
    rw [none] at found
    cases found

-- How a pick was made in the graph without the nodes that were picked before: it was the first node with
-- few enough neighbours or, where there was none, an optimistic choice.
structure Pick.Justified (rf : RegisterFile) (g : Graph) (temps : VarSet) (before : List VarId) (p : Pick) :
    Prop where
  graph : g.Without before p.graph
  low : p.optimistic = false → low? rf (virtualNodes g) p.graph = some p.node
  stuck : p.optimistic = true → low? rf (virtualNodes g) p.graph = none ∧
    optimisticPick p.graph (virtualNodes g) temps = some p.node

namespace Pick.Justified

variable {p : Pick} {before : List VarId} (justified : p.Justified rf g temps before)

include justified

theorem crowded (optimistic : p.optimistic = true) :
    ∀ x ∈ virtualNodes g, x ∈ p.graph.adj → rf.k ≤ p.graph.degree x :=
  low?_eq_none_iff.mp (justified.stuck optimistic).1

theorem present : p.node ∈ virtualNodes g ∧ p.node ∈ p.graph.adj := by
  have picked : p.node ∈ (virtualNodes g).filter p.graph.hasNode := by
    cases optimistic : p.optimistic with
    | true => exact optimisticPick_mem (justified.stuck optimistic).2
    | false => exact mem_of_find (justified.low optimistic)
  obtain ⟨virtual, node⟩ := List.mem_filter.mp picked
  exact ⟨virtual, Graph.hasNode_iff.mp node⟩

theorem only_temps (optimistic : p.optimistic = true) (temporary : p.node ∈ temps) :
    ∀ x ∈ virtualNodes g, x ∈ p.graph.adj → x ∈ temps := by
  intro x virtual present
  exact optimisticPick_temps (justified.stuck optimistic).2 temporary x
    (List.mem_filter.mpr ⟨virtual, Graph.hasNode_iff.mpr present⟩)

end Pick.Justified

structure Simplifying.Traced (rf : RegisterFile) (g : Graph) (temps : VarSet) (s : Simplifying) : Prop where
  graph : g.Without (s.picks.map Pick.node) s.graph
  justified : ∀ later p earlier, s.picks = later ++ p :: earlier →
    p.Justified rf g temps (earlier.map Pick.node)
  budget : s.optimistic ≤ rf.retry

namespace Simplifying

theorem start_traced (formed : g.WellFormed) : Traced rf g temps ⟨g, []⟩ :=
  ⟨formed.without_nothing, by simp, Nat.zero_le _⟩

theorem Traced.take {optimistic : Bool} (traced : Traced rf g temps s)
    (justified : Pick.Justified rf g temps (s.picks.map Pick.node) ⟨x, s.graph, optimistic⟩)
    (budget : (s.take x optimistic).optimistic ≤ rf.retry) : Traced rf g temps (s.take x optimistic) := by
  refine ⟨traced.graph.remove x, fun later p earlier split => ?_, budget⟩
  cases later with
  | nil =>
    cases split
    exact justified
  | cons q later =>
    obtain ⟨-, split⟩ := List.cons.inj split
    exact traced.justified later p earlier split

theorem Traced.next (traced : Traced rf g temps s)
    (next : s.next? rf (virtualNodes g) temps = some s') : Traced rf g temps s' := by
  rcases next?_eq_some_iff.mp next with ⟨x, found, rfl⟩ | ⟨stuck, budget, x, picked, rfl⟩
  · apply traced.take
    · exact ⟨traced.graph, fun _ => found, by simp⟩
    · rw [optimistic_take_low]
      exact traced.budget
  · apply traced.take
    · exact ⟨traced.graph, by simp, fun _ => ⟨stuck, picked⟩⟩
    · rw [optimistic_take]
      exact budget

end Simplifying

def simplified (g : Graph) (rf : RegisterFile) (temps : VarSet) : Simplifying :=
  Simplifying.run rf (virtualNodes g) temps (virtualNodes g).length ⟨g, []⟩

theorem simplified_traced (rf : RegisterFile) (temps : VarSet) (formed : g.WellFormed) :
    (simplified g rf temps).Traced rf g temps :=
  Simplifying.run_keeps rf (virtualNodes g) temps (fun _ _ next traced => traced.next next) _
    (Simplifying.start_traced formed)

theorem le_size_of_surrounded {set : VarSet} {colors : Std.ExtTreeMap VarId Nat}
    (surrounded : ∀ c < k, ∃ y ∈ set, colors[y]? = some c) : k ≤ set.size := by
  -- Every color takes a neighbour of its own.
  have every : List.range k ⊆ set.toList.filterMap fun y => colors[y]? := by
    intro c member
    obtain ⟨y, inside, colored⟩ := surrounded c (List.mem_range.mp member)
    exact List.mem_filterMap.mpr ⟨y, Std.ExtTreeSet.mem_toList.mpr inside, colored⟩
  calc k = (List.range k).length := List.length_range.symm
    _ ≤ (set.toList.filterMap fun y => colors[y]?).length :=
      (List.subperm_of_subset List.nodup_range every).length_le
    _ ≤ set.toList.length := List.length_filterMap_le _ _
    _ = set.size := Std.ExtTreeSet.length_toList

theorem Pick.Justified.optimistic_of_surrounded {p : Pick} {waiting : List VarId} {attempt : Coloring}
    (justified : p.Justified rf g temps waiting) (settled : Settled g rf.k (p.node :: waiting) attempt)
    (surrounded : ∀ c < rf.k, ∃ y ∈ g.neighborSet p.node, attempt.colors[y]? = some c) :
    p.optimistic = true := by
  -- When a node is taken back, its neighbours with a color are those it had when it was picked:
  -- what was picked before it still waits.
  have around : ∀ c < rf.k, ∃ y ∈ p.graph.neighborSet p.node, attempt.colors[y]? = some c := by
    intro c inside
    obtain ⟨y, edge, colored⟩ := surrounded c inside
    have picked : p.node ∉ waiting := fun again =>
      (List.nodup_cons.mp settled.once).1 (List.mem_append_left _ again)
    have kept : y ∉ waiting := by
      intro waits
      have bare := settled.without y (List.mem_cons_of_mem _ (List.mem_append_left _ waits))
      simp [bare] at colored
    exact ⟨y, (justified.graph.edge p.node y).mpr ⟨edge, picked, kept⟩, colored⟩
  have many : rf.k ≤ p.graph.degree p.node := le_size_of_surrounded around
  cases optimistic : p.optimistic with
  | true => rfl
  | false => exact absurd (low?_degree (justified.low optimistic)) (Nat.not_lt.mpr many)

theorem select_optimistic {before after : Coloring} (formed : g.WellFormed) (picks : List Pick)
    (justified : ∀ later p earlier, picks = later ++ p :: earlier →
      p.Justified rf g temps (earlier.map Pick.node))
    (settled : Settled g rf.k (picks.map Pick.node) before)
    (selected : select g rf.k (picks.map Pick.node) before = .ok after) :
    ∀ x ∈ after.uncolored, x ∈ before.uncolored ∨ ∃ p ∈ picks, p.node = x ∧ p.optimistic = true := by
  induction picks generalizing before with
  | nil =>
    cases selected
    exact fun x member => .inl member
  | cons p earlier ih =>
    obtain ⟨next, goes, settled', -, -, without⟩ := select_step formed settled
    have rest := ih (fun later q before split => justified (p :: later) q before (by rw [split]; rfl))
      settled' (goes.symm.trans selected)
    intro x member
    rcases rest x member with old | ⟨q, picked, named⟩
    · rcases without with same | ⟨grown, surrounded⟩
      · exact .inl (same ▸ old)
      · rw [grown] at old
        rcases List.mem_cons.mp old with rfl | older
        · have optimistic := (justified [] p earlier rfl).optimistic_of_surrounded settled surrounded
          exact .inr ⟨p, List.mem_cons_self, rfl, optimistic⟩
        · exact .inl older
    · exact .inr ⟨q, List.mem_cons_of_mem _ picked, named⟩

structure Follows (g : Graph) (s : Simplifying) (attempt : Coloring) : Prop where
  bigFail : attempt.bigFail = true ↔ s.remaining (virtualNodes g) ≠ []
  gaveUp : attempt.bigFail = true →
    attempt = { uncolored := s.remaining (virtualNodes g), bigFail := true, optimistic := s.optimistic + 1 }
  optimistic : attempt.bigFail = false → attempt.optimistic = s.optimistic
  uncolored : attempt.bigFail = false →
    ∀ x ∈ attempt.uncolored, ∃ p ∈ s.picks, p.node = x ∧ p.optimistic = true

section Pinned

variable {f : Function} (pinned : g.Pinned rf f.table)

include pinned

theorem simplify_eq (temps : VarSet) :
    simplify rf (virtualNodes g) temps (virtualNodes g).length g {} 0 =
      (simplified g rf temps).outcome (virtualNodes g) :=
  Simplifying.simplify_eq_run (s := ⟨g, []⟩) (nodup_virtualNodes g) (start_partition pinned)

theorem color_follows (temps : VarSet) :
    ∃ attempt, color g f rf temps = .ok attempt ∧ Attempted rf g attempt ∧
      Follows g (simplified g rf temps) attempt := by
  obtain ⟨attempt, colored, attempted⟩ := color_settled pinned temps
  refine ⟨attempt, colored, attempted, ?_⟩
  have simplify := simplify_eq pinned temps
  by_cases all : (simplified g rf temps).remaining (virtualNodes g) = []
  · rw [Simplifying.outcome_done all] at simplify
    obtain ⟨after, start, selected, -, failed, count, done⟩ := color_of_done pinned simplify
    cases colored.symm.trans done
    have optimistic := select_optimistic pinned.formed _
      (simplified_traced rf temps pinned.formed).justified start selected
    refine ⟨by simp [failed, all], by simp [failed], fun _ => count, fun _ x member => ?_⟩
    exact (optimistic x (List.mem_mergeSort.mp member)).resolve_left (by simp)
  · rw [Simplifying.outcome_gaveUp all] at simplify
    rw [color, simplify] at colored
    cases colored
    exact ⟨by simp [all], fun _ => rfl, by simp, by simp⟩

end Pinned

theorem Follows.uncolored_le {s : Simplifying} {attempt : Coloring} (follows : Follows g s attempt)
    (attempted : Attempted rf g attempt) (finished : attempt.bigFail = false) :
    attempt.uncolored.length ≤ attempt.optimistic := by
  have picked : attempt.uncolored ⊆ (s.picks.filter Pick.optimistic).map Pick.node := by
    intro x member
    obtain ⟨p, made, rfl, optimistic⟩ := follows.uncolored finished x member
    exact List.mem_map_of_mem (List.mem_filter.mpr ⟨made, optimistic⟩)
  calc attempt.uncolored.length ≤ ((s.picks.filter Pick.optimistic).map Pick.node).length :=
        (List.subperm_of_subset attempted.once picked).length_le
    _ = s.optimistic := by rw [List.length_map, Simplifying.optimistic, List.countP_eq_length_filter]
    _ = attempt.optimistic := (follows.optimistic finished).symm

-- Only nodes that were picked optimistically go without a color, and a spill temporary is picked so only
-- where nothing but crowded temporaries is left.
theorem uncolored_were_optimistic {f : Function} (pinned : g.Pinned rf f.table) (temps : VarSet) :
    simplify rf (virtualNodes g) temps (virtualNodes g).length g {} 0 =
      (simplified g rf temps).outcome (virtualNodes g) ∧
    (∃ attempt, color g f rf temps = .ok attempt ∧ (attempt.bigFail = false →
      (∀ x ∈ attempt.uncolored, ∃ p ∈ (simplified g rf temps).picks, p.node = x ∧ p.optimistic = true) ∧
      attempt.optimistic = (simplified g rf temps).picks.countP Pick.optimistic ∧
      attempt.uncolored.length ≤ attempt.optimistic ∧
      (attempt.optimistic = 0 → attempt.success = true))) ∧
    ∀ later p earlier, (simplified g rf temps).picks = later ++ p :: earlier →
      p.Justified rf g temps (earlier.map Pick.node) ∧
      (p.optimistic = true → p.node ∈ temps → ∀ x ∈ virtualNodes g, x ∈ p.graph.adj →
        x ∈ temps ∧ rf.k ≤ p.graph.degree x) := by
  refine ⟨simplify_eq pinned temps, ?_, fun later p earlier split => ?_⟩
  · obtain ⟨attempt, colored, attempted, follows⟩ := color_follows pinned temps
    refine ⟨attempt, colored, fun finished => ?_⟩
    have bound := follows.uncolored_le attempted finished
    refine ⟨follows.uncolored finished, follows.optimistic finished, bound, fun none => ?_⟩
    rw [none, Nat.le_zero, List.length_eq_zero_iff] at bound
    simp [success, finished, bound]
  · have justified := (simplified_traced rf temps pinned.formed).justified later p earlier split
    refine ⟨justified, fun optimistic temporary x virtual present => ⟨?_, ?_⟩⟩
    · exact justified.only_temps optimistic temporary x virtual present
    · exact justified.crowded optimistic x virtual present

def triangleTemps : VarSet := .ofList [0, 1, 2]

theorem uncolored_were_optimistic_triangle : triangle.Pinned twoRegisters triangleFunction.table ∧
    ∃ attempt, color triangle triangleFunction twoRegisters triangleTemps = .ok attempt ∧
      attempt.uncolored = [0] ∧ attempt.uncolored.length ≤ attempt.optimistic ∧
      ∃ p ∈ (simplified triangle twoRegisters triangleTemps).picks, p.node = 0 ∧
        ∀ x ∈ virtualNodes triangle, x ∈ p.graph.adj → x ∈ triangleTemps ∧ 2 ≤ p.graph.degree x := by
  obtain ⟨-, ⟨attempt, colored, correct⟩, picks⟩ := uncolored_were_optimistic triangle_pinned triangleTemps
  have found : ((color triangle triangleFunction twoRegisters triangleTemps).toOption.any fun attempt =>
      !attempt.bigFail && attempt.uncolored == [0]) = true := by decide +kernel
  simp only [colored, Except.toOption, Option.any_some, Bool.and_eq_true, Bool.not_eq_true',
    beq_iff_eq] at found
  obtain ⟨optimistic, -, bound, -⟩ := correct found.1
  obtain ⟨p, made, named, byChoice⟩ := optimistic 0 (by simp [found.2])
  obtain ⟨later, earlier, split⟩ := List.append_of_mem made
  have temporary : (0 : VarId) ∈ triangleTemps := by decide +kernel
  have crowded := (picks later p earlier split).2 byChoice (by rwa [named])
  exact ⟨triangle_pinned, attempt, colored, found.2, bound, p, made, named, crowded⟩

end Coloring

end RegisterAllocation
