import RegisterAllocation.Coloring
import RegisterAllocation.Proofs.InterferenceGraph

namespace RegisterAllocation

-- What coloring expects of a graph over the variables of a table: edges go both ways and never lead
-- from a node to itself, and the registers, and no other nodes, have a color from the start. It is
-- the one of their name. In the table a name stands once.
structure Graph.Pinned (rf : RegisterFile) (t : VarTable) (g : Graph) : Prop where
  named : t.names.Nodup
  symm : ∀ u v, v ∈ g.neighborSet u → u ∈ g.neighborSet v
  irrefl : ∀ u, u ∉ g.neighborSet u
  register : ∀ x ∈ g.adj, ∀ c, g.color? x = some c →
    ∃ v, t.vars[x]? = some v ∧ v.isRegister = true ∧ rf.color? v.name = some c
  virtual : ∀ x ∈ g.adj, g.color? x = none → ∃ v, t.vars[x]? = some v ∧ v.isRegister = false

namespace Graph.Pinned

variable {rf : RegisterFile} {t : VarTable} {g : Graph} {x y : VarId} {c : Nat} (pinned : g.Pinned rf t)

include pinned

theorem formed : g.WellFormed := by
  refine ⟨pinned.symm, pinned.irrefl, fun u v edge => ?_⟩
  by_contra absent
  have back := pinned.symm u v edge
  simp [neighborSet_of_not_mem absent] at back

theorem color_lt (node : x ∈ g.adj) (colored : g.color? x = some c) : c < rf.k := by
  obtain ⟨v, -, -, own⟩ := pinned.register x node c colored
  exact (List.idxOf?_eq_some_iff.mp own).1

theorem color_inj (left : x ∈ g.adj) (right : y ∈ g.adj) (first : g.color? x = some c)
    (second : g.color? y = some c) : x = y := by
  obtain ⟨v, here, -, own⟩ := pinned.register x left c first
  obtain ⟨w, there, -, other⟩ := pinned.register y right c second
  obtain ⟨bound, hit, -⟩ := List.idxOf?_eq_some_iff.mp own
  obtain ⟨_, hit', -⟩ := List.idxOf?_eq_some_iff.mp other
  have known : x < t.names.length := by
    rw [VarTable.names_length]
    exact (List.getElem?_eq_some_iff.mp here).1
  apply (List.getElem?_inj known pinned.named).mp
  simp [VarTable.names, here, there, ← hit, ← hit']

end Graph.Pinned

theorem Graph.pinned_iff {rf : RegisterFile} {t : VarTable} {g : Graph} : g.Pinned rf t ↔ t.names.Nodup ∧
    (∀ u ∈ g.nodes, ∀ v ∈ g.neighbors u, u ∈ g.neighbors v ∧ u ≠ v) ∧
    ∀ x ∈ g.nodes, (t.vars[x]?).any (fun v => v.isRegister == (g.color? x).isSome &&
      (g.color? x).all fun c => rf.color? v.name == some c) = true := by
  have joined : ∀ u v, v ∈ g.neighborSet u → u ∈ g.adj := by
    intro u v edge
    by_contra absent
    simp [neighborSet_of_not_mem absent] at edge
  simp only [mem_nodes, mem_neighbors, Option.any_eq_true, Bool.and_eq_true, beq_iff_eq]
  constructor
  · intro pinned
    refine ⟨pinned.named, fun u _ v edge => ⟨pinned.symm u v edge, ?_⟩, fun x node => ?_⟩
    · rintro rfl
      exact pinned.irrefl u edge
    · cases own : g.color? x with
      | none =>
        obtain ⟨v, found, kind⟩ := pinned.virtual x node own
        exact ⟨v, found, by simp [kind], by simp⟩
      | some c =>
        obtain ⟨v, found, kind, named⟩ := pinned.register x node c own
        exact ⟨v, found, by simp [kind], by simp [named]⟩
  · intro h
    obtain ⟨named, edges, colors⟩ := h
    refine ⟨named, fun u v edge => (edges u (joined u v edge) v edge).1,
      fun u edge => (edges u (joined u u edge) u edge).2 rfl, fun x node c own => ?_, fun x node own => ?_⟩
    · obtain ⟨v, found, kind, named⟩ := colors x node
      exact ⟨v, found, by simpa [own] using kind, by simpa [own] using named⟩
    · obtain ⟨v, found, kind, -⟩ := colors x node
      exact ⟨v, found, by simpa [own] using kind⟩

instance (rf : RegisterFile) (t : VarTable) (g : Graph) : Decidable (g.Pinned rf t) :=
  decidable_of_iff' _ Graph.pinned_iff

theorem Graph.Interferes.pinned {rf : RegisterFile} {s : Sheet} {lv : Liveness} {g : Graph}
    (interferes : Interferes rf s lv g) (accepted : rf.Accepted) (analyzed : s.Analyzed rf lv) :
    g.Pinned rf s.function.table := by
  have entry : ∀ x ∈ g.adj, ∃ v, s.function.table.vars[x]? = some v ∧
      v.name = s.function.table.nameOf x ∧ v.isRegister = s.function.table.isRegister x := by
    intro x node
    have known : x < s.function.table.vars.length := interferes.node_lt_size analyzed node
    have found := List.getElem?_eq_getElem known
    exact ⟨_, found, by simp [VarTable.nameOf, found], by simp [VarTable.isRegister, found]⟩
  refine ⟨analyzed.valid.sound.distinct, interferes.formed.symm, interferes.formed.irrefl, ?_, ?_⟩
  · intro x node c colored
    obtain ⟨v, found, named, kind⟩ := entry x node
    refine ⟨v, found, ?_, ?_⟩
    · rw [kind]
      exact (interferes.isRegister_iff accepted analyzed node).mpr ⟨c, colored⟩
    · rw [named]
      exact ((interferes.color_iff accepted).mp colored).2
  · intro x node bare
    obtain ⟨v, found, -, kind⟩ := entry x node
    refine ⟨v, found, ?_⟩
    rw [kind]
    exact (interferes.color?_eq_none_iff accepted analyzed node).mp bare

namespace Coloring

variable {rf : RegisterFile} {s : Sheet} {lv : Liveness} {g w : Graph} {temps : VarSet}
  {virtual : List VarId} {x y : VarId} {c k : Nat}

theorem mem_virtualNodes : x ∈ virtualNodes g ↔ x ∈ g.adj ∧ g.color? x = none := by
  simp [virtualNodes, Graph.mem_nodes, List.mem_filter]

theorem nodup_virtualNodes (g : Graph) : (virtualNodes g).Nodup := g.nodup_nodes.filter _

theorem sorted_virtualNodes (g : Graph) : (virtualNodes g).Pairwise (· < ·) :=
  (Std.ExtTreeMap.ordered_keys.imp Nat.compare_eq_lt.mp).filter _

theorem foldl_choice {choose : Option VarId → VarId → Option VarId}
    (chooses : ∀ best id, choose best id = some id ∨ choose best id = best ∧ best.isSome)
    (list : List VarId) (best : Option VarId) (found : list.foldl choose best = some x) :
    best = some x ∨ x ∈ list := by
  induction list generalizing best with
  | nil => exact .inl found
  | cons id rest ih =>
    rcases ih _ found with here | later
    · rcases chooses best id with taken | ⟨kept, -⟩
      · rw [taken] at here
        cases here
        exact .inr List.mem_cons_self
      · exact .inl (kept.symm.trans here)
    · exact .inr (List.mem_cons_of_mem _ later)

theorem foldl_choice_isSome {choose : Option VarId → VarId → Option VarId}
    (chooses : ∀ best id, choose best id = some id ∨ choose best id = best ∧ best.isSome)
    (list : List VarId) (best : Option VarId) (start : best.isSome ∨ list ≠ []) :
    (list.foldl choose best).isSome := by
  induction list generalizing best with
  | nil => exact start.resolve_right fun some_left => some_left rfl
  | cons id rest ih =>
    refine ih _ (.inl ?_)
    rcases chooses best id with taken | ⟨kept, known⟩
    · rw [taken]
      rfl
    · rw [kept, known]

theorem highest_chooses (w : Graph) : ∃ choose : Option VarId → VarId → Option VarId,
    (∀ candidates, highest w candidates = candidates.foldl choose none) ∧
      ∀ best id, choose best id = some id ∨ choose best id = best ∧ best.isSome := by
  refine ⟨_, fun _ => rfl, fun best id => ?_⟩
  cases best with
  | none => exact .inl rfl
  | some b =>
    dsimp only
    split
    · exact .inl rfl
    · exact .inr ⟨rfl, rfl⟩

theorem highest_mem (candidates : List VarId) (found : highest w candidates = some x) :
    x ∈ candidates := by
  obtain ⟨choose, folded, chooses⟩ := highest_chooses w
  rw [folded] at found
  exact (foldl_choice chooses candidates none found).resolve_left (by simp)

theorem highest_isSome (candidates : List VarId) (some_left : candidates ≠ []) :
    (highest w candidates).isSome := by
  obtain ⟨choose, folded, chooses⟩ := highest_chooses w
  rw [folded]
  exact foldl_choice_isSome chooses candidates none (.inr some_left)

theorem optimisticPick_mem (found : optimisticPick w virtual temps = some x) :
    x ∈ virtual.filter w.hasNode := by
  rw [optimisticPick, Option.or_eq_some_iff] at found
  rcases found with first | ⟨-, second⟩
  · exact (List.mem_filter.mp (highest_mem _ first)).1
  · exact (List.mem_filter.mp (highest_mem _ second)).1

theorem optimisticPick_isSome (temps : VarSet) (some_left : virtual.filter w.hasNode ≠ []) :
    (optimisticPick w virtual temps).isSome := by
  obtain ⟨x, present⟩ := List.exists_mem_of_ne_nil _ some_left
  rw [optimisticPick, Option.isSome_or, Bool.or_eq_true]
  cases temporary : temps.contains x with
  | true => exact .inr (highest_isSome _ (List.ne_nil_of_mem (List.mem_filter.mpr ⟨present, temporary⟩)))
  | false =>
    exact .inl (highest_isSome _ (List.ne_nil_of_mem
      (List.mem_filter.mpr ⟨present, by rw [temporary]; rfl⟩)))

-- The nodes on the stack and those still in the graph are together all that get a color.
structure Partition (virtual : List VarId) (left : Nat) (w : Graph) (stack : Stack VarId) : Prop where
  formed : w.WellFormed
  count : (virtual.filter w.hasNode).length = left
  all : ∀ x ∈ virtual, x ∈ stack.items ∨ x ∈ w.adj
  stacked : ∀ x ∈ stack.items, x ∈ virtual ∧ x ∉ w.adj
  once : stack.items.Nodup

theorem filter_remove (formed : w.WellFormed) (distinct : virtual.Nodup) :
    virtual.filter (w.remove x).hasNode = (virtual.filter w.hasNode).erase x := by
  rw [(distinct.filter _).erase_eq_filter, List.filter_filter]
  refine List.filter_congr fun y _ => ?_
  rw [Bool.eq_iff_iff]
  simp [Graph.hasNode_iff, formed.mem_remove, and_comm]

theorem Partition.step {left : Nat} {stack : Stack VarId} (distinct : virtual.Nodup)
    (parts : Partition virtual (left + 1) w stack) (present : x ∈ virtual.filter w.hasNode) :
    Partition virtual left (w.remove x) (stack.push x) := by
  have node : x ∈ w.adj := Graph.hasNode_iff.mp (List.mem_filter.mp present).2
  refine ⟨parts.formed.remove x, ?_, fun y member => ?_, fun y member => ?_, ?_⟩
  · rw [filter_remove parts.formed distinct, List.length_erase_of_mem present, parts.count]
    rfl
  · rcases parts.all y member with stacked | node
    · exact .inl (List.mem_cons_of_mem _ stacked)
    · by_cases same : y = x
      · exact .inl (same ▸ List.mem_cons_self)
      · exact .inr (parts.formed.mem_remove.mpr ⟨node, same⟩)
  · rw [parts.formed.mem_remove]
    rcases List.mem_cons.mp member with rfl | stacked
    · exact ⟨(List.mem_filter.mp present).1, fun still => still.2 rfl⟩
    · exact ⟨(parts.stacked y stacked).1, fun still => (parts.stacked y stacked).2 still.1⟩
  · exact List.nodup_cons.mpr ⟨fun stacked => (parts.stacked x stacked).2 node, parts.once⟩

theorem Partition.all_stacked {stack : Stack VarId} (parts : Partition virtual 0 w stack) :
    ∀ x ∈ virtual, x ∈ stack.items := by
  intro x member
  refine (parts.all x member).resolve_right fun node => ?_
  have none := List.eq_nil_of_length_eq_zero parts.count
  have present : x ∈ virtual.filter w.hasNode :=
    List.mem_filter.mpr ⟨member, Graph.hasNode_iff.mpr node⟩
  simp [none] at present

theorem mem_of_find {left : Nat}
    (found : (virtual.find? fun id => w.hasNode id && decide (w.degree id < left)) = some x) :
    x ∈ virtual.filter w.hasNode := by
  have holds := List.find?_some found
  rw [Bool.and_eq_true] at holds
  exact List.mem_filter.mpr ⟨List.mem_of_find?_eq_some found, holds.1⟩

def Simplified.Covers (virtual : List VarId) : Simplified → Prop
  | .done stack _ => stack.items.Nodup ∧ ∀ x, x ∈ stack.items ↔ x ∈ virtual
  | .gaveUp remaining _ => remaining.Sublist virtual

theorem simplify_covers (rf : RegisterFile) (temps : VarSet) (distinct : virtual.Nodup) (left : Nat)
    (w : Graph) (stack : Stack VarId) (optimistic : Nat) (parts : Partition virtual left w stack) :
    (simplify rf virtual temps left w stack optimistic).Covers virtual := by
  induction left generalizing w stack optimistic with
  | zero => exact ⟨parts.once, fun x => ⟨fun stacked => (parts.stacked x stacked).1, parts.all_stacked x⟩⟩
  | succ left ih =>
    rw [simplify]
    split
    · rename_i id found
      exact ih _ _ _ (parts.step distinct (mem_of_find found))
    · split
      · exact List.filter_sublist
      · split
        · rename_i id found
          exact ih _ _ _ (parts.step distinct (optimisticPick_mem found))
        · rename_i none
          have some_left : virtual.filter w.hasNode ≠ [] := by
            intro empty
            have count := parts.count
            simp [empty] at count
          have picked := optimisticPick_isSome temps some_left
          simp [none] at picked

theorem precolors_eq (list : List VarId) (colors : Std.ExtTreeMap VarId Nat) :
    (list.foldl (fun colors id => match g.color? id with
      | some c => colors.insert id c
      | none => colors) colors)[x]? = some c ↔
      (x ∈ list ∧ g.color? x = some c) ∨
        (¬(x ∈ list ∧ (g.color? x).isSome) ∧ colors[x]? = some c) := by
  induction list generalizing colors with
  | nil => simp
  | cons id rest ih =>
    rw [List.foldl_cons, ih, List.mem_cons]
    cases here : g.color? id with
    | none => grind
    | some d =>
      simp only [Std.ExtTreeMap.getElem?_insert, Std.LawfulEqOrd.compare_eq_iff_eq]
      grind

theorem precolors_getElem? : (precolors g)[x]? = some c ↔ x ∈ g.adj ∧ g.color? x = some c := by
  refine (precolors_eq g.nodes ∅).trans ?_
  rw [Graph.mem_nodes]
  simp

structure Proper (g : Graph) (k : Nat) (colors : Std.ExtTreeMap VarId Nat) : Prop where
  bounded : ∀ (x : VarId) (c : Nat), colors[x]? = some c → c < k
  node : ∀ (x : VarId) (c : Nat), colors[x]? = some c → x ∈ g.adj
  apart : ∀ (x y : VarId) (c : Nat), y ∈ g.neighborSet x → colors[x]? = some c → colors[y]? ≠ some c
  kept : ∀ x c, x ∈ g.adj → g.color? x = some c → colors[x]? = some c

theorem freeColor?_spec {used : List Nat} (found : freeColor? k used = some c) :
    c < k ∧ c ∉ used := by
  refine ⟨List.mem_range.mp (List.mem_of_find?_eq_some found), ?_⟩
  simpa using List.find?_some found

theorem mem_used_of_none {used : List Nat} (none : freeColor? k used = none) : ∀ c < k, c ∈ used := by
  intro c inside
  unfold freeColor? at none
  rw [List.find?_eq_none] at none
  simpa using none c (List.mem_range.mpr inside)

theorem neighborColors_ok {colors : Std.ExtTreeMap VarId Nat} (proper : Proper g k colors) (x : VarId) :
    neighborColors g k colors x = .ok ((g.neighbors x).filterMap fun n => colors[n]?) := by
  have none : ((g.neighbors x).filterMap fun n => colors[n]?).find? (fun c => decide (k ≤ c)) = none := by
    rw [List.find?_eq_none]
    intro c member
    obtain ⟨y, -, colored⟩ := List.mem_filterMap.mp member
    simpa using proper.bounded y c colored
  rw [neighborColors, none]

theorem Proper.insert {colors : Std.ExtTreeMap VarId Nat} (formed : g.WellFormed)
    (proper : Proper g k colors) (node : x ∈ virtualNodes g) (inside : c < k)
    (free : c ∉ (g.neighbors x).filterMap fun n => colors[n]?) : Proper g k (colors.insert x c) := by
  obtain ⟨present, bare⟩ := mem_virtualNodes.mp node
  have unused : ∀ y, y ∈ g.neighborSet x → colors[y]? ≠ some c := fun y edge same =>
    free (List.mem_filterMap.mpr ⟨y, Graph.mem_neighbors.mpr edge, same⟩)
  have lookup : ∀ y, (colors.insert x c)[y]? = if x = y then some c else colors[y]? := by
    intro y
    simp only [Std.ExtTreeMap.getElem?_insert, Std.LawfulEqOrd.compare_eq_iff_eq]
  refine ⟨fun y d => ?_, fun y d => ?_, fun y z d edge => ?_, fun y d member own => ?_⟩ <;>
    simp only [lookup]
  · split
    · intro impossible
      cases impossible
      exact inside
    · exact proper.bounded y d
  · split
    · intro _
      exact ‹x = y› ▸ present
    · exact proper.node y d
  · -- Only one end of the edge can be the node with the new color.
    split
    · rename_i same
      subst same
      intro impossible
      cases impossible
      have other : x ≠ z := fun same => formed.irrefl x (by rwa [← same] at edge)
      rw [if_neg other]
      exact unused z edge
    · intro colored
      split
      · rename_i same
        subst same
        intro impossible
        cases impossible
        exact unused y (formed.symm y x edge) colored
      · exact proper.apart y z d edge colored
  · rw [if_neg (by rintro rfl; simp [bare] at own)]
    exact proper.kept y d member own

-- Between two nodes taken from the stack: every node waits on the stack, has a color or went without,
-- and one that went without has neighbours of every color.
structure Settled (g : Graph) (k : Nat) (items : List VarId) (attempt : Coloring) : Prop where
  proper : Proper g k attempt.colors
  nodes : ∀ x, x ∈ g.adj ↔ x ∈ items ∨ x ∈ attempt.uncolored ∨ ∃ c, attempt.colors[x]? = some c
  once : (items ++ attempt.uncolored).Nodup
  without : ∀ x ∈ items ++ attempt.uncolored, attempt.colors[x]? = none
  surrounded : ∀ x ∈ attempt.uncolored, ∀ c < k, ∃ y ∈ g.neighborSet x, attempt.colors[y]? = some c

namespace Settled

variable {items rest : List VarId} {attempt : Coloring}

theorem mem_virtual (settled : Settled g k items attempt) (member : x ∈ items ++ attempt.uncolored) :
    x ∈ virtualNodes g := by
  have node : x ∈ g.adj := (settled.nodes x).mpr ((List.mem_append.mp member).imp_right .inl)
  refine mem_virtualNodes.mpr ⟨node, ?_⟩
  cases own : g.color? x with
  | none => rfl
  | some c =>
    have kept := settled.proper.kept x c node own
    simp [settled.without x member] at kept

theorem color (formed : g.WellFormed) (settled : Settled g k (x :: rest) attempt) (inside : c < k)
    (free : c ∉ (g.neighbors x).filterMap fun n => attempt.colors[n]?) :
    Settled g k rest { attempt with colors := attempt.colors.insert x c } := by
  have bare : attempt.colors[x]? = none := settled.without x (by simp)
  have fresh : x ∉ rest ++ attempt.uncolored := (List.nodup_cons.mp settled.once).1
  have lookup : ∀ y, (attempt.colors.insert x c)[y]? = if x = y then some c else attempt.colors[y]? := by
    intro y
    simp only [Std.ExtTreeMap.getElem?_insert, Std.LawfulEqOrd.compare_eq_iff_eq]
  have kept : ∀ (y : VarId) (d : Nat), attempt.colors[y]? = some d →
      (attempt.colors.insert x c)[y]? = some d := by
    intro y d colored
    rw [lookup, if_neg, colored]
    rintro rfl
    simp [bare] at colored
  refine ⟨settled.proper.insert formed (settled.mem_virtual (by simp)) inside free, fun y => ?_,
    (List.nodup_cons.mp settled.once).2, fun y member => ?_, fun y member d below => ?_⟩
  · rw [settled.nodes y]
    simp only [List.mem_cons, lookup]
    by_cases same : x = y
    · simp [same]
    · simp [same, Ne.symm same]
  · rw [lookup, if_neg (by rintro rfl; exact fresh member)]
    exact settled.without y (List.mem_cons_of_mem _ member)
  · obtain ⟨z, edge, colored⟩ := settled.surrounded y member d below
    exact ⟨z, edge, kept z d colored⟩

theorem skip (settled : Settled g k (x :: rest) attempt)
    (full : ∀ c < k, ∃ y ∈ g.neighborSet x, attempt.colors[y]? = some c) :
    Settled g k rest { attempt with uncolored := x :: attempt.uncolored } := by
  have moved : ∀ y, y ∈ rest ++ x :: attempt.uncolored ↔ y ∈ x :: rest ++ attempt.uncolored := by
    intro y
    simp only [List.mem_append, List.mem_cons]
    tauto
  refine ⟨settled.proper, fun y => ?_, List.perm_middle.nodup_iff.mpr settled.once, fun y member => ?_,
    fun y member => ?_⟩
  · rw [settled.nodes y]
    simp only [List.mem_cons]
    tauto
  · exact settled.without y ((moved y).mp member)
  · rcases List.mem_cons.mp member with rfl | old
    · exact full
    · exact settled.surrounded y old

theorem perm {list : List VarId} (settled : Settled g k [] attempt) (same : list.Perm attempt.uncolored) :
    Settled g k [] { attempt with uncolored := list } := by
  refine ⟨settled.proper, fun x => ?_, ?_, fun x member => ?_, fun x member => ?_⟩
  · simpa [same.mem_iff] using settled.nodes x
  · simpa [same.nodup_iff] using settled.once
  · exact settled.without x (by simpa [same.mem_iff] using member)
  · exact settled.surrounded x (same.mem_iff.mp member)

end Settled

theorem select_step {id : VarId} {rest : List VarId} {attempt : Coloring} (formed : g.WellFormed)
    (settled : Settled g k (id :: rest) attempt) :
    ∃ next, select g k (id :: rest) attempt = select g k rest next ∧ Settled g k rest next ∧
      next.bigFail = attempt.bigFail ∧ next.optimistic = attempt.optimistic ∧
      (next.uncolored = attempt.uncolored ∨ next.uncolored = id :: attempt.uncolored ∧
        ∀ c < k, ∃ y ∈ g.neighborSet id, attempt.colors[y]? = some c) := by
  simp only [select, neighborColors_ok settled.proper id, bind, Except.bind]
  cases found : freeColor? k ((g.neighbors id).filterMap fun n => attempt.colors[n]?) with
  | some c =>
    obtain ⟨inside, free⟩ := freeColor?_spec found
    exact ⟨_, rfl, settled.color formed inside free, rfl, rfl, .inl rfl⟩
  | none =>
    have full : ∀ c < k, ∃ y ∈ g.neighborSet id, attempt.colors[y]? = some c := by
      intro c inside
      obtain ⟨y, edge, colored⟩ := List.mem_filterMap.mp (mem_used_of_none found c inside)
      exact ⟨y, Graph.mem_neighbors.mp edge, colored⟩
    exact ⟨_, rfl, settled.skip full, rfl, rfl, .inr ⟨rfl, full⟩⟩

theorem select_settled (formed : g.WellFormed) (items : List VarId) (before : Coloring)
    (settled : Settled g k items before) :
    ∃ after, select g k items before = .ok after ∧ Settled g k [] after ∧
      after.bigFail = before.bigFail ∧ after.optimistic = before.optimistic := by
  induction items generalizing before with
  | nil => exact ⟨before, rfl, settled, rfl, rfl⟩
  | cons id rest ih =>
    obtain ⟨next, goes, settled', failed, count, -⟩ := select_step formed settled
    obtain ⟨after, done, rest⟩ := ih next settled'
    rw [goes]
    rw [failed, count] at rest
    exact ⟨after, done, rest⟩

theorem sorted_mergeSort {list : List VarId} (once : list.Nodup) :
    (list.mergeSort fun a b => decide (a ≤ b)).Pairwise (· < ·) := by
  have sorted : (list.mergeSort fun a b => decide (a ≤ b)).Pairwise fun a b => decide (a ≤ b) = true := by
    apply List.pairwise_mergeSort
    · simpa using fun a b c => Nat.le_trans
    · simpa using Nat.le_total
  have distinct := (List.mergeSort_perm list fun a b => decide (a ≤ b)).nodup_iff.mpr once
  exact (sorted.and distinct).imp fun both => Nat.lt_of_le_of_ne (of_decide_eq_true both.1) both.2

section Pinned

variable {f : Function} (pinned : g.Pinned rf f.table)

include pinned

theorem registerError?_none {colors : Std.ExtTreeMap VarId Nat} (proper : Proper g rf.k colors) :
    registerError? g f rf colors = none := by
  rw [registerError?, List.findSome?_eq_none_iff]
  intro id member
  obtain ⟨listed, register⟩ := List.mem_filter.mp member
  have node := Graph.mem_nodes.mp listed
  cases own : g.color? id with
  | none =>
    obtain ⟨v, found, kind⟩ := pinned.virtual id node own
    simp [VarTable.isRegister, found, kind] at register
  | some c =>
    obtain ⟨v, found, -, named⟩ := pinned.register id node c own
    have name : f.table.nameOf id = v.name := by simp [VarTable.nameOf, found]
    simp only [name, named, proper.kept id c node own, if_true]

omit pinned in
theorem conflict?_none {colors : Std.ExtTreeMap VarId Nat} (proper : Proper g k colors) :
    conflict? g colors = none := by
  rw [conflict?, List.findSome?_eq_none_iff]
  intro u _
  cases colored : colors[u]? with
  | none => rfl
  | some c =>
    rw [Option.bind_some, Option.map_eq_none_iff, List.find?_eq_none]
    intro v edge
    simpa using proper.apart u v c (Graph.mem_neighbors.mp edge) colored

theorem verify_ok {attempt : Coloring} (proper : Proper g rf.k attempt.colors) :
    verify g f rf attempt = .ok attempt := by
  rw [verify, registerError?_none pinned proper, conflict?_none proper]

theorem color_of_selected {temps : VarSet} {stack : Stack VarId} {optimistic : Nat} {after : Coloring}
    (simplified : simplify rf (virtualNodes g) temps (virtualNodes g).length g {} 0 = .done stack optimistic)
    (selected : select g rf.k stack.items { colors := precolors g, optimistic := optimistic } = .ok after)
    (proper : Proper g rf.k after.colors) :
    color g f rf temps = .ok { after with
      uncolored := after.uncolored.mergeSort fun a b => decide (a ≤ b) } := by
  simp only [color, simplified, selected]
  exact verify_ok pinned proper

theorem precolors_proper : Proper g rf.k (precolors g) := by
  refine ⟨fun x c colored => ?_, fun x c colored => ?_, fun x y c edge left right => ?_,
    fun x c node own => precolors_getElem?.mpr ⟨node, own⟩⟩
  · obtain ⟨node, own⟩ := precolors_getElem?.mp colored
    exact pinned.color_lt node own
  · exact (precolors_getElem?.mp colored).1
  · obtain ⟨node, own⟩ := precolors_getElem?.mp left
    obtain ⟨node', own'⟩ := precolors_getElem?.mp right
    cases pinned.color_inj node node' own own'
    exact pinned.irrefl x edge

theorem start_partition : Partition (virtualNodes g) (virtualNodes g).length g {} := by
  have every : ∀ x ∈ virtualNodes g, x ∈ g.adj := fun x member => (mem_virtualNodes.mp member).1
  refine ⟨pinned.formed, ?_, fun x member => .inr (every x member), by simp,
    List.nodup_nil⟩
  rw [List.filter_eq_self.mpr fun x member => Graph.hasNode_iff.mpr (every x member)]

theorem start_settled {items : List VarId} (optimistic : Nat) (once : items.Nodup)
    (all : ∀ x, x ∈ items ↔ x ∈ virtualNodes g) :
    Settled g rf.k items { colors := precolors g, optimistic := optimistic } := by
  refine ⟨precolors_proper pinned, fun x => ?_, by simpa using once, fun x member => ?_, by simp⟩
  · simp only [all, mem_virtualNodes, precolors_getElem?]
    cases g.color? x <;> simp
  · have waits := (mem_virtualNodes.mp ((all x).mp (by simpa using member))).2
    refine Option.eq_none_iff_forall_ne_some.mpr fun c colored => ?_
    have own := (precolors_getElem?.mp colored).2
    simp [waits] at own

theorem color_of_done {temps : VarSet} {stack : Stack VarId} {optimistic : Nat}
    (simplified : simplify rf (virtualNodes g) temps (virtualNodes g).length g {} 0 = .done stack optimistic) :
    ∃ after, Settled g rf.k stack.items { colors := precolors g, optimistic := optimistic } ∧
      select g rf.k stack.items { colors := precolors g, optimistic := optimistic } = .ok after ∧
      Settled g rf.k [] after ∧ after.bigFail = false ∧ after.optimistic = optimistic ∧
      color g f rf temps = .ok { after with
        uncolored := after.uncolored.mergeSort fun a b => decide (a ≤ b) } := by
  have covered := simplify_covers rf temps (nodup_virtualNodes g) _ g {} 0 (start_partition pinned)
  rw [simplified] at covered
  have start := start_settled pinned optimistic covered.1 covered.2
  obtain ⟨after, selected, settled, failed, count⟩ := select_settled pinned.formed _ _ start
  exact ⟨after, start, selected, settled, failed, count,
    color_of_selected pinned simplified selected settled.proper⟩

-- What an attempt comes to. After a big fail nothing has a color; else every node has one or is listed
-- as one without.
structure Attempted (rf : RegisterFile) (g : Graph) (attempt : Coloring) : Prop where
  uncolored : ∀ x ∈ attempt.uncolored, x ∈ virtualNodes g
  sorted : attempt.uncolored.Pairwise (· < ·)
  bounded : ∀ (x : VarId) (c : Nat), attempt.colors[x]? = some c → c < rf.k ∧ x ∈ g.adj
  settled : attempt.bigFail = false → Settled g rf.k [] attempt

theorem color_settled (temps : VarSet) :
    ∃ attempt, color g f rf temps = .ok attempt ∧ Attempted rf g attempt := by
  cases simplified : simplify rf (virtualNodes g) temps (virtualNodes g).length g {} 0 with
  | gaveUp remaining optimistic =>
    have covered := simplify_covers rf temps (nodup_virtualNodes g) _ g {} 0 (start_partition pinned)
    rw [simplified] at covered
    have part : remaining.Sublist (virtualNodes g) := covered
    exact ⟨_, by rw [color, simplified], fun _ member => part.subset member,
      (sorted_virtualNodes g).sublist part, by simp, by simp⟩
  | done stack optimistic =>
    obtain ⟨after, -, -, settled, -, -, colored⟩ := color_of_done pinned simplified
    refine ⟨_, colored, fun x member => ?_, ?_,
      fun x c colored => ⟨settled.proper.bounded x c colored, settled.proper.node x c colored⟩,
      fun _ => settled.perm (List.mergeSort_perm _ _)⟩
    · exact settled.mem_virtual (List.mem_mergeSort.mp member)
    · exact sorted_mergeSort settled.once

end Pinned

theorem color_attempted (accepted : rf.Accepted) (analyzed : s.Analyzed rf lv)
    (interferes : Graph.Interferes rf s lv g) (temps : VarSet) :
    ∃ attempt, color g s.function rf temps = .ok attempt ∧ Attempted rf g attempt :=
  color_settled (interferes.pinned accepted analyzed) temps

theorem Attempted.once {attempt : Coloring} (attempted : Attempted rf g attempt) : attempt.uncolored.Nodup :=
  attempted.sorted.imp Nat.ne_of_lt

theorem Attempted.of_success {attempt : Coloring} (attempted : Attempted rf g attempt)
    (success : attempt.success = true) :
    Proper g rf.k attempt.colors ∧ ∀ x ∈ g.adj, ∃ c, attempt.colors[x]? = some c := by
  simp only [Coloring.success, Bool.and_eq_true, Bool.not_eq_true', List.isEmpty_iff] at success
  have settled := attempted.settled success.1
  refine ⟨settled.proper, fun x node => ?_⟩
  simpa [success.2] using (settled.nodes x).mp node

theorem mem_colors {colors : Std.ExtTreeMap VarId Nat} : x ∈ colors ↔ ∃ c, colors[x]? = some c := by
  rw [Std.ExtTreeMap.mem_iff_isSome_getElem?, Option.isSome_iff_exists]

-- An attempt that is not given up colors as much of the graph as its order of nodes allows: who goes
-- without has neighbours of every color.
theorem color_correct {f : Function} (pinned : g.Pinned rf f.table) (temps : VarSet) :
    ∃ attempt, color g f rf temps = .ok attempt ∧ (attempt.bigFail = false →
      (∀ x, x ∈ g.adj ↔ x ∈ attempt.colors ∨ x ∈ attempt.uncolored) ∧
      (∀ x, ¬(x ∈ attempt.colors ∧ x ∈ attempt.uncolored)) ∧
      attempt.uncolored.Pairwise (· < ·) ∧ (∀ x ∈ attempt.uncolored, g.color? x = none) ∧
      (∀ (x : VarId) (c : Nat), attempt.colors[x]? = some c → c < rf.k) ∧
      (∀ x ∈ g.adj, ∀ c, g.color? x = some c → attempt.colors[x]? = some c) ∧
      (∀ (x y : VarId) (c d : Nat), y ∈ g.neighborSet x → attempt.colors[x]? = some c →
        attempt.colors[y]? = some d → c ≠ d) ∧
      ∀ x ∈ attempt.uncolored, ∀ c < rf.k, ∃ y ∈ g.neighborSet x, attempt.colors[y]? = some c) := by
  obtain ⟨attempt, colored, attempted⟩ := color_settled pinned temps
  refine ⟨attempt, colored, fun finished => ?_⟩
  have settled := attempted.settled finished
  refine ⟨fun x => ?_, fun x both => ?_, attempted.sorted, fun x member => ?_, settled.proper.bounded,
    fun x node c => settled.proper.kept x c node, fun x y c d edge first second => ?_, settled.surrounded⟩
  · simpa [mem_colors, or_comm] using settled.nodes x
  · obtain ⟨c, found⟩ := mem_colors.mp both.1
    simp [settled.without x both.2] at found
  · exact (mem_virtualNodes.mp (attempted.uncolored x member)).2
  · rintro rfl
    exact settled.proper.apart x y c edge first second

def twoRegisters : RegisterFile where
  args := ["rdi"]
  callerSaved := ["rax", "rdi"]
  calleeSaved := []
  result := "rax"
  sp := "rsp"
  registers := ["rax", "rdi"]
  retry := 1
  tempPrefix := "%S"

def triangle : Graph := (Graph.addClique [0, 1, 2] (.ofRegisters [3, 4])).addEdge 0 3

def triangleFunction : Function where
  name := "@f"
  table := (VarTable.internAll { convention := some twoRegisters } ["%a", "%b", "%c", "rax", "rdi"]).2

theorem triangle_pinned : triangle.Pinned twoRegisters triangleFunction.table := by decide +kernel

theorem color_correct_triangle : triangle.Pinned twoRegisters triangleFunction.table ∧ ∃ attempt,
    color triangle triangleFunction twoRegisters ∅ = .ok attempt ∧ attempt.bigFail = false ∧
      attempt.uncolored = [0] ∧ ∀ c < 2, ∃ y ∈ triangle.neighborSet 0, attempt.colors[y]? = some c := by
  obtain ⟨attempt, colored, correct⟩ := color_correct triangle_pinned ∅
  have found : ((color triangle triangleFunction twoRegisters ∅).toOption.any fun attempt =>
      !attempt.bigFail && attempt.uncolored == [0]) = true := by decide +kernel
  simp only [colored, Except.toOption, Option.any_some, Bool.and_eq_true, Bool.not_eq_true',
    beq_iff_eq] at found
  obtain ⟨-, -, -, -, -, -, -, surrounded⟩ := correct found.1
  exact ⟨triangle_pinned, attempt, colored, found.1, found.2, surrounded 0 (by simp [found.2])⟩

end Coloring

end RegisterAllocation
