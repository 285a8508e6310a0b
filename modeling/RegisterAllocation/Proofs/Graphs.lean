import RegisterAllocation.Interference
import RegisterAllocation.Proofs.LivenessSolution

namespace RegisterAllocation.Graph

variable {g : Graph} {u v x y : VarId} {c : Nat}

-- Edges go both ways, join nodes, and never lead from a node to itself.
structure WellFormed (g : Graph) : Prop where
  symm : ∀ u v, v ∈ g.neighborSet u → u ∈ g.neighborSet v
  irrefl : ∀ u, u ∉ g.neighborSet u
  node : ∀ u v, v ∈ g.neighborSet u → v ∈ g.adj

theorem mem_nodes : x ∈ g.nodes ↔ x ∈ g.adj := Std.ExtTreeMap.mem_keys

theorem hasNode_iff : g.hasNode x = true ↔ x ∈ g.adj := Std.ExtTreeMap.contains_iff_mem

theorem mem_neighbors : y ∈ g.neighbors x ↔ y ∈ g.neighborSet x := Std.ExtTreeSet.mem_toList

theorem nodup_nodes (g : Graph) : g.nodes.Nodup :=
  (Std.ExtTreeMap.distinct_keys (t := g.adj)).imp fun apart same =>
    apart (Std.LawfulEqOrd.compare_eq_iff_eq.mpr same)

theorem neighborSet_of_not_mem (absent : x ∉ g.adj) : g.neighborSet x = ∅ :=
  Std.ExtTreeMap.getD_eq_fallback absent

theorem eq_of_getElem? {g' : Graph} (adj : ∀ u : VarId, g.adj[u]? = g'.adj[u]?)
    (colors : g.precolored = g'.precolored) : g = g' := by
  cases g
  cases g'
  simp only [mk.injEq]
  exact ⟨Std.ExtTreeMap.ext_getElem? adj, colors⟩

theorem getElem?_adj : g.adj[u]? = if u ∈ g.adj then some (g.neighborSet u) else none := by
  rw [neighborSet, Std.ExtTreeMap.getD_eq_getD_getElem?]
  cases found : g.adj[u]? with
  | none => simp [Std.ExtTreeMap.mem_iff_isSome_getElem?, found]
  | some s => simp [Std.ExtTreeMap.mem_iff_isSome_getElem?, found]

theorem eq_of_mem {g' : Graph} (nodes : ∀ u, u ∈ g.adj ↔ u ∈ g'.adj)
    (edges : ∀ u v, v ∈ g.neighborSet u ↔ v ∈ g'.neighborSet u)
    (colors : g.precolored = g'.precolored) : g = g' := by
  refine eq_of_getElem? (fun u => ?_) colors
  rw [getElem?_adj, getElem?_adj, Std.ExtTreeSet.ext_mem (edges u)]
  simp only [nodes u]

theorem mem_addNode : x ∈ (g.addNode u).adj ↔ x = u ∨ x ∈ g.adj := by
  unfold addNode
  split
  · rename_i known
    rw [hasNode_iff] at known
    exact ⟨.inr, by rintro (rfl | old) <;> assumption⟩
  · simp [@eq_comm _ u x]

theorem neighborSet_addNode : (g.addNode u).neighborSet x = g.neighborSet x := by
  unfold addNode
  split
  · rfl
  · rename_i absent
    rw [hasNode_iff] at absent
    simp only [neighborSet, Std.ExtTreeMap.getD_insert]
    split
    · rename_i same
      cases Std.LawfulEqOrd.compare_eq_iff_eq.mp same
      exact (neighborSet_of_not_mem absent).symm
    · rfl

theorem precolored_addNode : (g.addNode u).precolored = g.precolored := by
  unfold addNode
  split <;> rfl

theorem color?_addNode : (g.addNode u).color? x = g.color? x := by
  rw [color?, precolored_addNode, color?]

theorem mem_neighborSet_addNeighbor :
    y ∈ (g.addNeighbor u v).neighborSet x ↔ y ∈ g.neighborSet x ∨ (x = u ∧ y = v) := by
  simp only [addNeighbor, neighborSet, Std.ExtTreeMap.getD_insert, Std.LawfulEqOrd.compare_eq_iff_eq]
  split
  · rename_i same
    subst same
    rw [VarSet.mem_insert_iff]
    simp [or_comm]
  · rename_i apart
    simp [Ne.symm apart]

theorem mem_addNeighbor : x ∈ (g.addNeighbor u v).adj ↔ x = u ∨ x ∈ g.adj := by
  simp [addNeighbor, @eq_comm _ u x]

theorem mem_neighborSet_addEdge :
    y ∈ (g.addEdge u v).neighborSet x ↔
      y ∈ g.neighborSet x ∨ (u ≠ v ∧ ((x = u ∧ y = v) ∨ (x = v ∧ y = u))) := by
  unfold addEdge
  split
  · rename_i same
    simp [same]
  · rename_i apart
    rw [mem_neighborSet_addNeighbor, mem_neighborSet_addNeighbor]
    simp only [apart, ne_eq, not_false_eq_true, true_and, or_assoc]

theorem mem_addEdge : x ∈ (g.addEdge u v).adj ↔ x ∈ g.adj ∨ (u ≠ v ∧ (x = u ∨ x = v)) := by
  unfold addEdge
  split
  · rename_i same
    simp [same]
  · rename_i apart
    rw [mem_addNeighbor, mem_addNeighbor]
    simp only [apart, ne_eq, not_false_eq_true, true_and]
    tauto

theorem precolored_addEdge : (g.addEdge u v).precolored = g.precolored := by
  unfold addEdge
  split <;> rfl

theorem color?_addEdge : (g.addEdge u v).color? x = g.color? x := by
  rw [color?, precolored_addEdge, color?]

theorem addEdge_of_addNode (apart : u ≠ v) :
    (((g.addNode u).addNode v).addNeighbor u v).addNeighbor v u = g.addEdge u v := by
  refine eq_of_mem (fun x => ?_) (fun x y => ?_) ?_
  · simp only [mem_addNeighbor, mem_addNode, mem_addEdge]
    tauto
  · simp only [mem_neighborSet_addNeighbor, neighborSet_addNode, mem_neighborSet_addEdge]
    tauto
  · simp only [addNeighbor, precolored_addNode, precolored_addEdge]

theorem color?_setColor : (g.setColor u c).color? x = if x = u then some c else g.color? x := by
  simp only [setColor, color?, Std.ExtTreeMap.getElem?_insert, Std.LawfulEqOrd.compare_eq_iff_eq,
    @eq_comm _ u x]

theorem empty_wellFormed : WellFormed {} := by
  have empty : ∀ x, neighborSet {} x = ∅ := fun x => neighborSet_of_not_mem (by simp)
  exact ⟨fun u v => by simp [empty], fun u => by simp [empty], fun u v => by simp [empty]⟩

theorem WellFormed.addNode (formed : g.WellFormed) (u : VarId) : (g.addNode u).WellFormed := by
  refine ⟨fun a b => ?_, fun a => ?_, fun a b => ?_⟩
  · simpa only [neighborSet_addNode] using formed.symm a b
  · simpa only [neighborSet_addNode] using formed.irrefl a
  · rw [neighborSet_addNode, mem_addNode]
    exact fun edge => .inr (formed.node a b edge)

theorem WellFormed.setColor (formed : g.WellFormed) (u : VarId) (c : Nat) :
    (g.setColor u c).WellFormed :=
  ⟨formed.symm, formed.irrefl, formed.node⟩

theorem WellFormed.addEdge (formed : g.WellFormed) (u v : VarId) : (g.addEdge u v).WellFormed := by
  refine ⟨fun a b => ?_, fun a => ?_, fun a b => ?_⟩
  · rw [mem_neighborSet_addEdge, mem_neighborSet_addEdge]
    intro either
    rcases either with old | ⟨apart, ends⟩
    · exact .inl (formed.symm a b old)
    · exact .inr ⟨apart, ends.symm.imp (fun e => ⟨e.2, e.1⟩) (fun e => ⟨e.2, e.1⟩)⟩
  · rw [mem_neighborSet_addEdge]
    intro either
    rcases either with old | ⟨apart, ⟨rfl, same⟩ | ⟨rfl, same⟩⟩
    · exact formed.irrefl a old
    · exact apart same
    · exact apart same.symm
  · rw [mem_neighborSet_addEdge, mem_addEdge]
    intro either
    rcases either with old | ⟨apart, ends⟩
    · exact .inl (formed.node a b old)
    · exact .inr ⟨apart, by tauto⟩

theorem foldl_removeNeighbor (list : List VarId) (g : Graph) (inside : ∀ u ∈ list, u ∈ g.adj) :
    (∀ x y, y ∈ (list.foldl (removeNeighbor v) g).neighborSet x ↔
      y ∈ g.neighborSet x ∧ ¬(x ∈ list ∧ y = v)) ∧
    (∀ x, x ∈ (list.foldl (removeNeighbor v) g).adj ↔ x ∈ g.adj) ∧
    (list.foldl (removeNeighbor v) g).precolored = g.precolored := by
  induction list generalizing g with
  | nil => simp
  | cons u rest ih =>
    have member : ∀ x, x ∈ (removeNeighbor v g u).adj ↔ x ∈ g.adj := by
      intro x
      simp only [removeNeighbor, Std.ExtTreeMap.mem_insert, Std.LawfulEqOrd.compare_eq_iff_eq]
      exact ⟨by rintro (rfl | old); exacts [inside u List.mem_cons_self, old], .inr⟩
    have edges : ∀ x y, y ∈ (removeNeighbor v g u).neighborSet x ↔
        y ∈ g.neighborSet x ∧ ¬(x = u ∧ y = v) := by
      intro x y
      simp only [removeNeighbor, neighborSet, Std.ExtTreeMap.getD_insert,
        Std.LawfulEqOrd.compare_eq_iff_eq]
      split
      · rename_i same
        subst same
        rw [VarSet.mem_erase_iff]
        simp
      · rename_i apart
        simp [Ne.symm apart]
    obtain ⟨restEdges, restNodes, restColors⟩ := ih (removeNeighbor v g u) fun w later =>
      (member w).mpr (inside w (List.mem_cons_of_mem _ later))
    rw [List.foldl_cons]
    refine ⟨fun x y => ?_, fun x => (restNodes x).trans (member x), restColors⟩
    rw [restEdges, edges, List.mem_cons]
    tauto

theorem WellFormed.mem_neighborSet_remove (formed : g.WellFormed) :
    y ∈ (g.remove v).neighborSet x ↔ y ∈ g.neighborSet x ∧ x ≠ v ∧ y ≠ v := by
  obtain ⟨edges, -, -⟩ := foldl_removeNeighbor (v := v) (g.neighbors v) g fun u member =>
    formed.node v u (mem_neighbors.mp member)
  have erased : (g.remove v).neighborSet x =
      if x = v then ∅ else ((g.neighbors v).foldl (removeNeighbor v) g).neighborSet x := by
    simp only [remove, neighborSet, Std.ExtTreeMap.getD_erase, Std.LawfulEqOrd.compare_eq_iff_eq,
      @eq_comm _ v x]
  rw [erased]
  split
  · rename_i same
    simp [same]
  · rename_i apart
    rw [edges, mem_neighbors]
    constructor
    · intro h
      obtain ⟨edge, other⟩ := h
      refine ⟨edge, apart, fun same => other ⟨?_, same⟩⟩
      exact formed.symm x v (same ▸ edge)
    · intro h
      obtain ⟨edge, -, other⟩ := h
      exact ⟨edge, fun both => other both.2⟩

theorem WellFormed.mem_remove (formed : g.WellFormed) : x ∈ (g.remove v).adj ↔ x ∈ g.adj ∧ x ≠ v := by
  obtain ⟨-, nodes, -⟩ := foldl_removeNeighbor (v := v) (g.neighbors v) g fun u member =>
    formed.node v u (mem_neighbors.mp member)
  simp only [remove, Std.ExtTreeMap.mem_erase, nodes, Std.LawfulEqOrd.compare_eq_iff_eq, ne_eq,
    @eq_comm _ v x, and_comm]

theorem WellFormed.color?_remove (formed : g.WellFormed) : (g.remove v).color? x = g.color? x := by
  obtain ⟨-, -, colors⟩ := foldl_removeNeighbor (v := v) (g.neighbors v) g fun u member =>
    formed.node v u (mem_neighbors.mp member)
  simp only [remove, color?, colors]

theorem WellFormed.remove (formed : g.WellFormed) (v : VarId) : (g.remove v).WellFormed := by
  refine ⟨fun a b => ?_, fun a => ?_, fun a b => ?_⟩
  · rw [formed.mem_neighborSet_remove, formed.mem_neighborSet_remove]
    intro h
    obtain ⟨edge, left, right⟩ := h
    exact ⟨formed.symm a b edge, right, left⟩
  · rw [formed.mem_neighborSet_remove]
    intro h
    obtain ⟨edge, -⟩ := h
    exact formed.irrefl a edge
  · rw [formed.mem_neighborSet_remove, formed.mem_remove]
    intro h
    obtain ⟨edge, -, right⟩ := h
    exact ⟨formed.node a b edge, right⟩

theorem mem_neighborSet_foldl_addEdge (list : List VarId) (g : Graph) :
    y ∈ (list.foldl (fun g v => g.addEdge u v) g).neighborSet x ↔
      y ∈ g.neighborSet x ∨ (x ≠ y ∧ ((x = u ∧ y ∈ list) ∨ (y = u ∧ x ∈ list))) := by
  induction list generalizing g with
  | nil => simp
  | cons v rest ih =>
    rw [List.foldl_cons, ih, mem_neighborSet_addEdge]
    simp only [List.mem_cons]
    grind

theorem mem_foldl_addEdge (list : List VarId) (g : Graph) (first : u ∈ g.adj)
    (inside : ∀ v ∈ list, v ∈ g.adj) :
    x ∈ (list.foldl (fun g v => g.addEdge u v) g).adj ↔ x ∈ g.adj := by
  induction list generalizing g with
  | nil => simp
  | cons v rest ih =>
    have same : ∀ y, y ∈ (g.addEdge u v).adj ↔ y ∈ g.adj := by
      intro y
      rw [mem_addEdge]
      refine ⟨?_, .inl⟩
      intro either
      rcases either with old | ⟨-, rfl | rfl⟩
      exacts [old, first, inside _ List.mem_cons_self]
    rw [List.foldl_cons, ih _ ((same u).mpr first) fun w later =>
      (same w).mpr (inside w (List.mem_cons_of_mem _ later)), same]

theorem foldl_keeps {α : Type} {P : Graph → Prop} {f : Graph → α → Graph} (list : List α)
    (keeps : ∀ g, ∀ a ∈ list, P g → P (f g a)) (start : P g) : P (list.foldl f g) := by
  induction list generalizing g with
  | nil => exact start
  | cons a rest ih =>
    exact ih (fun g' b later => keeps g' b (List.mem_cons_of_mem _ later))
      (keeps g a List.mem_cons_self start)

theorem mem_neighborSet_addClique (list : List VarId) (g : Graph) :
    y ∈ (addClique list g).neighborSet x ↔
      y ∈ g.neighborSet x ∨ (x ≠ y ∧ x ∈ list ∧ y ∈ list) := by
  induction list generalizing g with
  | nil => simp [addClique]
  | cons u rest ih =>
    rw [addClique, ih, mem_neighborSet_foldl_addEdge]
    simp only [List.mem_cons]
    grind

theorem mem_addClique (list : List VarId) (g : Graph) (inside : ∀ v ∈ list, v ∈ g.adj) :
    x ∈ (addClique list g).adj ↔ x ∈ g.adj := by
  induction list generalizing g with
  | nil => simp [addClique]
  | cons u rest ih =>
    have same : ∀ y, y ∈ (rest.foldl (fun g v => g.addEdge u v) g).adj ↔ y ∈ g.adj := fun y =>
      mem_foldl_addEdge rest g (inside u List.mem_cons_self)
        fun v later => inside v (List.mem_cons_of_mem _ later)
    rw [addClique, ih _ fun v later => (same v).mpr (inside v (List.mem_cons_of_mem _ later)), same]

theorem color?_addClique (list : List VarId) (g : Graph) : (addClique list g).color? x = g.color? x := by
  induction list generalizing g with
  | nil => rfl
  | cons u rest ih =>
    rw [addClique, ih]
    exact foldl_keeps (P := fun g' => g'.color? x = g.color? x) rest
      (fun g' v _ same => color?_addEdge.trans same) rfl

theorem WellFormed.addClique (formed : g.WellFormed) (list : List VarId) :
    (Graph.addClique list g).WellFormed := by
  induction list generalizing g with
  | nil => exact formed
  | cons u rest ih => exact ih (foldl_keeps rest (fun g' v _ formed' => formed'.addEdge u v) formed)

def colored (entries : List (VarId × Nat)) (g : Graph) : Graph :=
  entries.foldl (fun g entry => (g.addNode entry.1).setColor entry.1 entry.2) g

theorem colored_cons (entry : VarId × Nat) (entries : List (VarId × Nat)) (g : Graph) :
    colored (entry :: entries) g = colored entries ((g.addNode entry.1).setColor entry.1 entry.2) := rfl

theorem mem_colored (entries : List (VarId × Nat)) (g : Graph) :
    x ∈ (colored entries g).adj ↔ x ∈ g.adj ∨ x ∈ entries.map Prod.fst := by
  induction entries generalizing g with
  | nil => simp [colored]
  | cons entry rest ih =>
    rw [colored_cons, ih, List.map_cons, List.mem_cons]
    change x ∈ (g.addNode entry.1).adj ∨ _ ↔ _
    rw [mem_addNode]
    tauto

theorem neighborSet_colored (entries : List (VarId × Nat)) (g : Graph) :
    (colored entries g).neighborSet x = g.neighborSet x :=
  foldl_keeps (P := fun g' => g'.neighborSet x = g.neighborSet x) entries
    (fun g' entry _ same => (neighborSet_addNode (g := g') (u := entry.1)).trans same) rfl

theorem color?_colored (entries : List (VarId × Nat)) (g : Graph) (distinct : (entries.map Prod.fst).Nodup)
    (fresh : ∀ x ∈ entries.map Prod.fst, g.color? x = none) :
    (colored entries g).color? x = some c ↔ g.color? x = some c ∨ (x, c) ∈ entries := by
  induction entries generalizing g with
  | nil => simp [colored]
  | cons entry rest ih =>
    obtain ⟨id, color⟩ := entry
    rw [List.map_cons, List.nodup_cons] at distinct
    have here : ∀ y, ((g.addNode id).setColor id color).color? y =
        if y = id then some color else g.color? y := by
      intro y
      rw [color?_setColor, color?_addNode]
    rw [colored_cons, ih _ distinct.2, here, List.mem_cons, Prod.mk.injEq]
    · by_cases same : x = id
      · subst same
        have absent : ∀ d, (x, d) ∉ rest := fun d member =>
          distinct.1 (List.mem_map.mpr ⟨(x, d), member, rfl⟩)
        simp [absent, fresh x List.mem_cons_self, eq_comm]
      · simp [same]
    · intro y later
      have apart : y ≠ id := fun same => distinct.1 (same ▸ later)
      simp only [here, if_neg apart]
      exact fresh y (List.mem_cons_of_mem _ later)

theorem ofRegisters_eq (regs : List VarId) : ofRegisters regs = addClique regs (colored regs.zipIdx {}) := rfl

theorem ofRegisters_wellFormed (regs : List VarId) : (ofRegisters regs).WellFormed := by
  rw [ofRegisters_eq]
  exact WellFormed.addClique (foldl_keeps regs.zipIdx (fun g entry _ formed =>
    (formed.addNode entry.1).setColor entry.1 entry.2) empty_wellFormed) regs

theorem mem_ofRegisters (regs : List VarId) : x ∈ (ofRegisters regs).adj ↔ x ∈ regs := by
  have base : ∀ y, y ∈ (colored regs.zipIdx {}).adj ↔ y ∈ regs := by
    intro y
    rw [mem_colored, List.zipIdx_map_fst]
    simp
  rw [ofRegisters_eq, mem_addClique _ _ fun v member => (base v).mpr member, base]

theorem mem_neighborSet_ofRegisters (regs : List VarId) :
    y ∈ (ofRegisters regs).neighborSet x ↔ x ≠ y ∧ x ∈ regs ∧ y ∈ regs := by
  have none : (colored regs.zipIdx {}).neighborSet x = ∅ := by
    rw [neighborSet_colored]
    exact neighborSet_of_not_mem (by simp)
  rw [ofRegisters_eq, mem_neighborSet_addClique, none]
  simp

theorem color?_ofRegisters (regs : List VarId) (distinct : regs.Nodup) :
    (ofRegisters regs).color? x = some c ↔ regs[c]? = some x := by
  rw [ofRegisters_eq, color?_addClique, color?_colored _ _ (by rwa [List.zipIdx_map_fst])]
  · simp [color?, List.mem_zipIdx_iff_getElem?]
  · simp [color?]

theorem mem_neighborSet_addConflicts (sp : Option VarId) (note : Note) (out : VarSet) (g : Graph) :
    y ∈ (addConflicts sp g note out).neighborSet x ↔ y ∈ g.neighborSet x ∨
      (x ≠ y ∧ sp ≠ some x ∧ sp ≠ some y ∧
        ((x ∈ note.defined ∧ y ∈ out) ∨ (y ∈ note.defined ∧ x ∈ out))) := by
  have inner : ∀ (d : VarId) (outs : List VarId) (g : Graph),
      y ∈ (outs.foldl (fun g v => if sp = some d ∨ sp = some v then g else g.addEdge d v) g).neighborSet x ↔
        y ∈ g.neighborSet x ∨ (x ≠ y ∧ sp ≠ some x ∧ sp ≠ some y ∧
          ((x = d ∧ y ∈ outs) ∨ (y = d ∧ x ∈ outs))) := by
    intro d outs
    induction outs with
    | nil => simp
    | cons v rest ih =>
      intro g
      rw [List.foldl_cons, ih]
      simp only [List.mem_cons]
      split
      · grind
      · rw [mem_neighborSet_addEdge]
        grind
  have outer : ∀ (defs : List VarId) (g : Graph),
      y ∈ (defs.foldl (fun g d => out.toList.foldl
        (fun g v => if sp = some d ∨ sp = some v then g else g.addEdge d v) g) g).neighborSet x ↔
        y ∈ g.neighborSet x ∨ (x ≠ y ∧ sp ≠ some x ∧ sp ≠ some y ∧
          ((x ∈ defs ∧ y ∈ out) ∨ (y ∈ defs ∧ x ∈ out))) := by
    intro defs
    induction defs with
    | nil => simp
    | cons d rest ih =>
      intro g
      rw [List.foldl_cons, ih, inner]
      simp only [List.mem_cons, Std.ExtTreeSet.mem_toList]
      grind
  rw [addConflicts, outer]
  simp only [Std.ExtTreeSet.mem_toList]

theorem addConflicts_keeps {P : Graph → Prop} (sp : Option VarId) (note : Note) (out : VarSet)
    (keeps : ∀ g, ∀ d ∈ note.defined, ∀ v ∈ out, P g → P (g.addEdge d v)) (start : P g) :
    P (addConflicts sp g note out) := by
  refine foldl_keeps _ (fun g' d defined holds => ?_) start
  refine foldl_keeps _ (fun g'' v live holds' => ?_) holds
  split
  · exact holds'
  · exact keeps g'' d (Std.ExtTreeSet.mem_toList.mp defined) v (Std.ExtTreeSet.mem_toList.mp live) holds'

end RegisterAllocation.Graph
