import Mathlib.Combinatorics.Enumerative.DoubleCounting
import Mathlib.Data.Sym.Sym2
import RegisterAllocation.Proofs.Graphs

namespace RegisterAllocation.Graph

variable {g : Graph} {u v x y : VarId}

def nodeSet (g : Graph) : Finset VarId := g.nodes.toFinset

-- Every edge once, whichever of its ends it is found at.
def edges (g : Graph) : Finset (Sym2 VarId) :=
  (g.nodes.flatMap fun u => (g.neighbors u).map fun v => s(u, v)).toFinset

theorem mem_nodeSet : x ∈ g.nodeSet ↔ x ∈ g.adj := by
  rw [nodeSet, List.mem_toFinset, mem_nodes]

namespace WellFormed

theorem mem_edges (formed : g.WellFormed) : s(u, v) ∈ g.edges ↔ v ∈ g.neighborSet u := by
  simp only [edges, List.mem_toFinset, List.mem_flatMap, List.mem_map, mem_nodes, mem_neighbors]
  constructor
  · rintro ⟨a, -, b, near, same⟩
    rcases Sym2.eq_iff.mp same with ⟨rfl, rfl⟩ | ⟨rfl, rfl⟩
    · exact near
    · exact formed.symm _ _ near
  · intro near
    exact ⟨u, formed.node v u (formed.symm u v near), v, near, rfl⟩

theorem exists_of_mem_edges (formed : g.WellFormed) {e : Sym2 VarId} (member : e ∈ g.edges) (here : u ∈ e) :
    ∃ v ∈ g.neighborSet u, s(u, v) = e := by
  obtain ⟨v, rfl⟩ := Sym2.mem_iff_exists.mp here
  exact ⟨v, formed.mem_edges.mp member, rfl⟩

theorem card_edges_at (formed : g.WellFormed) (u : VarId) :
    (g.edges.filter (u ∈ ·)).card = g.degree u := by
  have spread : g.edges.filter (u ∈ ·) = (g.neighbors u).toFinset.image fun v => s(u, v) := by
    ext e
    simp only [Finset.mem_filter, Finset.mem_image, List.mem_toFinset, mem_neighbors]
    constructor
    · rintro ⟨member, here⟩
      exact formed.exists_of_mem_edges member here
    · rintro ⟨v, near, rfl⟩
      exact ⟨formed.mem_edges.mpr near, Sym2.mem_mk_left u v⟩
  have distinct : (g.neighbors u).Nodup := VarSet.nodup_toList _
  rw [spread, Finset.card_image_of_injective _ fun _ _ => Sym2.congr_right.mp,
    List.toFinset_card_of_nodup distinct]
  exact Std.ExtTreeSet.length_toList

theorem card_ends (formed : g.WellFormed) {e : Sym2 VarId} (member : e ∈ g.edges) :
    (g.nodeSet.filter (· ∈ e)).card = 2 := by
  induction e using Sym2.ind with
  | h u v =>
    have near := formed.mem_edges.mp member
    have apart : u ≠ v := by
      rintro rfl
      exact formed.irrefl u near
    have ends : g.nodeSet.filter (· ∈ s(u, v)) = {u, v} := by
      ext x
      simp only [Finset.mem_filter, Sym2.mem_iff, mem_nodeSet, Finset.mem_insert, Finset.mem_singleton,
        and_iff_right_iff_imp]
      rintro (rfl | rfl)
      · exact formed.node v x (formed.symm x v near)
      · exact formed.node u x near
    rw [ends, Finset.card_pair apart]

theorem sum_degree (formed : g.WellFormed) : ∑ u ∈ g.nodeSet, g.degree u = 2 * g.edges.card :=
  calc ∑ u ∈ g.nodeSet, g.degree u
      = ∑ u ∈ g.nodeSet, (g.edges.filter (u ∈ ·)).card :=
        Finset.sum_congr rfl fun u _ => (formed.card_edges_at u).symm
    _ = ∑ e ∈ g.edges, (g.nodeSet.filter (· ∈ e)).card :=
        Finset.sum_card_bipartiteAbove_eq_sum_card_bipartiteBelow (· ∈ ·)
    _ = ∑ _e ∈ g.edges, 2 := Finset.sum_congr rfl fun _ member => formed.card_ends member
    _ = 2 * g.edges.card := by rw [Finset.sum_const, smul_eq_mul, mul_comm]

end WellFormed

structure Has (g : Graph) (nodes : Finset VarId) (edges : Finset (Sym2 VarId))
    (precolored : Std.ExtTreeMap VarId Nat) : Prop where
  nodes : g.nodeSet = nodes
  edges : g.edges = edges
  precolored : g.precolored = precolored

namespace WellFormed

theorem addNode_has (formed : g.WellFormed) (u : VarId) :
    (g.addNode u).Has (insert u g.nodeSet) g.edges g.precolored where
  nodes := by
    ext x
    rw [mem_nodeSet, mem_addNode, Finset.mem_insert, mem_nodeSet]
  edges := by
    ext e
    induction e using Sym2.ind with
    | h x y => rw [(formed.addNode u).mem_edges, neighborSet_addNode, formed.mem_edges]
  precolored := precolored_addNode

theorem addEdge_has (formed : g.WellFormed) (apart : u ≠ v) :
    (g.addEdge u v).Has (insert u (insert v g.nodeSet)) (insert s(u, v) g.edges) g.precolored where
  nodes := by
    ext x
    rw [mem_nodeSet, mem_addEdge, Finset.mem_insert, Finset.mem_insert, mem_nodeSet]
    tauto
  edges := by
    ext e
    induction e using Sym2.ind with
    | h x y =>
      rw [(formed.addEdge u v).mem_edges, mem_neighborSet_addEdge, Finset.mem_insert, Sym2.eq_iff,
        formed.mem_edges]
      tauto
  precolored := precolored_addEdge

theorem remove_has (formed : g.WellFormed) (u : VarId) :
    (g.remove u).Has (g.nodeSet.erase u) (g.edges.filter (u ∉ ·)) g.precolored where
  nodes := by
    ext x
    rw [mem_nodeSet, formed.mem_remove, Finset.mem_erase, mem_nodeSet, and_comm]
  edges := by
    ext e
    induction e using Sym2.ind with
    | h x y =>
      rw [(formed.remove u).mem_edges, formed.mem_neighborSet_remove, Finset.mem_filter, formed.mem_edges,
        Sym2.mem_iff, not_or, @eq_comm _ u x, @eq_comm _ u y]
  precolored :=
    (foldl_removeNeighbor (g.neighbors u) g fun x near => formed.node u x (mem_neighbors.mp near)).2.2

end WellFormed

end RegisterAllocation.Graph
