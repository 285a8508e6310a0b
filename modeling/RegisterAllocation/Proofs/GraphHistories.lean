import RegisterAllocation.Proofs.EdgeSets
import RegisterAllocation.Proofs.ExactInterference
import RegisterAllocation.Proofs.SharedGraphs

namespace RegisterAllocation.Heap

variable {h h' : Heap} {g g' : Graph} {i : Nat}

-- Graphs are made one after the other, and the later operations name them by their turn.
inductive Operation where
  | create
  | build (s : Sheet) (lv : Liveness) (rf : RegisterFile)
  | addNode (i : Nat) (id : VarId)
  | addEdge (i : Nat) (u v : VarId)
  | remove (i : Nat) (id : VarId)
  | clone (i : Nat)

def step (h : Heap) : Operation → Option Heap
  | .create => some h.create
  | .build s lv rf => h.build s lv rf
  | .addNode i id => (h.refs[i]?).bind fun r => h.addNode r id
  | .addEdge i u v => (h.refs[i]?).bind fun r => h.addEdge r u v
  | .remove i id => (h.refs[i]?).bind fun r => h.remove r id
  | .clone i => (h.refs[i]?).bind fun r => h.clone r

def run (operations : List Operation) : Option Heap := operations.foldlM step {}

structure Kept (h : Heap) : Prop where
  sound : h.Sound
  formed : ∀ g ∈ h.graphs, g.WellFormed

theorem exists_ref (found : h.graphs[i]? = some g) :
    ∃ r, h.refs[i]? = some r ∧ r ∈ h.refs ∧ h.graph r = g := by
  rw [graphs, List.getElem?_map, Option.map_eq_some_iff] at found
  obtain ⟨r, there, same⟩ := found
  exact ⟨r, there, List.mem_of_getElem? there, same⟩

theorem start_kept : Kept {} := by
  refine ⟨⟨List.nodup_nil, List.nodup_nil, ?_, ?_, ?_⟩, ?_⟩
  all_goals
    intro _ member
    cases member

theorem exists_graph {f : GraphRef → Option Heap} (ran : (h.refs[i]?).bind f = some h') :
    ∃ g, h.graphs[i]? = some g := by
  obtain ⟨r, found, -⟩ := Option.bind_eq_some_iff.mp ran
  exact ⟨h.graph r, by rw [graphs, List.getElem?_map, found, Option.map_some]⟩

namespace Kept

theorem changes {f : GraphRef → Option Heap} (kept : h.Kept) (found : h.graphs[i]? = some g)
    (performed : ∀ r ∈ h.refs, h.graph r = g → ∃ h', f r = some h' ∧ Turns h r g' h')
    (formed : g'.WellFormed) :
    ∃ h', (h.refs[i]?).bind f = some h' ∧ h'.Kept ∧ h'.graphs = h.graphs.set i g' := by
  obtain ⟨r, there, made, same⟩ := exists_ref found
  obtain ⟨h', ran, turns⟩ := performed r made same
  have after := turns.graphs_set kept.sound there
  refine ⟨h', by rw [there, Option.bind_some, ran], ⟨turns.sound, fun x member => ?_⟩, after⟩
  rw [after] at member
  rcases List.mem_or_eq_of_mem_set member with old | rfl
  · exact kept.formed x old
  · exact formed

theorem adds (kept : h.Kept) (turns : Turns h.create h.next g h') (formed : g.WellFormed) :
    h'.Kept ∧ h'.graphs = h.graphs ++ [g] := by
  have after := turns.graphs_new kept.sound
  refine ⟨⟨turns.sound, fun x member => ?_⟩, after⟩
  rw [after, List.mem_append, List.mem_singleton] at member
  rcases member with old | rfl
  · exact kept.formed x old
  · exact formed

theorem step_create (kept : h.Kept) :
    ∃ h', h.step .create = some h' ∧ h'.Kept ∧ h'.graphs = h.graphs ++ [({} : Graph)] :=
  ⟨h.create, rfl, kept.adds (graph_create_next ▸ .refl kept.sound.create) Graph.empty_wellFormed⟩

theorem step_build (kept : h.Kept) (s : Sheet) (lv : Liveness) (rf : RegisterFile) :
    ∃ h', h.step (.build s lv rf) = some h' ∧ h'.Kept ∧ h'.graphs = h.graphs ++ [(Graph.build s lv rf).1] := by
  obtain ⟨h', ran, turns⟩ := kept.sound.build_turns s lv rf
  exact ⟨h', ran, kept.adds turns Graph.build_wellFormed⟩

theorem step_addNode (kept : h.Kept) (found : h.graphs[i]? = some g) (u : VarId) :
    ∃ h', h.step (.addNode i u) = some h' ∧ h'.Kept ∧ h'.graphs = h.graphs.set i (g.addNode u) :=
  kept.changes found (fun _ made same => same ▸ addNode_performs u h kept.sound made)
    ((kept.formed g (List.mem_of_getElem? found)).addNode u)

theorem step_addEdge (kept : h.Kept) (found : h.graphs[i]? = some g) (u v : VarId) :
    ∃ h', h.step (.addEdge i u v) = some h' ∧ h'.Kept ∧ h'.graphs = h.graphs.set i (g.addEdge u v) :=
  kept.changes found (fun _ made same => same ▸ addEdge_performs u v h kept.sound made)
    ((kept.formed g (List.mem_of_getElem? found)).addEdge u v)

theorem step_remove (kept : h.Kept) (found : h.graphs[i]? = some g) (u : VarId) :
    ∃ h', h.step (.remove i u) = some h' ∧ h'.Kept ∧ h'.graphs = h.graphs.set i (g.remove u) := by
  have formed := kept.formed g (List.mem_of_getElem? found)
  refine kept.changes found (fun r made same => ?_) (formed.remove u)
  have turned := kept.sound.remove_turns made (same ▸ formed) u
  rwa [same] at turned

theorem step_clone (kept : h.Kept) (found : h.graphs[i]? = some g) :
    ∃ h', h.step (.clone i) = some h' ∧ h'.Kept ∧ h'.graphs = h.graphs ++ [g] := by
  obtain ⟨r, there, made, same⟩ := exists_ref found
  obtain ⟨h', ran, turns⟩ := kept.sound.clone_turns made
  rw [same] at turns
  refine ⟨h', ?_, kept.adds turns (kept.formed g (List.mem_of_getElem? found))⟩
  rw [step, there, Option.bind_some, ran]

theorem of_step {operation : Operation} {P : Heap → Prop}
    (known : ∃ h'', h.step operation = some h'' ∧ h''.Kept ∧ P h'') (ran : h.step operation = some h') :
    h'.Kept := by
  obtain ⟨h'', ran', kept, -⟩ := known
  cases ran.symm.trans ran'
  exact kept

theorem step {operation : Operation} (kept : h.Kept) (ran : h.step operation = some h') : h'.Kept := by
  cases operation with
  | create => exact of_step kept.step_create ran
  | build s lv rf => exact of_step (kept.step_build s lv rf) ran
  | addNode i u =>
    obtain ⟨g, found⟩ := exists_graph ran
    exact of_step (kept.step_addNode found u) ran
  | addEdge i u v =>
    obtain ⟨g, found⟩ := exists_graph ran
    exact of_step (kept.step_addEdge found u v) ran
  | remove i u =>
    obtain ⟨g, found⟩ := exists_graph ran
    exact of_step (kept.step_remove found u) ran
  | clone i =>
    obtain ⟨g, found⟩ := exists_graph ran
    exact of_step (kept.step_clone found) ran

theorem steps (operations : List Operation) (kept : h.Kept) (ran : operations.foldlM Heap.step h = some h') :
    h'.Kept := by
  induction operations generalizing h with
  | nil =>
    cases ran
    exact kept
  | cons operation rest ih =>
    rw [List.foldlM_cons] at ran
    obtain ⟨middle, first, later⟩ := Option.bind_eq_some_iff.mp ran
    exact ih (kept.step first) later

end Kept

theorem run_kept {operations : List Operation} (ran : run operations = some h) : h.Kept :=
  start_kept.steps operations ran

-- After any operations every graph is well-formed, and what comes next changes one graph as it says, or
-- adds one, and leaves all others alone.
theorem histories_exact (operations : List Operation) (h : Heap) (ran : run operations = some h) :
    (∀ g ∈ h.graphs, g.WellFormed ∧ ∑ u ∈ g.nodeSet, g.degree u = 2 * g.edges.card) ∧
    (h.step .create).map graphs = some (h.graphs ++ [({} : Graph)]) ∧
    (∀ s lv rf, (h.step (.build s lv rf)).map graphs = some (h.graphs ++ [(Graph.build s lv rf).1])) ∧
    ∀ i g, h.graphs[i]? = some g →
      (h.step (.clone i)).map graphs = some (h.graphs ++ [g]) ∧
      (∀ u, (h.step (.addNode i u)).map graphs = some (h.graphs.set i (g.addNode u)) ∧
        (g.addNode u).Has (insert u g.nodeSet) g.edges g.precolored) ∧
      (∀ u v, (h.step (.addEdge i u v)).map graphs = some (h.graphs.set i (g.addEdge u v)) ∧
        (u = v → g.addEdge u v = g) ∧
        (u ≠ v → (g.addEdge u v).Has (insert u (insert v g.nodeSet)) (insert s(u, v) g.edges) g.precolored)) ∧
      (∀ u, (h.step (.remove i u)).map graphs = some (h.graphs.set i (g.remove u)) ∧
        (g.remove u).Has (g.nodeSet.erase u) (g.edges.filter (u ∉ ·)) g.precolored) := by
  have kept := run_kept ran
  have yields : ∀ {operation gs}, (∃ h', h.step operation = some h' ∧ h'.Kept ∧ h'.graphs = gs) →
      (h.step operation).map graphs = some gs := by
    rintro operation gs ⟨h', step, -, rfl⟩
    rw [step, Option.map_some]
  refine ⟨fun g made => ⟨kept.formed g made, (kept.formed g made).sum_degree⟩, yields kept.step_create,
    fun s lv rf => yields (kept.step_build s lv rf), fun i g found => ?_⟩
  have formed := kept.formed g (List.mem_of_getElem? found)
  exact ⟨yields (kept.step_clone found),
    fun u => ⟨yields (kept.step_addNode found u), formed.addNode_has u⟩,
    fun u v => ⟨yields (kept.step_addEdge found u v), fun same => if_pos same, formed.addEdge_has⟩,
    fun u => ⟨yields (kept.step_remove found u), formed.remove_has u⟩⟩

open Allocation (threeRegisters)

-- A path of three nodes and a copy that loses the middle one, then the graph of a function and a copy that
-- loses a variable.
def copies : List Operation :=
  [.create, .addEdge 0 0 1, .addEdge 0 1 2, .addEdge 0 2 2, .clone 0, .remove 1 1,
    .build (Sheet.ofFunction Graph.sumUp).analyze.1
      ((Sheet.ofFunction Graph.sumUp).analyze.2.toOption.getD (.start 0)) (.draft threeRegisters),
    .clone 2, .remove 3 0]

theorem histories_exact_copies :
    ∃ h g, run copies = some h ∧ h.graphs[1]? = some g ∧
      h.graphs.map (fun g => g.nodes.map fun u => (u, g.neighbors u)) =
        [[(0, [1]), (1, [0, 2]), (2, [1])], [(0, []), (2, [])],
          [(0, [2, 5]), (1, [3, 5]), (2, [0, 5]), (3, [1, 5]), (5, [0, 1, 2, 3])],
          [(1, [3, 5]), (2, [5]), (3, [1, 5]), (5, [1, 2, 3])]] ∧
      (∀ g ∈ h.graphs, g.WellFormed ∧ ∑ u ∈ g.nodeSet, g.degree u = 2 * g.edges.card) ∧
      (h.step (.addEdge 1 0 2)).map graphs = some (h.graphs.set 1 (g.addEdge 0 2)) ∧
      (g.addEdge 0 2).Has (insert 0 (insert 2 g.nodeSet)) (insert s(0, 2) g.edges) g.precolored := by
  have shown : ((run copies).any fun h =>
      decide (h.graphs.map (fun g => g.nodes.map fun u => (u, g.neighbors u)) =
        [[(0, [1]), (1, [0, 2]), (2, [1])], [(0, []), (2, [])],
          [(0, [2, 5]), (1, [3, 5]), (2, [0, 5]), (3, [1, 5]), (5, [0, 1, 2, 3])],
          [(1, [3, 5]), (2, [5]), (3, [1, 5]), (5, [1, 2, 3])]])) = true := by decide +kernel
  cases ran : run copies with
  | none =>
    rw [ran] at shown
    cases shown
  | some h =>
    rw [ran, Option.any_some] at shown
    have rows := of_decide_eq_true shown
    have four : h.graphs.length = 4 := by simpa using congrArg List.length rows
    obtain ⟨g, found⟩ : ∃ g, h.graphs[1]? = some g := ⟨_, List.getElem?_eq_getElem (by omega)⟩
    obtain ⟨formed, -, -, next⟩ := histories_exact copies h ran
    obtain ⟨-, -, joined, -⟩ := next 1 g found
    exact ⟨h, g, rfl, found, rows, formed, (joined 0 2).1, (joined 0 2).2.2 (by decide)⟩

end RegisterAllocation.Heap
