import RegisterAllocation.Proofs.Graphs

namespace RegisterAllocation

-- Values at numbered places, where they are changed for all who know the place.
structure Cells (α : Type) where
  values : List α := []

namespace Cells

variable {α : Type} {c : Cells α} {a b : Nat} {x : α}

def size (c : Cells α) : Nat := c.values.length

def read [EmptyCollection α] (c : Cells α) (a : Nat) : α := (c.values[a]?).getD ∅

def add (c : Cells α) (x : α) : Cells α := ⟨c.values ++ [x]⟩

def write (c : Cells α) (a : Nat) (x : α) : Cells α := ⟨c.values.set a x⟩

@[simp] theorem size_add : (c.add x).size = c.size + 1 := List.length_append

@[simp] theorem size_write : (c.write a x).size = c.size := List.length_set

variable [EmptyCollection α]

@[simp] theorem read_add_size : (c.add x).read c.size = x := by simp [read, add, size]

theorem read_add (known : a < c.size) : (c.add x).read a = c.read a := by
  simp only [read, add, List.getElem?_append_left known]

theorem read_write (known : a < c.size) : (c.write a x).read b = if b = a then x else c.read b := by
  have inside : a < c.values.length := known
  simp only [read, write, List.getElem?_set, inside, if_true, @eq_comm _ b a]
  split <;> rfl

theorem read_write_ne (apart : b ≠ a) : (c.write a x).read b = c.read b := by
  simp only [read, write, List.getElem?_set_ne apart.symm]

end Cells

structure GraphRef where
  adj : Nat
  precolored : Nat

-- The graphs made so far and all that they are stored in. The table of a graph has the place of the
-- set of neighbours for every node. Nothing here keeps two graphs from using the same place.
structure Heap where
  sets : Cells VarSet := {}
  tables : Cells (Std.ExtTreeMap VarId Nat) := {}
  colors : Cells (Std.ExtTreeMap VarId Nat) := {}
  refs : List GraphRef := []

namespace Heap

def table (h : Heap) (r : GraphRef) : Std.ExtTreeMap VarId Nat := h.tables.read r.adj

def graph (h : Heap) (r : GraphRef) : Graph where
  adj := (h.table r).map fun _ a => h.sets.read a
  precolored := h.colors.read r.precolored

def graphs (h : Heap) : List Graph := h.refs.map h.graph

def next (h : Heap) : GraphRef := ⟨h.tables.size, h.colors.size⟩

def create (h : Heap) : Heap :=
  { h with tables := h.tables.add ∅, colors := h.colors.add ∅, refs := h.refs ++ [h.next] }

def relink (h : Heap) (r : GraphRef) (entries : Std.ExtTreeMap VarId Nat) : Heap :=
  { h with tables := h.tables.write r.adj entries }

def place (h : Heap) (r : GraphRef) (id : VarId) (s : VarSet) : Heap :=
  { h.relink r ((h.table r).insert id h.sets.size) with sets := h.sets.add s }

def addNode (h : Heap) (r : GraphRef) (id : VarId) : Option Heap :=
  some (if (h.table r).contains id then h else h.place r id ∅)

def alter (h : Heap) (r : GraphRef) (id : VarId) (change : VarSet → VarSet) : Option Heap :=
  ((h.table r)[id]?).map fun a => { h with sets := h.sets.write a (change (h.sets.read a)) }

def addEdge (h : Heap) (r : GraphRef) (u v : VarId) : Option Heap :=
  if u = v then some h
  else do
    let h ← h.addNode r u
    let h ← h.addNode r v
    let h ← h.alter r u (·.insert v)
    h.alter r v (·.insert u)

def removeNeighbor (r : GraphRef) (id : VarId) (h : Heap) (u : VarId) : Option Heap :=
  some ((h.alter r u (·.erase id)).getD h)

def neighbors (h : Heap) (r : GraphRef) (id : VarId) : List VarId :=
  (((h.table r)[id]?).elim ∅ h.sets.read).toList

def remove (h : Heap) (r : GraphRef) (id : VarId) : Option Heap := do
  let h ← (h.neighbors r id).foldlM (removeNeighbor r id) h
  some (h.relink r ((h.table r).erase id))

def setColor (h : Heap) (r : GraphRef) (id : VarId) (color : Nat) : Option Heap :=
  some { h with colors := h.colors.write r.precolored ((h.colors.read r.precolored).insert id color) }

def clone (h : Heap) (r : GraphRef) : Option Heap := do
  let c := h.next
  let copied ← (h.table r).toList.foldlM
    (fun h entry => some (h.place c entry.1 (h.sets.read entry.2))) h.create
  (h.colors.read r.precolored).toList.foldlM (fun h entry => h.setColor c entry.1 entry.2) copied

def addClique (r : GraphRef) : List VarId → Heap → Option Heap
  | [], h => some h
  | u :: rest, h => do
    let h ← rest.foldlM (fun h v => h.addEdge r u v) h
    addClique r rest h

def addConflicts (r : GraphRef) (sp : Option VarId) (h : Heap) (note : Note) (out : VarSet) : Option Heap :=
  note.defined.toList.foldlM (fun h d =>
    out.toList.foldlM (fun h v => if sp = some d ∨ sp = some v then some h else h.addEdge r d v) h) h

def build (h : Heap) (s : Sheet) (lv : Liveness) (rf : RegisterFile) : Option Heap := do
  let r := h.next
  let sp := s.function.table.id? rf.sp
  let regs := (s.function.table.internAll rf.registers).1
  let h ← regs.zipIdx.foldlM (fun h entry => do
    let h ← h.addNode r entry.1
    h.setColor r entry.1 entry.2) h.create
  let h ← addClique r regs h
  let h ← (s.referenced.toList.filter fun id => sp ≠ some id).foldlM (fun h id => h.addNode r id) h
  (s.notes.zip lv.outs.toList).foldlM (fun h row => addConflicts r sp h row.1 row.2) h

def Owns (h : Heap) (r : GraphRef) (u : VarId) (a : Nat) : Prop := (h.table r)[u]? = some a

-- No place is used twice: graphs have tables and colors of their own, and every node a set of its own.
structure Sound (h : Heap) : Prop where
  tables : (h.refs.map GraphRef.adj).Nodup
  colors : (h.refs.map GraphRef.precolored).Nodup
  inside : ∀ r ∈ h.refs, r.adj < h.tables.size ∧ r.precolored < h.colors.size
  known : ∀ r ∈ h.refs, ∀ u a, h.Owns r u a → a < h.sets.size
  apart : ∀ r ∈ h.refs, ∀ q ∈ h.refs, ∀ u v a, h.Owns r u a → h.Owns q v a → r = q ∧ u = v

structure Turns (h : Heap) (r : GraphRef) (g : Graph) (h' : Heap) : Prop where
  sound : h'.Sound
  refs : h'.refs = h.refs
  here : h'.graph r = g
  others : ∀ q ∈ h.refs, q ≠ r → h'.table q = h.table q ∧ h'.graph q = h.graph q

variable {h h' h'' : Heap} {r q : GraphRef} {g g' : Graph} {u v id : VarId} {a : Nat} {s : VarSet}

theorem Turns.refl (sound : h.Sound) : Turns h r (h.graph r) h :=
  ⟨sound, rfl, rfl, fun _ _ _ => ⟨rfl, rfl⟩⟩

theorem Turns.trans (first : Turns h r g h') (second : Turns h' r g' h'') : Turns h r g' h'' := by
  refine ⟨second.sound, second.refs.trans first.refs, second.here, fun q made other => ?_⟩
  obtain ⟨table, graph⟩ := first.others q made other
  obtain ⟨table', graph'⟩ := second.others q (first.refs ▸ made) other
  exact ⟨table'.trans table, graph'.trans graph⟩

theorem Turns.made (turns : Turns h r g h') (made : q ∈ h.refs) : q ∈ h'.refs := turns.refs ▸ made

theorem getElem?_graph : (h.graph r).adj[u]? = ((h.table r)[u]?).map h.sets.read :=
  Std.ExtTreeMap.getElem?_map

theorem mem_graph : u ∈ (h.graph r).adj ↔ u ∈ h.table r := Std.ExtTreeMap.mem_map

theorem exists_owns (member : u ∈ (h.graph r).adj) : ∃ a, h.Owns r u a := by
  rw [mem_graph, Std.ExtTreeMap.mem_iff_isSome_getElem?] at member
  exact Option.isSome_iff_exists.mp member

theorem Owns.neighborSet (owns : h.Owns r u a) : (h.graph r).neighborSet u = h.sets.read a := by
  rw [Graph.neighborSet, Std.ExtTreeMap.getD_eq_getD_getElem?, getElem?_graph, owns]
  rfl

theorem graph_congr (table : h'.table q = h.table q)
    (sets : ∀ u a, h.Owns q u a → h'.sets.read a = h.sets.read a)
    (colors : h'.colors.read q.precolored = h.colors.read q.precolored) : h'.graph q = h.graph q := by
  refine Graph.eq_of_getElem? (fun u => ?_) colors
  rw [getElem?_graph, getElem?_graph, table]
  cases found : (h.table q)[u]? with
  | none => rfl
  | some a => exact congrArg some (sets u a found)

namespace Sound

theorem adj_ne (sound : h.Sound) (made : r ∈ h.refs) (made' : q ∈ h.refs) (other : q ≠ r) : q.adj ≠ r.adj :=
  fun same => other (List.inj_on_of_nodup_map sound.tables made' made same)

theorem precolored_ne (sound : h.Sound) (made : r ∈ h.refs) (made' : q ∈ h.refs) (other : q ≠ r) :
    q.precolored ≠ r.precolored :=
  fun same => other (List.inj_on_of_nodup_map sound.colors made' made same)

theorem of_owns (sound : h.Sound) (refs : h'.refs = h.refs) (tables : h'.tables.size = h.tables.size)
    (colors : h'.colors.size = h.colors.size) (sets : h'.sets.size = h.sets.size)
    (owns : ∀ q ∈ h.refs, ∀ u a, h'.Owns q u a → h.Owns q u a) : h'.Sound where
  tables := refs ▸ sound.tables
  colors := refs ▸ sound.colors
  inside := by
    rw [refs, tables, colors]
    exact sound.inside
  known := by
    rw [refs, sets]
    exact fun r made u a entry => sound.known r made u a (owns r made u a entry)
  apart := by
    rw [refs]
    exact fun r made q made' u v a left right =>
      sound.apart r made q made' u v a (owns r made u a left) (owns q made' v a right)

theorem table_relink (sound : h.Sound) (made : r ∈ h.refs) (entries : Std.ExtTreeMap VarId Nat) :
    (h.relink r entries).table r = entries :=
  (Cells.read_write (sound.inside r made).1).trans (if_pos rfl)

theorem table_relink_ne (sound : h.Sound) (made : r ∈ h.refs) (made' : q ∈ h.refs) (other : q ≠ r)
    (entries : Std.ExtTreeMap VarId Nat) : (h.relink r entries).table q = h.table q :=
  Cells.read_write_ne (sound.adj_ne made made' other)

theorem owns_place (sound : h.Sound) (made : r ∈ h.refs) (made' : q ∈ h.refs)
    (owns : (h.place r id s).Owns q u a) : (q = r ∧ u = id ∧ a = h.sets.size) ∨ h.Owns q u a := by
  change ((h.relink r _).table q)[u]? = some a at owns
  by_cases other : q = r
  · subst other
    rw [sound.table_relink made, Std.ExtTreeMap.getElem?_insert] at owns
    split at owns
    · rename_i same
      exact .inl ⟨rfl, (Std.LawfulEqOrd.compare_eq_iff_eq.mp same).symm, (Option.some.inj owns).symm⟩
    · exact .inr owns
  · rw [sound.table_relink_ne made made' other] at owns
    exact .inr owns

theorem place (sound : h.Sound) (made : r ∈ h.refs) (id : VarId) (s : VarSet) : (h.place r id s).Sound where
  tables := sound.tables
  colors := sound.colors
  inside := by simpa only [Heap.place, relink, Cells.size_write] using sound.inside
  known := by
    intro q made' u a owns
    have size : (h.place r id s).sets.size = h.sets.size + 1 := Cells.size_add
    rcases sound.owns_place made made' owns with ⟨-, -, new⟩ | before
    · omega
    · have inside := sound.known q made' u a before
      omega
  apart := by
    intro p made₁ q made₂ u v a left right
    -- The new place is beyond all that were known, so only its own node can have it.
    rcases sound.owns_place made made₁ left with ⟨rfl, rfl, new⟩ | before <;>
      rcases sound.owns_place made made₂ right with ⟨rfl, rfl, new'⟩ | before'
    · exact ⟨rfl, rfl⟩
    · exact absurd (sound.known q made₂ v a before') (by omega)
    · exact absurd (sound.known p made₁ u a before) (by omega)
    · exact sound.apart p made₁ q made₂ u v a before before'

theorem place_turns (sound : h.Sound) (made : r ∈ h.refs) (id : VarId) (s : VarSet) :
    Turns h r { h.graph r with adj := (h.graph r).adj.insert id s } (h.place r id s) := by
  have old : ∀ q ∈ h.refs, ∀ u a, h.Owns q u a → (h.place r id s).sets.read a = h.sets.read a :=
    fun q made' u a owns => Cells.read_add (sound.known q made' u a owns)
  have own : (h.place r id s).table r = (h.table r).insert id h.sets.size := sound.table_relink made _
  refine ⟨sound.place made id s, rfl, ?_, fun q made' other => ?_⟩
  · refine Graph.eq_of_getElem? (fun u => ?_) rfl
    rw [getElem?_graph, own, Std.ExtTreeMap.getElem?_insert, Std.ExtTreeMap.getElem?_insert, getElem?_graph]
    split
    · exact congrArg some Cells.read_add_size
    · cases found : (h.table r)[u]? with
      | none => rfl
      | some a => exact congrArg some (old r made u a found)
  · have rest : (h.place r id s).table q = h.table q := sound.table_relink_ne made made' other _
    exact ⟨rest, graph_congr rest (old q made') rfl⟩

theorem alter_turns (sound : h.Sound) (made : r ∈ h.refs) (member : u ∈ (h.graph r).adj)
    (change : VarSet → VarSet) : ∃ h', h.alter r u change = some h' ∧
      Turns h r { h.graph r with adj := (h.graph r).adj.insert u (change ((h.graph r).neighborSet u)) } h' := by
  obtain ⟨a, owns⟩ := exists_owns member
  have inside := sound.known r made u a owns
  refine ⟨{ h with sets := h.sets.write a (change (h.sets.read a)) }, ?_,
    sound.of_owns rfl rfl rfl Cells.size_write fun _ _ _ _ entry => entry, rfl, ?_, fun q made' other => ⟨rfl, ?_⟩⟩
  · have found : (h.table r)[u]? = some a := owns
    rw [alter, found, Option.map_some]
  · refine Graph.eq_of_getElem? (fun x => ?_) rfl
    rw [getElem?_graph, Std.ExtTreeMap.getElem?_insert, getElem?_graph, owns.neighborSet]
    simp only [Std.LawfulEqOrd.compare_eq_iff_eq]
    change Option.map _ ((h.table r)[x]?) = _
    split
    · rename_i same
      have found : (h.table r)[x]? = some a := same ▸ owns
      rw [found]
      exact congrArg some ((Cells.read_write inside).trans (if_pos rfl))
    · rename_i differ
      cases found : (h.table r)[x]? with
      | none => rfl
      | some b =>
        refine congrArg some (Cells.read_write_ne fun same => differ ?_)
        exact (sound.apart r made r made u x a owns (same ▸ found)).2
  · refine graph_congr rfl (fun v b owns' => Cells.read_write_ne fun same => other ?_) rfl
    exact (sound.apart q made' r made v u a (same ▸ owns') owns).1

theorem addNeighbor_turns (sound : h.Sound) (made : r ∈ h.refs) (member : u ∈ (h.graph r).adj) (v : VarId) :
    ∃ h', h.alter r u (·.insert v) = some h' ∧ Turns h r ((h.graph r).addNeighbor u v) h' :=
  sound.alter_turns made member (·.insert v)

theorem erase_turns (sound : h.Sound) (made : r ∈ h.refs) (id : VarId) :
    Turns h r { h.graph r with adj := (h.graph r).adj.erase id } (h.relink r ((h.table r).erase id)) := by
  have rest : ∀ q ∈ h.refs, q ≠ r → (h.relink r ((h.table r).erase id)).table q = h.table q :=
    fun q made' other => sound.table_relink_ne made made' other _
  refine ⟨sound.of_owns rfl Cells.size_write rfl rfl fun q made' u a owns => ?_, rfl, ?_,
    fun q made' other => ⟨rest q made' other, graph_congr (rest q made' other) (fun _ _ _ => rfl) rfl⟩⟩
  · by_cases other : q = r
    · subst other
      rw [Owns, sound.table_relink made, Std.ExtTreeMap.getElem?_erase] at owns
      split at owns
      · cases owns
      · exact owns
    · rwa [Owns, rest q made' other] at owns
  · refine Graph.eq_of_getElem? (fun u => ?_) rfl
    rw [getElem?_graph, sound.table_relink made, Std.ExtTreeMap.getElem?_erase, Std.ExtTreeMap.getElem?_erase,
      getElem?_graph]
    split <;> rfl

theorem next_not_mem (sound : h.Sound) : h.next ∉ h.refs := fun made =>
  Nat.lt_irrefl _ (sound.inside h.next made).1

theorem table_create (sound : h.Sound) (made : q ∈ h.refs) : h.create.table q = h.table q :=
  Cells.read_add (sound.inside q made).1

theorem graph_create (sound : h.Sound) (made : q ∈ h.refs) : h.create.graph q = h.graph q :=
  graph_congr (sound.table_create made) (fun _ _ _ => rfl) (Cells.read_add (sound.inside q made).2)

end Sound

theorem table_create_next : h.create.table h.next = ∅ := Cells.read_add_size

theorem graph_create_next : h.create.graph h.next = {} := by
  refine Graph.eq_of_getElem? (fun u => ?_) Cells.read_add_size
  rw [getElem?_graph, table_create_next]
  rfl

theorem next_mem_create : h.next ∈ h.create.refs := List.mem_append_right _ List.mem_cons_self

theorem Sound.create (sound : h.Sound) : h.create.Sound := by
  have either : ∀ q ∈ h.create.refs, q ∈ h.refs ∨ q = h.next := by simp [Heap.create]
  have old : ∀ q ∈ h.create.refs, ∀ u a, h.create.Owns q u a → q ∈ h.refs ∧ h.Owns q u a := by
    intro q made u a owns
    rcases either q made with before | rfl
    · rw [Owns, sound.table_create before] at owns
      exact ⟨before, owns⟩
    · rw [Owns, table_create_next] at owns
      simp at owns
  have fresh : ∀ f : GraphRef → Nat, (h.refs.map f).Nodup → (∀ q ∈ h.refs, f q < f h.next) →
      (h.create.refs.map f).Nodup := by
    intro f distinct below
    simp only [Heap.create, List.map_append, List.map_cons, List.map_nil, List.nodup_append]
    refine ⟨distinct, List.nodup_singleton _, fun a old b new => ?_⟩
    obtain ⟨q, made, rfl⟩ := List.mem_map.mp old
    exact List.mem_singleton.mp new ▸ Nat.ne_of_lt (below q made)
  refine ⟨fresh _ sound.tables fun q made => (sound.inside q made).1,
    fresh _ sound.colors fun q made => (sound.inside q made).2, fun q made => ?_,
    fun q made u a owns => ?_, fun p made q made' u v a left right => ?_⟩
  · have sizes : h.create.tables.size = h.tables.size + 1 ∧ h.create.colors.size = h.colors.size + 1 :=
      ⟨Cells.size_add, Cells.size_add⟩
    rcases either q made with before | rfl
    · have inside := sound.inside q before
      omega
    · simp only [next]
      omega
  · obtain ⟨before, owns⟩ := old q made u a owns
    exact sound.known q before u a owns
  · obtain ⟨before, left⟩ := old p made u a left
    obtain ⟨before', right⟩ := old q made' v a right
    exact sound.apart p before q before' u v a left right

theorem Turns.graphs_set {i : Nat} (turns : Turns h r g h') (sound : h.Sound) (found : h.refs[i]? = some r) :
    h'.graphs = h.graphs.set i g := by
  have distinct : h.refs.Nodup := List.Nodup.of_map _ sound.tables
  refine List.ext_getElem? fun j => ?_
  rw [graphs, turns.refs, List.getElem?_map, List.getElem?_set, graphs, List.length_map, List.getElem?_map]
  split
  · rename_i same
    subst same
    have inside := (List.getElem?_eq_some_iff.mp found).1
    rw [found, if_pos inside]
    exact congrArg some turns.here
  · rename_i apart
    cases there : h.refs[j]? with
    | none => rfl
    | some q =>
      have other : q ≠ r := by
        rintro rfl
        have inside := (List.getElem?_eq_some_iff.mp found).1
        exact apart ((List.getElem?_inj inside distinct).mp (found.trans there.symm))
      exact congrArg some (turns.others q (List.mem_of_getElem? there) other).2

theorem Turns.graphs_new (turns : Turns h.create h.next g h') (sound : h.Sound) :
    h'.graphs = h.graphs ++ [g] := by
  rw [graphs, turns.refs, Heap.create, List.map_append, List.map_singleton, turns.here]
  refine congrArg (· ++ [g]) (List.map_congr_left fun q made => ?_)
  have other : q ≠ h.next := fun same => sound.next_not_mem (same ▸ made)
  exact (turns.others q (List.mem_append_left _ made) other).2.trans (sound.graph_create made)

theorem Turns.foldlM_keeping {α : Type} {f : Heap → α → Option Heap} {φ : Graph → α → Graph}
    {P : Graph → Prop} (list : List α) (keeps : ∀ g', ∀ a ∈ list, P g' → P (φ g' a))
    (each : ∀ h' g', Turns h r g' h' → P g' → ∀ a ∈ list, ∃ h'', f h' a = some h'' ∧ Turns h' r (φ g' a) h'')
    (turns : Turns h r g h') (start : P g) :
    ∃ h'', list.foldlM f h' = some h'' ∧ Turns h r (list.foldl φ g) h'' := by
  induction list generalizing h' g with
  | nil => exact ⟨h', rfl, turns⟩
  | cons a rest ih =>
    obtain ⟨middle, ran, step⟩ := each h' g turns start a List.mem_cons_self
    obtain ⟨h'', ran', done⟩ := ih (fun g₁ b later => keeps g₁ b (List.mem_cons_of_mem _ later))
      (fun h₁ g₁ so holds b later => each h₁ g₁ so holds b (List.mem_cons_of_mem _ later))
      (turns.trans step) (keeps g a List.mem_cons_self start)
    refine ⟨h'', ?_, done⟩
    rw [List.foldlM_cons, ran]
    exact ran'

theorem Turns.foldlM {α : Type} {f : Heap → α → Option Heap} {φ : Graph → α → Graph} (list : List α)
    (each : ∀ h' g', Turns h r g' h' → ∀ a ∈ list, ∃ h'', f h' a = some h'' ∧ Turns h' r (φ g' a) h'')
    (turns : Turns h r g h') : ∃ h'', list.foldlM f h' = some h'' ∧ Turns h r (list.foldl φ g) h'' :=
  turns.foldlM_keeping (P := fun _ => True) list (fun _ _ _ _ => trivial)
    (fun h₁ g₁ so _ => each h₁ g₁ so) trivial

-- A computation that never fails and does to a graph what a function says.
def Performs (r : GraphRef) (f : Heap → Option Heap) (φ : Graph → Graph) : Prop :=
  ∀ h, h.Sound → r ∈ h.refs → ∃ h', f h = some h' ∧ Turns h r (φ (h.graph r)) h'

namespace Performs

variable {f k : Heap → Option Heap} {φ ψ : Graph → Graph}

theorem pure : Performs r some fun g => g := fun _ sound _ => ⟨_, rfl, .refl sound⟩

theorem bind (first : Performs r f φ) (second : Performs r k ψ) :
    Performs r (fun h => f h >>= k) (fun g => ψ (φ g)) := by
  intro h sound made
  obtain ⟨h', ran, turns⟩ := first h sound made
  obtain ⟨h'', ran', turns'⟩ := second h' turns.sound (turns.made made)
  rw [turns.here] at turns'
  refine ⟨h'', ?_, turns.trans turns'⟩
  simp only [ran]
  exact ran'

theorem foldlM {α : Type} {f : Heap → α → Option Heap} {φ : Graph → α → Graph} (list : List α)
    (each : ∀ a ∈ list, Performs r (f · a) (φ · a)) :
    Performs r (fun h => list.foldlM f h) (fun g => list.foldl φ g) := by
  intro h sound made
  refine Turns.foldlM list (fun h' g' turns a member => ?_) (.refl sound)
  have step := each a member h' turns.sound (turns.made made)
  rwa [turns.here] at step

end Performs

theorem addNode_performs (id : VarId) : Performs r (fun h => h.addNode r id) (fun g => g.addNode id) := by
  intro h sound made
  have same : (h.table r).contains id = (h.graph r).hasNode id := by
    rw [Bool.eq_iff_iff, Graph.hasNode_iff, mem_graph, Std.ExtTreeMap.contains_iff_mem]
  refine ⟨_, rfl, ?_⟩
  simp only [same, Graph.addNode]
  split
  · exact .refl sound
  · exact sound.place_turns made id ∅

theorem setColor_performs (id : VarId) (color : Nat) :
    Performs r (fun h => h.setColor r id color) (fun g => g.setColor id color) := by
  intro h sound made
  refine ⟨_, rfl, sound.of_owns rfl rfl Cells.size_write rfl fun _ _ _ _ entry => entry, rfl, ?_,
    fun q made' other => ⟨rfl, graph_congr rfl (fun _ _ _ => rfl) ?_⟩⟩
  · refine Graph.eq_of_getElem? (fun u => rfl) ?_
    exact (Cells.read_write (sound.inside r made).2).trans (if_pos rfl)
  · exact Cells.read_write_ne (sound.precolored_ne made made' other)

theorem addEdge_performs (u v : VarId) :
    Performs r (fun h => h.addEdge r u v) (fun g => g.addEdge u v) := by
  -- Both ends are nodes by the time their sets are changed, so that there are sets to change.
  intro h sound made
  by_cases same : u = v
  · simp only [addEdge, Graph.addEdge, if_pos same]
    exact ⟨h, rfl, .refl sound⟩
  · obtain ⟨h₁, ran₁, turns₁⟩ := addNode_performs u h sound made
    obtain ⟨h₂, ran₂, turns₂⟩ := addNode_performs v h₁ turns₁.sound (turns₁.made made)
    have two := turns₁.trans turns₂
    rw [turns₁.here] at two
    have first : u ∈ (h₂.graph r).adj := by
      rw [two.here, Graph.mem_addNode, Graph.mem_addNode]
      exact .inr (.inl rfl)
    obtain ⟨h₃, ran₃, turns₃⟩ := two.sound.addNeighbor_turns (two.made made) first v
    have three := two.trans turns₃
    rw [two.here] at three
    have second : v ∈ (h₃.graph r).adj := by
      rw [three.here, Graph.mem_addNeighbor, Graph.mem_addNode]
      exact .inr (.inl rfl)
    obtain ⟨h₄, ran₄, turns₄⟩ := three.sound.addNeighbor_turns (three.made made) second u
    have four := three.trans turns₄
    rw [three.here, Graph.addEdge_of_addNode same] at four
    refine ⟨h₄, ?_, four⟩
    simp only [addEdge, if_neg same, ran₁, ran₂, ran₃, ran₄, Option.bind_eq_bind, Option.bind_some]

theorem neighbors_eq : h.neighbors r id = (h.graph r).neighbors id := by
  rw [neighbors, Graph.neighbors, Graph.neighborSet, Std.ExtTreeMap.getD_eq_getD_getElem?, getElem?_graph]
  cases (h.table r)[id]? with
  | none => rfl
  | some a => rfl

theorem Sound.removeNeighbor_turns (sound : h.Sound) (made : r ∈ h.refs) (member : u ∈ (h.graph r).adj)
    (id : VarId) :
    ∃ h', removeNeighbor r id h u = some h' ∧ Turns h r (Graph.removeNeighbor id (h.graph r) u) h' := by
  obtain ⟨h', ran, turns⟩ := sound.alter_turns made member (·.erase id)
  exact ⟨h', by rw [removeNeighbor, ran, Option.getD_some], turns⟩

theorem Sound.remove_turns (sound : h.Sound) (made : r ∈ h.refs) (formed : (h.graph r).WellFormed)
    (id : VarId) : ∃ h', h.remove r id = some h' ∧ Turns h r ((h.graph r).remove id) h' := by
  -- In a graph that is well-formed every neighbour is a node, so that no deletion is lost.
  have step : ∀ h' g', Turns h r g' h' → (∀ u ∈ (h.graph r).neighbors id, u ∈ g'.adj) →
      ∀ u ∈ (h.graph r).neighbors id, ∃ h'', removeNeighbor r id h' u = some h'' ∧
        Turns h' r (Graph.removeNeighbor id g' u) h'' := by
    intro h' g' turns nodes u near
    have removed := turns.sound.removeNeighbor_turns (turns.made made) (turns.here ▸ nodes u near) id
    rwa [turns.here] at removed
  have keeps : ∀ g', ∀ u ∈ (h.graph r).neighbors id, (∀ x ∈ (h.graph r).neighbors id, x ∈ g'.adj) →
      ∀ x ∈ (h.graph r).neighbors id, x ∈ (Graph.removeNeighbor id g' u).adj := by
    intro g' u _ nodes x near
    rw [Graph.removeNeighbor, Std.ExtTreeMap.mem_insert]
    exact .inr (nodes x near)
  obtain ⟨h', ran, turns⟩ := (Turns.refl sound).foldlM_keeping _ keeps step
    fun u near => formed.node id u (Graph.mem_neighbors.mp near)
  have erased := turns.sound.erase_turns (turns.made made) id
  rw [turns.here] at erased
  refine ⟨h'.relink r ((h'.table r).erase id), ?_, turns.trans erased⟩
  simp only [remove, neighbors_eq, ran, Option.bind_eq_bind, Option.bind_some]

theorem getElem?_foldl_insert {α β : Type} {f : VarId × α → β} (list : List (VarId × α))
    (start target : Std.ExtTreeMap VarId β) (agree : ∀ entry ∈ list, target[entry.1]? = some (f entry)) :
    (list.foldl (fun m entry => m.insert entry.1 (f entry)) start)[u]? =
      if u ∈ list.map Prod.fst then target[u]? else start[u]? := by
  induction list generalizing start with
  | nil => simp
  | cons entry rest ih =>
    rw [List.foldl_cons, ih _ fun e later => agree e (List.mem_cons_of_mem _ later), List.map_cons]
    simp only [List.mem_cons, Std.ExtTreeMap.getElem?_insert, Std.LawfulEqOrd.compare_eq_iff_eq]
    by_cases later : u ∈ rest.map Prod.fst
    · simp [later]
    · by_cases here : u = entry.1
      · subst here
        simp [later, agree entry List.mem_cons_self]
      · simp [later, here, Ne.symm here]

theorem foldl_insert_toList {α β : Type} {f : VarId × α → β} (source : Std.ExtTreeMap VarId α)
    (target : Std.ExtTreeMap VarId β) (copy : ∀ u : VarId, target[u]? = (source[u]?).map fun x => f (u, x)) :
    source.toList.foldl (fun m entry => m.insert entry.1 (f entry)) ∅ = target := by
  have entries : ∀ u x, (u, x) ∈ source.toList ↔ source[u]? = some x := fun u x =>
    Std.ExtTreeMap.mem_toList_iff_getElem?_eq_some
  refine Std.ExtTreeMap.ext_getElem? fun u => ?_
  rw [getElem?_foldl_insert source.toList ∅ target fun entry member => ?_]
  · split
    · rfl
    · rename_i absent
      cases found : source[u]? with
      | none => simp [copy, found]
      | some x => exact absurd (List.mem_map.mpr ⟨(u, x), (entries u x).mpr found, rfl⟩) absent
  · rw [copy, (entries entry.1 entry.2).mp member, Option.map_some]

theorem foldl_insert_adj {α : Type} {f : VarId × α → VarSet} (list : List (VarId × α)) (g : Graph) :
    list.foldl (fun g entry => { g with adj := g.adj.insert entry.1 (f entry) }) g =
      { g with adj := list.foldl (fun m entry => m.insert entry.1 (f entry)) g.adj } := by
  induction list generalizing g with
  | nil => rfl
  | cons entry rest ih => exact ih _

theorem foldl_setColor (list : List (VarId × Nat)) (g : Graph) :
    list.foldl (fun g entry => g.setColor entry.1 entry.2) g =
      { g with precolored := list.foldl (fun m entry => m.insert entry.1 entry.2) g.precolored } := by
  induction list generalizing g with
  | nil => rfl
  | cons entry rest ih => exact ih _

theorem graph_of_entries (h : Heap) (r : GraphRef) :
    (h.colors.read r.precolored).toList.foldl (fun g entry => g.setColor entry.1 entry.2)
      ((h.table r).toList.foldl (fun g entry =>
        { g with adj := g.adj.insert entry.1 ((h.graph r).neighborSet entry.1) }) {}) = h.graph r := by
  have entries : ∀ u : VarId, (h.graph r).adj[u]? =
      ((h.table r)[u]?).map fun _ => (h.graph r).neighborSet u := by
    intro u
    rw [getElem?_graph]
    cases found : (h.table r)[u]? with
    | none => rfl
    | some a => exact congrArg some (Owns.neighborSet found).symm
  have adj := foldl_insert_toList (f := fun entry => (h.graph r).neighborSet entry.1) (h.table r) _ entries
  have colors := foldl_insert_toList (f := Prod.snd) (h.graph r).precolored (h.graph r).precolored
    fun u => by simp
  rw [foldl_insert_adj, foldl_setColor]
  exact Graph.eq_of_getElem? (fun u => congrArg (fun m => m[u]?) adj) colors

theorem Turns.read_set (turns : Turns h.create h.next g h') (sound : h.Sound) (made : r ∈ h.refs)
    (owns : h.Owns r u a) : h'.sets.read a = (h.graph r).neighborSet u := by
  have other : r ≠ h.next := fun same => sound.next_not_mem (same ▸ made)
  obtain ⟨table, graph⟩ := turns.others r (List.mem_append_left _ made) other
  have still : h'.Owns r u a := by
    rw [Owns, table, sound.table_create made]
    exact owns
  rw [← still.neighborSet, graph, sound.graph_create made]

theorem Sound.clone_turns (sound : h.Sound) (made : r ∈ h.refs) :
    ∃ h', h.clone r = some h' ∧ Turns h.create h.next (h.graph r) h' := by
  have start : Turns h.create h.next {} h.create := graph_create_next ▸ .refl sound.create
  have each : ∀ h' g', Turns h.create h.next g' h' → ∀ entry ∈ (h.table r).toList,
      ∃ h'', some (h'.place h.next entry.1 (h'.sets.read entry.2)) = some h'' ∧
        Turns h' h.next { g' with adj := g'.adj.insert entry.1 ((h.graph r).neighborSet entry.1) } h'' := by
    intro h' g' turns entry member
    have read := turns.read_set sound made (Std.ExtTreeMap.mem_toList_iff_getElem?_eq_some.mp member)
    have step := turns.sound.place_turns (turns.made next_mem_create) entry.1 (h'.sets.read entry.2)
    rw [turns.here] at step
    exact ⟨_, rfl, read ▸ step⟩
  obtain ⟨h₁, ran₁, turns₁⟩ := start.foldlM _ each
  obtain ⟨h₂, ran₂, turns₂⟩ := Performs.foldlM (r := h.next) (h.colors.read r.precolored).toList
    (fun entry _ => setColor_performs entry.1 entry.2) h₁ turns₁.sound (turns₁.made next_mem_create)
  have whole := turns₁.trans turns₂
  simp only [turns₁.here, graph_of_entries] at whole
  refine ⟨h₂, ?_, whole⟩
  simp only [clone, ran₁, Option.bind_eq_bind, Option.bind_some]
  exact ran₂

theorem addClique_performs (list : List VarId) : Performs r (addClique r list) (Graph.addClique list) := by
  induction list with
  | nil => exact .pure
  | cons u rest ih =>
    have first := Performs.foldlM (r := r) rest fun v _ => addEdge_performs u v
    exact first.bind ih

theorem addConflicts_performs (sp : Option VarId) (note : Note) (out : VarSet) :
    Performs r (fun h => addConflicts r sp h note out) (fun g => Graph.addConflicts sp g note out) := by
  refine .foldlM _ fun d _ => .foldlM _ fun v _ => ?_
  by_cases skipped : sp = some d ∨ sp = some v
  · simp only [if_pos skipped]
    exact .pure
  · simp only [if_neg skipped]
    exact addEdge_performs d v

theorem Sound.build_turns (sound : h.Sound) (s : Sheet) (lv : Liveness) (rf : RegisterFile) :
    ∃ h', h.build s lv rf = some h' ∧ Turns h.create h.next (Graph.build s lv rf).1 h' := by
  have registers := Performs.foldlM (r := h.next) (s.function.table.internAll rf.registers).1.zipIdx
    fun entry _ => (addNode_performs entry.1).bind (setColor_performs entry.1 entry.2)
  have clique := addClique_performs (r := h.next) (s.function.table.internAll rf.registers).1
  have nodes := Performs.foldlM (r := h.next)
    (s.referenced.toList.filter fun id => s.function.table.id? rf.sp ≠ some id)
    fun id _ => addNode_performs id
  have conflicts := Performs.foldlM (r := h.next) (s.notes.zip lv.outs.toList)
    fun row _ => addConflicts_performs (s.function.table.id? rf.sp) row.1 row.2
  have performs := registers.bind (clique.bind (nodes.bind conflicts))
  obtain ⟨h', ran, turns⟩ := performs h.create sound.create next_mem_create
  rw [graph_create_next] at turns
  exact ⟨h', ran, turns⟩

end Heap

end RegisterAllocation
