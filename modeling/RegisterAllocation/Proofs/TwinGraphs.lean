import Mathlib.Data.List.Sort
import RegisterAllocation.Proofs.Colorings

namespace RegisterAllocation

variable {φ : VarId → VarId} {D : VarId → Prop}

theorem filter_map_of {list : List VarId} {p p' : VarId → Bool} (same : ∀ x ∈ list, p' (φ x) = p x) :
    (list.map φ).filter p' = (list.filter p).map φ := by
  rw [List.filter_map]
  exact congrArg _ (List.filter_congr same)

theorem find?_map_of {list : List VarId} {p p' : VarId → Bool} (same : ∀ x ∈ list, p' (φ x) = p x) :
    (list.map φ).find? p' = (list.find? p).map φ := by
  rw [← List.head?_filter, filter_map_of same, List.head?_map, List.head?_filter]

namespace Graph

-- Two graphs that are the same up to the numbers of their nodes. The numbers that are compared are
-- fixed, so that a graph may lose nodes and be compared on them all the same.
structure Twins (D : VarId → Prop) (φ : VarId → VarId) (w w' : Graph) : Prop where
  formed : w.WellFormed
  formed' : w'.WellFormed
  compared : ∀ x ∈ w.adj, D x
  reached : ∀ y ∈ w'.adj, ∃ x, D x ∧ φ x = y
  injective : ∀ x y, D x → D y → φ x = φ y → x = y
  node : ∀ x, D x → (φ x ∈ w'.adj ↔ x ∈ w.adj)
  edge : ∀ x y, D x → D y → (φ y ∈ w'.neighborSet (φ x) ↔ y ∈ w.neighborSet x)

variable {w w' : Graph} {x y : VarId} (twins : Twins D φ w w')

include twins

namespace Twins

theorem hasNode (compared : D x) : w'.hasNode (φ x) = w.hasNode x := by
  rw [Bool.eq_iff_iff, hasNode_iff, hasNode_iff]
  exact twins.node x compared

theorem neighbor_reached (joined : y ∈ w'.neighborSet (φ x)) : ∃ z, D z ∧ φ z = y :=
  twins.reached y (twins.formed'.node _ _ joined)

theorem neighbor_compared (joined : y ∈ w.neighborSet x) : D y :=
  twins.compared y (twins.formed.node x y joined)

theorem neighbors_perm (compared : D x) : (w'.neighbors (φ x)).Perm ((w.neighbors x).map φ) := by
  have once : ((w.neighbors x).map φ).Nodup := by
    refine List.Nodup.map_on (fun a left b right same => ?_) (VarSet.nodup_toList _)
    exact twins.injective a b (twins.neighbor_compared (mem_neighbors.mp left))
      (twins.neighbor_compared (mem_neighbors.mp right)) same
  refine (List.perm_ext_iff_of_nodup (VarSet.nodup_toList _) once).mpr fun y => ?_
  rw [List.mem_map]
  refine mem_neighbors.trans ?_
  constructor
  · intro joined
    obtain ⟨z, known, rfl⟩ := twins.neighbor_reached joined
    exact ⟨z, mem_neighbors.mpr ((twins.edge x z compared known).mp joined), rfl⟩
  · intro h
    obtain ⟨z, joined, rfl⟩ := h
    have joined := mem_neighbors.mp joined
    exact (twins.edge x z compared (twins.neighbor_compared joined)).mpr joined

theorem degree (compared : D x) : w'.degree (φ x) = w.degree x := by
  have same := (twins.neighbors_perm compared).length_eq
  rwa [List.length_map, neighbors, neighbors, Std.ExtTreeSet.length_toList, Std.ExtTreeSet.length_toList] at same

theorem remove (compared : D x) : Twins D φ (w.remove x) (w'.remove (φ x)) := by
  have differ : ∀ y, D y → (φ y ≠ φ x ↔ y ≠ x) := fun y known =>
    not_congr ⟨twins.injective y x known compared, congrArg φ⟩
  refine ⟨twins.formed.remove x, twins.formed'.remove _, fun y left => ?_, fun y left => ?_, twins.injective,
    fun y known => ?_, fun y z first second => ?_⟩
  · exact twins.compared y (twins.formed.mem_remove.mp left).1
  · exact twins.reached y (twins.formed'.mem_remove.mp left).1
  · rw [twins.formed.mem_remove, twins.formed'.mem_remove, twins.node y known, differ y known]
  · rw [twins.formed.mem_neighborSet_remove, twins.formed'.mem_neighborSet_remove, twins.edge y z first second,
      differ y first, differ z second]

end Twins

end Graph

namespace Coloring

variable {rf : RegisterFile} {w w' g g' : Graph} {virtual : List VarId} {temps temps' : VarSet} {k : Nat}

section Simplifying

variable (compared : ∀ x ∈ virtual, D x)
  (sameTemps : ∀ x ∈ virtual, temps'.contains (φ x) = temps.contains x)

def better (w : Graph) : Option VarId → VarId → Option VarId
  | none, id => some id
  | some best, id => if w.degree best < w.degree id then some id else some best

theorem highest_eq (w : Graph) (candidates : List VarId) :
    highest w candidates = candidates.foldl (better w) none := by
  unfold highest
  congr 1
  funext best id
  cases best <;> rfl

theorem foldl_better_twins (twins : Graph.Twins D φ w w') (list : List VarId) (best : Option VarId)
    (known : ∀ x ∈ list, D x) (found : ∀ b, best = some b → D b) :
    (list.map φ).foldl (better w') (best.map φ) = (list.foldl (better w) best).map φ := by
  -- Of equally many neighbours it is the first that counts, and both lists have the same order.
  induction list generalizing best with
  | nil => rfl
  | cons id rest ih =>
    have later : ∀ x ∈ rest, D x := fun x member => known x (List.mem_cons_of_mem _ member)
    have here : D id := known id List.mem_cons_self
    have next : ∀ b, some id = some b → D b := by
      intro b same
      cases same
      exact here
    rw [List.map_cons, List.foldl_cons, List.foldl_cons]
    cases best with
    | none => exact ih (some id) later next
    | some b =>
      simp only [Option.map_some, better, twins.degree here, twins.degree (found b rfl)]
      split
      · exact ih (some id) later next
      · exact ih (some b) later found

theorem highest_twins (twins : Graph.Twins D φ w w') (candidates : List VarId)
    (known : ∀ x ∈ candidates, D x) : highest w' (candidates.map φ) = (highest w candidates).map φ := by
  rw [highest_eq, highest_eq]
  exact foldl_better_twins twins candidates none known (by simp)

include compared sameTemps

theorem optimisticPick_twins (twins : Graph.Twins D φ w w') :
    optimisticPick w' (virtual.map φ) temps' = (optimisticPick w virtual temps).map φ := by
  have present : (virtual.map φ).filter w'.hasNode = (virtual.filter w.hasNode).map φ :=
    filter_map_of fun x member => twins.hasNode (compared x member)
  have inside : ∀ (p : VarId → Bool), ∀ x ∈ (virtual.filter w.hasNode).filter p, D x := fun p x member =>
    compared x (List.mem_filter.mp (List.mem_filter.mp member).1).1
  have temporary : ∀ x ∈ virtual.filter w.hasNode, temps'.contains (φ x) = temps.contains x := fun x member =>
    sameTemps x (List.mem_filter.mp member).1
  have lasting : ((virtual.filter w.hasNode).map φ).filter (fun id => !temps'.contains id) =
      ((virtual.filter w.hasNode).filter fun id => !temps.contains id).map φ :=
    filter_map_of fun x member => congrArg (!·) (temporary x member)
  have passing : ((virtual.filter w.hasNode).map φ).filter temps'.contains =
      ((virtual.filter w.hasNode).filter temps.contains).map φ := filter_map_of temporary
  simp only [optimisticPick]
  rw [present, lasting, passing, highest_twins twins _ (inside _), highest_twins twins _ (inside _),
    Option.map_or]

def Simplified.map (φ : VarId → VarId) : Simplified → Simplified
  | .done stack optimistic => .done ⟨stack.items.map φ⟩ optimistic
  | .gaveUp remaining optimistic => .gaveUp (remaining.map φ) optimistic

theorem simplify_twins (left : Nat) (twins : Graph.Twins D φ w w') (stack : Stack VarId) (optimistic : Nat) :
    simplify rf (virtual.map φ) temps' left w' ⟨stack.items.map φ⟩ optimistic =
      (simplify rf virtual temps left w stack optimistic).map φ := by
  induction left generalizing w w' stack optimistic with
  | zero => rfl
  | succ left ih =>
    have low : (virtual.map φ).find? (fun id => w'.hasNode id && w'.degree id < rf.k) =
        (virtual.find? fun id => w.hasNode id && w.degree id < rf.k).map φ := by
      refine find?_map_of fun x member => ?_
      rw [twins.hasNode (compared x member), twins.degree (compared x member)]
    simp only [simplify]
    rw [low]
    cases found : virtual.find? fun id => w.hasNode id && w.degree id < rf.k with
    | some id =>
      exact ih (twins.remove (compared id (List.mem_of_find?_eq_some found))) (stack.push id) optimistic
    | none =>
      simp only [Option.map_none]
      split
      · rw [filter_map_of fun x member => twins.hasNode (compared x member), Simplified.map]
      · rw [optimisticPick_twins compared sameTemps twins]
        cases picked : optimisticPick w virtual temps with
        | none => rfl
        | some id =>
          have member := (List.mem_filter.mp (optimisticPick_mem picked)).1
          exact ih (twins.remove (compared id member)) (stack.push id) (optimistic + 1)

end Simplifying

structure Twins (D : VarId → Prop) (φ : VarId → VarId) (attempt attempt' : Coloring) : Prop where
  colors : ∀ x : VarId, D x → attempt'.colors[φ x]? = attempt.colors[x]?
  uncolored : attempt'.uncolored = attempt.uncolored.map φ
  bigFail : attempt'.bigFail = attempt.bigFail
  optimistic : attempt'.optimistic = attempt.optimistic

theorem Twins.success {attempt attempt' : Coloring} (twins : Twins D φ attempt attempt') :
    attempt'.success = attempt.success := by
  rw [Coloring.success, Coloring.success, twins.bigFail, twins.uncolored, List.isEmpty_map]

theorem freeColor?_congr {used used' : List Nat} (same : ∀ c, c ∈ used' ↔ c ∈ used) :
    freeColor? k used' = freeColor? k used := by
  have contains : ∀ c, used'.contains c = used.contains c := fun c => by
    rw [Bool.eq_iff_iff, List.contains_iff_mem, List.contains_iff_mem, same]
  simp only [freeColor?, contains]

section Selecting

variable (twins : Graph.Twins D φ g g')

include twins

theorem mem_used_twins {x : VarId} {colors colors' : Std.ExtTreeMap VarId Nat} (compared : D x)
    (same : ∀ y : VarId, D y → colors'[φ y]? = colors[y]?) (c : Nat) :
    c ∈ ((g'.neighbors (φ x)).filterMap fun n => colors'[n]?) ↔
      c ∈ ((g.neighbors x).filterMap fun n => colors[n]?) := by
  simp only [List.mem_filterMap, Graph.mem_neighbors]
  constructor
  · intro h
    obtain ⟨y, joined, colored⟩ := h
    obtain ⟨z, known, rfl⟩ := twins.neighbor_reached joined
    exact ⟨z, (twins.edge x z compared known).mp joined, (same z known).symm.trans colored⟩
  · intro h
    obtain ⟨z, joined, colored⟩ := h
    have known := twins.neighbor_compared joined
    exact ⟨φ z, (twins.edge x z compared known).mpr joined, (same z known).trans colored⟩

theorem Twins.insert {x : VarId} {c : Nat} {attempt attempt' : Coloring} (compared : D x)
    (same : Twins D φ attempt attempt') :
    Twins D φ { attempt with colors := attempt.colors.insert x c }
      { attempt' with colors := attempt'.colors.insert (φ x) c } := by
  refine ⟨fun y known => ?_, same.uncolored, same.bigFail, same.optimistic⟩
  simp only [Std.ExtTreeMap.getElem?_insert, Std.LawfulEqOrd.compare_eq_iff_eq]
  by_cases here : x = y
  · rw [if_pos here, if_pos (congrArg φ here)]
  · rw [if_neg here, if_neg fun equal => here (twins.injective x y compared known equal), same.colors y known]

theorem select_twins (items : List VarId) {before before' : Coloring} (same : Twins D φ before before')
    (virtual : ∀ x ∈ items, x ∈ virtualNodes g) (virtual' : ∀ x ∈ items, φ x ∈ virtualNodes g')
    (proper : Proper g k before.colors) (proper' : Proper g' k before'.colors) :
    ∃ after after', select g k items before = .ok after ∧ select g' k (items.map φ) before' = .ok after' ∧
      Twins D φ after after' ∧ Proper g k after.colors ∧ Proper g' k after'.colors := by
  induction items generalizing before before' with
  | nil => exact ⟨before, before', rfl, rfl, same, proper, proper'⟩
  | cons id rest ih =>
    have here := virtual id List.mem_cons_self
    have here' := virtual' id List.mem_cons_self
    have compared : D id := twins.compared id (mem_virtualNodes.mp here).1
    have later : ∀ x ∈ rest, x ∈ virtualNodes g := fun x member => virtual x (List.mem_cons_of_mem _ member)
    have later' : ∀ x ∈ rest, φ x ∈ virtualNodes g' := fun x member => virtual' x (List.mem_cons_of_mem _ member)
    have free := freeColor?_congr (k := k) (mem_used_twins twins compared same.colors)
    simp only [List.map_cons, select, neighborColors_ok proper, neighborColors_ok proper', bind, Except.bind,
      free]
    cases found : freeColor? k ((g.neighbors id).filterMap fun n => before.colors[n]?) with
    | none =>
      have skipped : Twins D φ { before with uncolored := id :: before.uncolored }
          { before' with uncolored := φ id :: before'.uncolored } :=
        ⟨same.colors, by rw [same.uncolored, List.map_cons], same.bigFail, same.optimistic⟩
      exact ih skipped later later' proper proper'
    | some c =>
      obtain ⟨inside, unused⟩ := freeColor?_spec found
      obtain ⟨-, unused'⟩ := freeColor?_spec (free.trans found)
      exact ih (same.insert twins compared) later later' (proper.insert twins.formed here inside unused)
        (proper'.insert twins.formed' here' inside unused')

end Selecting

structure Alike (φ : VarId → VarId) (g g' : Graph) : Prop where
  twins : Graph.Twins (· ∈ g.adj) φ g g'
  color : ∀ x ∈ g.adj, g'.color? (φ x) = g.color? x
  order : ∀ x ∈ virtualNodes g, ∀ y ∈ virtualNodes g, x < y → φ x < φ y

namespace Alike

variable {s s' : Sheet} {lv lv' : Liveness} (alike : Alike φ g g')

include alike

theorem virtualNodes_map : virtualNodes g' = (virtualNodes g).map φ := by
  have image : ((virtualNodes g).map φ).Pairwise (· < ·) := List.pairwise_map.mpr
    ((sorted_virtualNodes g).imp_of_mem fun left right before => alike.order _ left _ right before)
  refine (sorted_virtualNodes g').eq_of_mem_iff image fun y => ?_
  rw [List.mem_map, mem_virtualNodes]
  constructor
  · intro h
    obtain ⟨node, bare⟩ := h
    obtain ⟨x, known, rfl⟩ := alike.twins.reached y node
    exact ⟨x, mem_virtualNodes.mpr ⟨known, (alike.color x known).symm.trans bare⟩, rfl⟩
  · intro h
    obtain ⟨x, member, rfl⟩ := h
    obtain ⟨node, bare⟩ := mem_virtualNodes.mp member
    exact ⟨(alike.twins.node x node).mpr node, (alike.color x node).trans bare⟩

theorem precolors_map (x : VarId) (node : x ∈ g.adj) : (precolors g')[φ x]? = (precolors g)[x]? := by
  refine Option.ext fun c => ?_
  rw [precolors_getElem?, precolors_getElem?, alike.twins.node x node, alike.color x node]

theorem mergeSort_map {list : List VarId} (virtual : ∀ x ∈ list, x ∈ virtualNodes g) :
    (list.map φ).mergeSort (fun a b => decide (a ≤ b)) = (list.mergeSort fun a b => decide (a ≤ b)).map φ := by
  refine (List.map_mergeSort fun a left b right => ?_).symm
  rw [Bool.eq_iff_iff, decide_eq_true_eq, decide_eq_true_eq]
  have first := alike.order a (virtual a left) b (virtual b right)
  have second := alike.order b (virtual b right) a (virtual a left)
  rcases Nat.lt_trichotomy a b with before | rfl | later
  · exact iff_of_true (Nat.le_of_lt before) (Nat.le_of_lt (first before))
  · exact iff_of_true (Nat.le_refl _) (Nat.le_refl _)
  · exact iff_of_false (Nat.not_le.mpr later) (Nat.not_le.mpr (second later))

theorem color_twins (accepted : rf.Accepted) (analyzed : s.Analyzed rf lv) (analyzed' : s'.Analyzed rf lv')
    (interferes : Graph.Interferes rf s lv g) (interferes' : Graph.Interferes rf s' lv' g')
    (sameTemps : ∀ x ∈ virtualNodes g, temps'.contains (φ x) = temps.contains x) :
    ∃ attempt attempt', Coloring.color g s.function rf temps = .ok attempt ∧
      Coloring.color g' s'.function rf temps' = .ok attempt' ∧ Attempted rf g attempt ∧
      Twins (· ∈ g.adj) φ attempt attempt' := by
  have nodes : ∀ x ∈ virtualNodes g, x ∈ g.adj := fun x member => (mem_virtualNodes.mp member).1
  have pinned := interferes.pinned accepted analyzed
  have pinned' := interferes'.pinned accepted analyzed'
  have covered := simplify_covers rf temps (nodup_virtualNodes g) _ g {} 0 (start_partition pinned)
  have simplified : simplify rf (virtualNodes g') temps' (virtualNodes g').length g' {} 0 =
      (simplify rf (virtualNodes g) temps (virtualNodes g).length g {} 0).map φ := by
    rw [alike.virtualNodes_map, List.length_map]
    exact simplify_twins nodes sameTemps _ alike.twins {} 0
  obtain ⟨whole, found, attempted⟩ := color_attempted accepted analyzed interferes temps
  cases outcome : simplify rf (virtualNodes g) temps (virtualNodes g).length g {} 0 with
  | gaveUp remaining optimistic =>
    rw [outcome, Simplified.map] at simplified
    rw [Coloring.color, outcome] at found
    cases found
    refine ⟨_, _, by rw [Coloring.color, outcome], by rw [Coloring.color, simplified], attempted, ?_⟩
    exact ⟨fun x _ => by simp, rfl, rfl, rfl⟩
  | done stack optimistic =>
    rw [outcome, Simplified.map] at simplified
    rw [outcome] at covered
    have virtual : ∀ x ∈ stack.items, x ∈ virtualNodes g := fun x => (covered.2 x).mp
    have virtual' : ∀ x ∈ stack.items, φ x ∈ virtualNodes g' := by
      intro x member
      rw [alike.virtualNodes_map]
      exact List.mem_map_of_mem (virtual x member)
    have start : Twins (· ∈ g.adj) φ { colors := precolors g, optimistic := optimistic }
        { colors := precolors g', optimistic := optimistic } := ⟨alike.precolors_map, rfl, rfl, rfl⟩
    obtain ⟨after, after', selected, selected', same, proper, proper'⟩ :=
      select_twins alike.twins stack.items start virtual virtual' (precolors_proper pinned)
        (precolors_proper pinned')
    have done := color_of_selected pinned outcome selected proper
    have done' := color_of_selected pinned' simplified selected' proper'
    rw [done] at found
    cases found
    refine ⟨_, _, done, done', attempted, same.colors, ?_, same.bigFail, same.optimistic⟩
    have listed := attempted.uncolored
    simp only [List.mem_mergeSort] at listed
    simp only [same.uncolored]
    exact alike.mergeSort_map listed

end Alike

end Coloring

end RegisterAllocation
