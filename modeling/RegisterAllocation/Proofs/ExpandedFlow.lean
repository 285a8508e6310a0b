import RegisterAllocation.Proofs.Expansion

namespace RegisterAllocation

namespace Spill

variable {sp v : VarId} {homes : List (VarId × Word)} {tmp : VarId → VarId} {inst other : Instruction}
  {o : Nat}

def readHomes (homes : List (VarId × Word)) (inst : Instruction) : List (VarId × Word) :=
  homes.filter fun home => .var home.1 ∈ inst.reads

theorem loads_eq : loads sp homes tmp inst =
    (readHomes homes inst).map fun home => .load (.var (tmp home.1)) (.var sp) home.2 := rfl

theorem mem_readHomes {home : VarId × Word} :
    home ∈ readHomes homes inst ↔ home ∈ homes ∧ .var home.1 ∈ inst.reads := by
  simp [readHomes]

theorem stores_of_home {offset : Word} (written : inst.destination? = some (.var v))
    (home : homes.lookup v = some offset) :
    stores sp homes tmp inst = [.store (.var sp) offset (.var (tmp v))] := by
  simp [stores, written, home]

theorem stores_eq_nil (none : ∀ v, inst.destination? = some (.var v) → homes.lookup v = none) :
    stores sp homes tmp inst = [] := by
  unfold stores
  split
  · rename_i d written
    simp [none d written]
  · rfl

theorem stores_cases (sp : VarId) (homes : List (VarId × Word)) (tmp : VarId → VarId) (inst : Instruction) :
    (∃ v offset, inst.destination? = some (.var v) ∧ homes.lookup v = some offset ∧
      stores sp homes tmp inst = [.store (.var sp) offset (.var (tmp v))]) ∨
    ((∀ v, inst.destination? = some (.var v) → homes.lookup v = none) ∧ stores sp homes tmp inst = []) := by
  by_cases some_home : ∃ v offset, inst.destination? = some (.var v) ∧ homes.lookup v = some offset
  · obtain ⟨v, offset, written, home⟩ := some_home
    exact .inl ⟨v, offset, written, home, stores_of_home written home⟩
  · have none : ∀ v, inst.destination? = some (.var v) → homes.lookup v = none := by
      intro v written
      cases home : homes.lookup v with
      | none => rfl
      | some offset => exact absurd ⟨v, offset, written, home⟩ some_home
    exact .inr ⟨none, stores_eq_nil none⟩

theorem group_length : (group sp homes tmp inst).length =
    (readHomes homes inst).length + 1 + (stores sp homes tmp inst).length := by
  rw [group, loads_eq]
  simp
  omega

theorem group_getElem? (here : (group sp homes tmp inst)[o]? = some other) :
    (∃ v offset, (readHomes homes inst)[o]? = some (v, offset) ∧
      other = .load (.var (tmp v)) (.var sp) offset) ∨
    (o = (readHomes homes inst).length ∧ other = inst.rename (moved homes tmp)) ∨
    (o = (readHomes homes inst).length + 1 ∧ ∃ v offset, inst.destination? = some (.var v) ∧
      homes.lookup v = some offset ∧ other = .store (.var sp) offset (.var (tmp v))) := by
  rw [group, loads_eq] at here
  rcases Nat.lt_trichotomy o (readHomes homes inst).length with early | rfl | late
  · rw [List.getElem?_append_left (by simpa using early), List.getElem?_map, Option.map_eq_some_iff] at here
    obtain ⟨⟨v, offset⟩, found, rfl⟩ := here
    exact .inl ⟨v, offset, found, rfl⟩
  · rw [List.getElem?_append_right (by simp)] at here
    refine .inr (.inl ⟨rfl, ?_⟩)
    simpa using here.symm
  · obtain ⟨k, rfl⟩ := Nat.exists_eq_add_of_lt late
    rw [List.getElem?_append_right (by simp; omega), List.length_map,
      show (readHomes homes inst).length + k + 1 - (readHomes homes inst).length = k + 1 by omega,
      List.getElem?_cons_succ] at here
    rcases stores_cases sp homes tmp inst with ⟨v, offset, written, home, single⟩ | ⟨-, none⟩
    · rw [single] at here
      cases k with
      | zero => exact .inr (.inr ⟨rfl, v, offset, written, home, by simpa using here.symm⟩)
      | succ k => simp at here
    · simp [none] at here

theorem group_load {offset : Word} (found : (readHomes homes inst)[o]? = some (v, offset)) :
    (group sp homes tmp inst)[o]? = some (.load (.var (tmp v)) (.var sp) offset) := by
  have inside := (List.getElem?_eq_some_iff.mp found).1
  rw [group, loads_eq, List.getElem?_append_left (by simpa using inside), List.getElem?_map, found]
  rfl

theorem group_main : (group sp homes tmp inst)[(readHomes homes inst).length]? =
    some (inst.rename (moved homes tmp)) := by
  rw [group, loads_eq, List.getElem?_append_right (by simp)]
  simp

theorem group_store {offset : Word} (written : inst.destination? = some (.var v))
    (home : homes.lookup v = some offset) :
    (group sp homes tmp inst)[(readHomes homes inst).length + 1]? =
      some (.store (.var sp) offset (.var (tmp v))) := by
  rw [group, loads_eq, List.getElem?_append_right (by simp), stores_of_home written home]
  simp

theorem group_label (symbol : String) : group sp homes tmp (.label symbol) = [.label symbol] := by
  have noLoads : readHomes homes (.label symbol) = [] := by simp [readHomes, Instruction.reads]
  have noStores : stores sp homes tmp (.label symbol) = [] :=
    stores_eq_nil fun v written => by simp [Instruction.destination?] at written
  rw [group, loads_eq, noLoads, noStores]
  rfl

end Spill

open Spill

namespace Expanded

variable {rf : RegisterFile} {f g : Function} {sp v : VarId} {vs : List VarId}
  {tmp : Nat → VarId → VarId} {i j o p q : Nat} {inst other : Instruction} {target : String}

def place (f : Function) (sp : VarId) (vs : List VarId) (tmp : Nat → VarId → VarId) (i : Nat) : Nat :=
  Layout.start (expand sp (f.homes vs) tmp f.body) i

theorem place_zero : place f sp vs tmp 0 = 0 := Layout.start_zero _

theorem place_succ (here : f.body[i]? = some inst) :
    place f sp vs tmp (i + 1) = place f sp vs tmp i + (group sp (f.homes vs) (tmp i) inst).length :=
  Layout.start_succ (expand_getElem? here)

theorem place_unique {other : Instruction} (here : f.body[i]? = some inst)
    (inside : o < (group sp (f.homes vs) (tmp i) inst).length) (there : f.body[j]? = some other)
    (within : q < (group sp (f.homes vs) (tmp j) other).length)
    (same : place f sp vs tmp i + o = place f sp vs tmp j + q) : i = j ∧ o = q :=
  Layout.place_unique (expand_getElem? here) inside (expand_getElem? there) within same

variable (expanded : Expanded f sp vs tmp g)

include expanded

theorem getElem?_place (here : f.body[i]? = some inst)
    (found : (group sp (f.homes vs) (tmp i) inst)[o]? = some other) :
    g.body[place f sp vs tmp i + o]? = some other := by
  rw [expanded.body, place, Layout.getElem?_flatten (expand_getElem? here)
    (List.getElem?_eq_some_iff.mp found).1, found]

theorem exists_place (here : g.body[p]? = some other) :
    ∃ i o inst, f.body[i]? = some inst ∧ (group sp (f.homes vs) (tmp i) inst)[o]? = some other ∧
      p = place f sp vs tmp i + o := by
  have bound := (List.getElem?_eq_some_iff.mp here).1
  rw [expanded.body] at bound
  obtain ⟨i, o, grp, there, inside, rfl⟩ := Layout.exists_place bound
  rw [expanded.body, Layout.getElem?_flatten there inside] at here
  rw [expand, List.getElem?_mapIdx, Option.map_eq_some_iff] at there
  obtain ⟨inst, found, rfl⟩ := there
  exact ⟨i, o, inst, found, here, rfl⟩

theorem place_of_le (beyond : f.body.length ≤ i) : place f sp vs tmp i = g.body.length := by
  have all : (expand sp (f.homes vs) tmp f.body).take i = expand sp (f.homes vs) tmp f.body :=
    List.take_of_length_le (by simpa [expand] using beyond)
  rw [place, Layout.start, all, expanded.body]

theorem place_lt_length (before : place f sp vs tmp i < g.body.length) : i < f.body.length := by
  by_contra beyond
  rw [expanded.place_of_le (Nat.le_of_not_lt beyond)] at before
  exact absurd before (Nat.lt_irrefl _)

theorem labelIndex?_place (distinct : (Flow.labels f.body).Nodup) :
    Flow.labelIndex? target g.body = some q ↔
      ∃ j, Flow.labelIndex? target f.body = some j ∧ q = place f sp vs tmp j := by
  have distinct' : (Flow.labels g.body).Nodup := by rwa [expanded.body, labels_expand]
  rw [Flow.labelIndex?_eq_some_iff distinct']
  simp only [Flow.labelIndex?_eq_some_iff distinct]
  constructor
  · intro label
    obtain ⟨j, o, inst, here, found, rfl⟩ := expanded.exists_place label
    rcases group_getElem? found with ⟨v, offset, -, wrong⟩ | ⟨-, main⟩ | ⟨-, v, offset, -, -, wrong⟩
    · cases wrong
    · have isLabel : inst = .label target := by
        rw [← Instruction.label?_eq_some_iff, ← Instruction.label?_rename (moved (f.homes vs) (tmp j)), ← main]
        rfl
      subst isLabel
      rw [group_label] at found
      have first : o = 0 := by
        have bound := (List.getElem?_eq_some_iff.mp found).1
        simpa using bound
      exact ⟨j, here, by rw [first, Nat.add_zero]⟩
    · cases wrong
  · intro h
    obtain ⟨j, label, rfl⟩ := h
    exact expanded.getElem?_place (o := 0) label (by rw [group_label]; rfl)

-- Control goes through a group from front to back and leaves it as it leaves the instruction.
theorem edge_cases (distinct : (Flow.labels f.body).Nodup) (here : f.body[i]? = some inst)
    (found : (group sp (f.homes vs) (tmp i) inst)[o]? = some other)
    (edge : Flow.Edge g.body (place f sp vs tmp i + o) q) :
    (q = place f sp vs tmp i + (o + 1) ∧ o + 1 < (group sp (f.homes vs) (tmp i) inst).length) ∨
      (o + 1 = (group sp (f.homes vs) (tmp i) inst).length ∧
        ∃ j, Flow.Edge f.body i j ∧ q = place f sp vs tmp j) := by
  have inside := (List.getElem?_eq_some_iff.mp found).1
  obtain ⟨other', there, next⟩ := edge
  rw [expanded.getElem?_place here found] at there
  cases there
  have falls : inst.isTerminal = false → q = place f sp vs tmp i + o + 1 →
      place f sp vs tmp i + o + 1 < g.body.length →
      (q = place f sp vs tmp i + (o + 1) ∧ o + 1 < (group sp (f.homes vs) (tmp i) inst).length) ∨
      (o + 1 = (group sp (f.homes vs) (tmp i) inst).length ∧
        ∃ j, Flow.Edge f.body i j ∧ q = place f sp vs tmp j) := by
    intro goesOn same bound
    rcases Nat.lt_or_ge (o + 1) (group sp (f.homes vs) (tmp i) inst).length with more | atEnd
    · exact .inl ⟨same, more⟩
    · -- Falling through at the end of a group leads to the group after it.
      have last : o + 1 = (group sp (f.homes vs) (tmp i) inst).length := Nat.le_antisymm inside atEnd
      have step : place f sp vs tmp (i + 1) = place f sp vs tmp i + o + 1 := by
        rw [place_succ here, ← last, Nat.add_assoc]
      refine .inr ⟨last, i + 1, ⟨inst, here, .inl ⟨rfl, ?_, goesOn⟩⟩, same.trans step.symm⟩
      exact expanded.place_lt_length (step ▸ bound)
  rcases group_getElem? found with ⟨v, offset, load, rfl⟩ | ⟨main, rfl⟩ | ⟨-, v, offset, written, -, rfl⟩
  · have early := (List.getElem?_eq_some_iff.mp load).1
    rcases next with ⟨same, -, -⟩ | ⟨target, branch, -⟩
    · exact .inl ⟨same, by rw [group_length]; omega⟩
    · cases branch
  · rcases next with ⟨same, bound, goesOn⟩ | ⟨target, branch, index⟩
    · exact falls (Instruction.isTerminal_rename _ inst ▸ goesOn) same bound
    · rw [Instruction.target?_rename] at branch
      obtain ⟨j, label, rfl⟩ := (expanded.labelIndex?_place distinct).mp index
      refine .inr ⟨?_, j, ⟨inst, here, .inr ⟨target, branch, label⟩⟩, rfl⟩
      have noStores : stores sp (f.homes vs) (tmp i) inst = [] := stores_eq_nil fun v written => by
        rw [(Instruction.flows_of_destination written).2.1] at branch
        cases branch
      rw [group_length, noStores, main]
      rfl
  · rcases next with ⟨same, bound, -⟩ | ⟨target, branch, -⟩
    · exact falls (Instruction.flows_of_destination written).1 same bound
    · cases branch

end Expanded

end RegisterAllocation
