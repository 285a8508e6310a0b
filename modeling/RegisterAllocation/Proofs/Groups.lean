import Mathlib.Data.List.Basic
import RegisterAllocation.Proofs.ControlFlow
import RegisterAllocation.Proofs.ReadsAndWrites
import RegisterAllocation.Spill

namespace RegisterAllocation

namespace Layout

variable {α : Type} {groups : List (List α)} {group : List α} {i j o p q : Nat}

def start (groups : List (List α)) (i : Nat) : Nat := (groups.take i).flatten.length

theorem start_zero (groups : List (List α)) : start groups 0 = 0 := by simp [start]

theorem start_succ (here : groups[i]? = some group) : start groups (i + 1) = start groups i + group.length := by
  simp [start, List.take_add_one, here]

theorem start_mono (groups : List (List α)) (order : i ≤ j) : start groups i ≤ start groups j := by
  obtain ⟨k, rfl⟩ := Nat.exists_eq_add_of_le order
  rw [start, start, List.take_add, List.flatten_append, List.length_append]
  exact Nat.le_add_right _ _

theorem getElem?_flatten (here : groups[i]? = some group) (inside : o < group.length) :
    groups.flatten[start groups i + o]? = group[o]? := by
  induction groups generalizing i with
  | nil => simp at here
  | cons first rest ih =>
    cases i with
    | zero =>
      cases here
      rw [start_zero, Nat.zero_add, List.flatten_cons, List.getElem?_append_left inside]
    | succ i =>
      have past : start (first :: rest) (i + 1) = first.length + start rest i := by simp [start]
      rw [past, List.flatten_cons, Nat.add_assoc, List.getElem?_append_right (Nat.le_add_right _ _),
        Nat.add_sub_cancel_left]
      exact ih here

theorem exists_place (inside : p < groups.flatten.length) :
    ∃ i o group, groups[i]? = some group ∧ o < group.length ∧ p = start groups i + o := by
  induction groups generalizing p with
  | nil => simp at inside
  | cons first rest ih =>
    by_cases early : p < first.length
    · exact ⟨0, p, first, rfl, early, by simp [start]⟩
    · rw [List.flatten_cons, List.length_append] at inside
      obtain ⟨i, o, group, here, within, place⟩ := ih (p := p - first.length) (by omega)
      refine ⟨i + 1, o, group, here, within, ?_⟩
      have past : start (first :: rest) (i + 1) = first.length + start rest i := by simp [start]
      omega

theorem place_unique {other : List α} (here : groups[i]? = some group) (inside : o < group.length)
    (there : groups[j]? = some other) (within : q < other.length)
    (same : start groups i + o = start groups j + q) : i = j ∧ o = q := by
  rcases Nat.lt_trichotomy i j with before | rfl | after
  · have past := start_mono groups (Nat.succ_le_of_lt before)
    rw [Nat.succ_eq_add_one, start_succ here] at past
    omega
  · exact ⟨rfl, Nat.add_left_cancel same⟩
  · have past := start_mono groups (Nat.succ_le_of_lt after)
    rw [Nat.succ_eq_add_one, start_succ there] at past
    omega

end Layout

namespace Instruction

variable {inst : Instruction} {ρ σ : VarId → VarId} {x y : VarId}

theorem rename_rename (ρ σ : VarId → VarId) (inst : Instruction) :
    (inst.rename ρ).rename σ = inst.rename (σ ∘ ρ) := by
  have operand : Operand.rename σ ∘ Operand.rename ρ = Operand.rename (σ ∘ ρ) := by
    funext op
    cases op <;> rfl
  exact (mapOperands_mapOperands _ _ inst).trans (congrArg (inst.mapOperands ·) operand)

theorem rename_congr (same : ∀ x, .var x ∈ inst.operands → ρ x = σ x) : inst.rename ρ = inst.rename σ := by
  have operand : ∀ op ∈ inst.operands, op.rename ρ = op.rename σ := by
    intro op member
    cases op with
    | var x => exact congrArg Operand.var (same x member)
    | num _ | label _ | name _ => rfl
  cases inst <;> simp_all [rename, mapOperands, operands]

theorem rename_id (fixed : ∀ x, .var x ∈ inst.operands → ρ x = x) : inst.rename ρ = inst := by
  have trivial : (fun op : Operand => op.rename fun x => x) = id := by
    funext op
    cases op <;> rfl
  have same : inst.rename ρ = inst.rename fun x => x := rename_congr fixed
  rw [same, rename, trivial, mapOperands_id]

theorem map_rename_id {body : List Instruction}
    (fixed : ∀ inst ∈ body, ∀ x, .var x ∈ inst.operands → ρ x = x) : body.map (·.rename ρ) = body :=
  (List.map_congr_left fun inst member => rename_id (fixed inst member)).trans (List.map_id body)

theorem operands_rename (ρ : VarId → VarId) (inst : Instruction) :
    (inst.rename ρ).operands = inst.operands.map (·.rename ρ) :=
  operands_mapOperands _ inst

theorem label?_rename (ρ : VarId → VarId) (inst : Instruction) : (inst.rename ρ).label? = inst.label? := by
  cases inst <;> rfl

theorem isTerminal_rename (ρ : VarId → VarId) (inst : Instruction) :
    (inst.rename ρ).isTerminal = inst.isTerminal := by
  cases inst <;> rfl

theorem target?_rename (ρ : VarId → VarId) (inst : Instruction) :
    (inst.rename ρ).target? = inst.target? :=
  target?_mapOperands _ inst

theorem var_mem_map_rename {ops : List Operand} :
    .var y ∈ ops.map (·.rename ρ) ↔ ∃ x, .var x ∈ ops ∧ ρ x = y := by
  rw [List.mem_map]
  constructor
  · intro h
    obtain ⟨op, member, same⟩ := h
    cases op <;> simp only [Operand.rename, reduceCtorEq, Operand.var.injEq] at same
    exact ⟨_, member, same⟩
  · intro h
    obtain ⟨x, member, rfl⟩ := h
    exact ⟨_, member, rfl⟩

theorem destination?_rename_var {y : VarId} :
    (inst.rename ρ).destination? = some (.var y) ↔
      ∃ x, inst.destination? = some (.var x) ∧ ρ x = y := by
  rw [destination?_rename, Option.map_eq_some_iff]
  constructor
  · intro h
    obtain ⟨op, found, same⟩ := h
    cases op <;> simp only [Operand.rename, reduceCtorEq, Operand.var.injEq] at same
    exact ⟨_, found, same⟩
  · intro h
    obtain ⟨x, found, rfl⟩ := h
    exact ⟨_, found, rfl⟩

-- An instruction that writes to an operand neither branches nor ends the flow.
theorem flows_of_destination {op : Operand} (found : inst.destination? = some op) :
    inst.isTerminal = false ∧ inst.target? = none ∧ inst.label? = none := by
  cases inst <;> simp_all [destination?, isTerminal, target?, label?]

end Instruction

namespace Spill

variable {sp v x : VarId} {homes : List (VarId × Word)} {offset : Word} {tmp tmp' : VarId → VarId}
  {inst : Instruction}

def moved (homes : List (VarId × Word)) (tmp : VarId → VarId) (x : VarId) : VarId :=
  if (homes.lookup x).isSome then tmp x else x

def loads (sp : VarId) (homes : List (VarId × Word)) (tmp : VarId → VarId) (inst : Instruction) :
    List Instruction :=
  (homes.filter fun home => .var home.1 ∈ inst.reads).map fun home =>
    .load (.var (tmp home.1)) (.var sp) home.2

def stores (sp : VarId) (homes : List (VarId × Word)) (tmp : VarId → VarId) (inst : Instruction) :
    List Instruction :=
  match inst.destination? with
  | some (.var d) =>
    ((homes.lookup d).map fun offset => .store (.var sp) offset (.var (tmp d))).toList
  | _ => []

-- An instruction on temporaries, with the loads and the store of those that live on the stack.
def group (sp : VarId) (homes : List (VarId × Word)) (tmp : VarId → VarId) (inst : Instruction) :
    List Instruction :=
  loads sp homes tmp inst ++ inst.rename (moved homes tmp) :: stores sp homes tmp inst

theorem group_nil : group sp [] tmp inst = [inst] := by
  have none : stores sp [] tmp inst = [] := by
    unfold stores
    split <;> rfl
  have same : inst.rename (moved [] tmp) = inst := Instruction.rename_id fun x _ => rfl
  rw [group, none, same]
  rfl

theorem lookup_concat (absent : homes.lookup v = none) :
    (homes ++ [(v, offset)]).lookup x = if x = v then some offset else homes.lookup x := by
  rw [List.lookup_append]
  split
  · rename_i same
    simp [same, absent]
  · rename_i other
    simp [List.lookup_cons, beq_eq_false_iff_ne.mpr other]

theorem lookup_isSome : (homes.lookup x).isSome ↔ x ∈ homes.map Prod.fst := by
  rw [List.lookup_isSome_iff, List.mem_map]
  exact exists_congr fun home => and_congr_right fun _ => beq_iff_eq.trans eq_comm

section Extension

variable (absent : homes.lookup v = none) (others : ∀ x, x ≠ v → tmp' x = tmp x)

include absent others

theorem loads_concat :
    loads sp (homes ++ [(v, offset)]) tmp' inst = loads sp homes tmp inst ++
      (if .var v ∈ inst.reads then [.load (.var (tmp' v)) (.var sp) offset] else []) := by
  rw [loads, List.filter_append, List.map_append, loads]
  congr 1
  · refine List.map_congr_left fun home member => ?_
    have known : (homes.lookup home.1).isSome :=
      lookup_isSome.mpr (List.mem_map_of_mem (List.mem_filter.mp member).1)
    have other : home.1 ≠ v := by
      intro same
      simp [same, absent] at known
    rw [others _ other]
  · by_cases reading : .var v ∈ inst.reads <;> simp [reading]

theorem stores_concat :
    stores sp (homes ++ [(v, offset)]) tmp' inst =
      (if inst.destination? = some (.var v) then [.store (.var sp) offset (.var (tmp' v))] else []) ++
        stores sp homes tmp inst := by
  unfold stores
  split
  · rename_i d found
    rw [lookup_concat absent]
    by_cases same : d = v
    · subst same
      simp [found, absent]
    · rw [if_neg same, others d same, if_neg (by simpa [found] using same), List.nil_append]
  · rename_i plain
    rw [if_neg (plain v), List.nil_append]

theorem moved_concat : moved (homes ++ [(v, offset)]) tmp' x = if x = v then tmp' v else moved homes tmp x := by
  unfold moved
  rw [lookup_concat absent]
  by_cases same : x = v
  · simp [same]
  · rw [if_neg same, if_neg same, others x same]

variable (apart : ∀ x, .var x ∈ inst.operands → (homes.lookup x).isSome → tmp x ≠ v)

include apart

omit others in
theorem moved_eq_iff (operand : .var x ∈ inst.operands) : moved homes tmp x = v ↔ x = v := by
  unfold moved
  split
  · rename_i known
    constructor
    · exact fun same => absurd same (apart x operand known)
    · intro same
      subst same
      simp [absent] at known
  · rfl

omit others in
theorem reads_moved : .var v ∈ (inst.rename (moved homes tmp)).reads ↔ .var v ∈ inst.reads := by
  rw [Instruction.reads_rename, Instruction.var_mem_map_rename]
  constructor
  · intro h
    obtain ⟨x, member, same⟩ := h
    rwa [(moved_eq_iff absent apart (Instruction.reads_subset_operands inst member)).mp same] at member
  · intro member
    exact ⟨v, member, (moved_eq_iff absent apart (Instruction.reads_subset_operands inst member)).mpr rfl⟩

omit others in
theorem destination?_moved :
    (inst.rename (moved homes tmp)).destination? = some (.var v) ↔ inst.destination? = some (.var v) := by
  rw [Instruction.destination?_rename_var]
  constructor
  · intro h
    obtain ⟨x, found, same⟩ := h
    rwa [(moved_eq_iff absent apart (Instruction.destination?_mem_operands found)).mp same] at found
  · intro found
    exact ⟨v, found, (moved_eq_iff absent apart (Instruction.destination?_mem_operands found)).mpr rfl⟩

theorem rename_concat (offset : Word) :
    (inst.rename (moved homes tmp)).rename (fun id => if id = v then tmp' v else id) =
      inst.rename (moved (homes ++ [(v, offset)]) tmp') := by
  rw [Instruction.rename_rename]
  refine Instruction.rename_congr fun x operand => ?_
  rw [moved_concat absent others, Function.comp_apply]
  by_cases same : x = v
  · rw [if_pos same, if_pos ((moved_eq_iff absent apart operand).mpr same)]
  · rw [if_neg same, if_neg (mt (moved_eq_iff absent apart operand).mp same)]

theorem group_concat :
    group sp (homes ++ [(v, offset)]) tmp' inst =
      loads sp homes tmp inst ++ around v (tmp' v) ⟨sp, offset⟩ (inst.rename (moved homes tmp))
        (decide (.var v ∈ inst.reads)) (decide (inst.destination? = some (.var v))) ++
        stores sp homes tmp inst := by
  rw [group, loads_concat absent others, stores_concat absent others, around,
    rename_concat absent others apart offset]
  simp

omit apart in
theorem group_untouched (sp : VarId) (offset : Word) (untouched : .var v ∉ inst.operands) :
    group sp (homes ++ [(v, offset)]) tmp' inst = group sp homes tmp inst := by
  have plain : inst.destination? ≠ some (.var v) := fun found =>
    untouched (Instruction.destination?_mem_operands found)
  have unread : .var v ∉ inst.reads := fun member => untouched (Instruction.reads_subset_operands inst member)
  rw [group, loads_concat absent others, stores_concat absent others, if_neg unread, if_neg plain,
    List.append_nil, List.nil_append, group]
  congr 2
  refine Instruction.rename_congr fun x operand => ?_
  rw [moved_concat absent others, if_neg]
  intro same
  subst same
  exact untouched operand

end Extension

end Spill

end RegisterAllocation
