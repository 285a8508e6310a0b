import RegisterAllocation.Proofs.FreshNames
import RegisterAllocation.Proofs.Groups
import RegisterAllocation.Proofs.ValidFunctions

namespace RegisterAllocation.Spill

variable {rf : RegisterFile} {t : VarTable} {names : NameSequence} {v x : VarId} {slot : Slot}
  {homes : List (VarId × Word)} {inst : Instruction}

-- Moving a variable out, told by the operands of the instructions instead of their sets.
def moveBody (v : VarId) (slot : Slot) (t : VarTable) (names : NameSequence) :
    List Instruction → Moved
  | [] => { table := t, names := names }
  | inst :: rest =>
    if .var v ∈ inst.operands then
      let r := moveBody v slot (t.intern (names.draw t.names).1).2 (names.draw t.names).2 rest
      { r with
        body := around v (t.intern (names.draw t.names).1).1 slot inst (decide (.var v ∈ inst.reads))
          (decide (inst.destination? = some (.var v))) ++ r.body
        temps := (names.draw t.names).1 :: r.temps }
    else
      let r := moveBody v slot t names rest
      { r with body := inst :: r.body }

structure Shown (v : VarId) (inst : Instruction) (set : UseDef) : Prop where
  used : v ∈ set.used ↔ .var v ∈ inst.reads
  defined : v ∈ set.defined ↔ inst.destination? = some (.var v)

theorem shown_of_describes {set : UseDef} (accepted : rf.Accepted) (known : v < t.size)
    (virtual : t.isRegister v = false) (sound : t.Sound) (convention : t.convention = some rf)
    (described : UseDef.Describes rf t inst set) : Shown v inst set := by
  have named : ¬(t.nameOf v = rf.sp ∨ t.nameOf v ∈ rf.registers) := by
    rw [← RegisterFile.isRegister_iff, ← VarTable.isRegister_eq sound convention known, virtual]
    exact Bool.false_ne_true
  rw [not_or] at named
  have unread : t.nameOf v ∉ inst.implicitReads rf := fun member =>
    named.2 (Instruction.implicitReads_allocatable accepted inst _ member)
  have unwritten : t.nameOf v ∉ inst.implicitWrites rf := fun member =>
    named.2 (Instruction.implicitWrites_allocatable accepted inst _ member)
  constructor
  · rw [described.used, Instruction.Uses]
    simp [named.1, unread]
  · rw [described.defined, Instruction.Defines]
    simp [named.1, unwritten]

theorem moveOut_eq {body : List Instruction} {sets : List UseDef}
    (shown : List.Forall₂ (Shown v) body sets) (slot : Slot) (t : VarTable) (names : NameSequence) :
    moveOut v slot t names (body.zip sets) = moveBody v slot t names body := by
  induction shown generalizing t names with
  | nil => rfl
  | @cons inst set body sets first rest ih =>
    have reads : set.used.contains v = decide (.var v ∈ inst.reads) := by
      rw [Bool.eq_iff_iff, Std.ExtTreeSet.contains_iff_mem, decide_eq_true_iff, first.used]
    have writes : set.defined.contains v = decide (inst.destination? = some (.var v)) := by
      rw [Bool.eq_iff_iff, Std.ExtTreeSet.contains_iff_mem, decide_eq_true_iff, first.defined]
    have touched : (!set.used.contains v && !set.defined.contains v) = true ↔ .var v ∉ inst.operands := by
      rw [reads, writes, Instruction.mem_operands_iff]
      simp
    rw [List.zip_cons_cons, moveOut, moveBody]
    by_cases member : .var v ∈ inst.operands
    · rw [if_neg (fun none => touched.mp none member), if_pos member, reads, writes]
      simp only [ih]
    · rw [if_pos (touched.mpr member), if_neg member]
      simp only [ih]

theorem moveBody_append (first rest : List Instruction) (t : VarTable) (names : NameSequence) :
    let r := moveBody v slot t names first
    let r' := moveBody v slot r.table r.names rest
    moveBody v slot t names (first ++ rest) =
      { body := r.body ++ r'.body, temps := r.temps ++ r'.temps, table := r'.table, names := r'.names } := by
  induction first generalizing t names with
  | nil => rfl
  | cons inst more ih =>
    rw [List.cons_append, moveBody, moveBody]
    by_cases member : .var v ∈ inst.operands
    · simp only [if_pos member, ih, List.append_assoc, List.cons_append]
    · simp only [if_neg member, ih, List.cons_append]

theorem moveBody_untouched {body : List Instruction} (untouched : ∀ inst ∈ body, .var v ∉ inst.operands)
    (t : VarTable) (names : NameSequence) :
    moveBody v slot t names body = { body := body, table := t, names := names } := by
  induction body with
  | nil => rfl
  | cons inst rest ih =>
    rw [moveBody, if_neg (untouched inst List.mem_cons_self),
      ih fun other member => untouched other (List.mem_cons_of_mem _ member)]

section Group

variable {sp : VarId} {tmp tmp' : VarId → VarId} {offset : Word}
  (absent : homes.lookup v = none) (pointer : sp ≠ v)
  (apart : ∀ x, .var x ∈ inst.operands → (homes.lookup x).isSome → tmp x ≠ v)

include pointer apart

theorem loads_untouched : ∀ load ∈ loads sp homes tmp inst, .var v ∉ load.operands := by
  intro load member
  obtain ⟨home, filtered, rfl⟩ := List.mem_map.mp member
  obtain ⟨known, reading⟩ := List.mem_filter.mp filtered
  have other := apart home.1 (Instruction.reads_subset_operands inst (by simpa using reading))
    (lookup_isSome.mpr (List.mem_map_of_mem known))
  simp [Instruction.operands, other.symm, pointer.symm]

theorem stores_untouched : ∀ store ∈ stores sp homes tmp inst, .var v ∉ store.operands := by
  intro store member
  unfold stores at member
  split at member
  · rename_i d found
    rw [Option.mem_toList, Option.map_eq_some_iff] at member
    obtain ⟨offset, known, rfl⟩ := member
    have other := apart d (Instruction.destination?_mem_operands found) (by simp [known])
    simp [Instruction.operands, other.symm, pointer.symm]
  · cases member

include absent

theorem moveBody_group_touched (offset : Word) (t : VarTable) (names : NameSequence)
    (touched : .var v ∈ inst.operands) (others : ∀ x, x ≠ v → tmp' x = tmp x)
    (drawn : tmp' v = (t.intern (names.draw t.names).1).1) :
    moveBody v ⟨sp, offset⟩ t names (group sp homes tmp inst) =
      { body := group sp (homes ++ [(v, offset)]) tmp' inst
        temps := [(names.draw t.names).1]
        table := (t.intern (names.draw t.names).1).2
        names := (names.draw t.names).2 } := by
  have operand : .var v ∈ (inst.rename (moved homes tmp)).operands := by
    rw [Instruction.mem_operands_iff, reads_moved absent apart, destination?_moved absent apart,
      ← Instruction.mem_operands_iff]
    exact touched
  have main : ∀ rest, (∀ store ∈ rest, .var v ∉ store.operands) →
      moveBody v ⟨sp, offset⟩ t names (inst.rename (moved homes tmp) :: rest) =
        { body := around v (tmp' v) ⟨sp, offset⟩ (inst.rename (moved homes tmp))
            (decide (.var v ∈ inst.reads)) (decide (inst.destination? = some (.var v))) ++ rest
          temps := [(names.draw t.names).1]
          table := (t.intern (names.draw t.names).1).2
          names := (names.draw t.names).2 } := by
    intro rest untouched
    rw [moveBody, if_pos operand, moveBody_untouched untouched, drawn]
    simp only [reads_moved absent apart, destination?_moved absent apart]
  rw [group, moveBody_append, moveBody_untouched (loads_untouched pointer apart),
    main _ (stores_untouched pointer apart), group_concat absent others apart]
  simp

omit absent in
theorem moveBody_group_untouched (slot : Slot) (t : VarTable) (names : NameSequence)
    (untouched : .var v ∉ inst.operands) :
    moveBody v slot t names (group sp homes tmp inst) =
      { body := group sp homes tmp inst, table := t, names := names } := by
  refine moveBody_untouched (fun other member => ?_) t names
  rw [group, List.mem_append, List.mem_cons] at member
  rcases member with load | rfl | store
  · exact loads_untouched pointer apart other load
  · rw [Instruction.operands_rename, Instruction.var_mem_map_rename]
    intro h
    obtain ⟨x, operand, same⟩ := h
    unfold moved at same
    split at same
    · exact apart x operand ‹_› same
    · exact untouched (same ▸ operand)
  · exact stores_untouched pointer apart other store

end Group

def expand (sp : VarId) (homes : List (VarId × Word)) (tmp : Nat → VarId → VarId)
    (body : List Instruction) : List (List Instruction) :=
  body.mapIdx fun i inst => group sp homes (tmp i) inst

def Touches (body : List Instruction) (v : VarId) (i : Nat) : Prop :=
  ∃ inst, body[i]? = some inst ∧ .var v ∈ inst.operands

-- Every instruction on the variable has a new temporary, in the order of the instructions.
structure Drawn (body : List Instruction) (v : VarId) (t : VarTable) (names : NameSequence) (r : Moved)
    (new : Nat → VarId) : Prop where
  grown : t.Extends r.table
  sound : r.table.Sound
  stem : r.names.stem = names.stem
  fresh : ∀ i, Touches body v i → t.size ≤ new i ∧ new i < r.table.size
  listed : ∀ i, Touches body v i → r.table.nameOf (new i) ∈ r.temps
  order : ∀ i j, Touches body v i → Touches body v j → i < j → new i < new j
  virtual : ∀ name ∈ r.temps, isVirtualName name = true
  temps : ∀ name ∈ r.temps, ∃ i, Touches body v i ∧ r.table.nameOf (new i) = name

theorem Drawn.mem_temps {body : List Instruction} {r : Moved} {new : Nat → VarId} {x : VarId}
    (drawn : Drawn body v t names r new) :
    x ∈ r.temps.filterMap r.table.id? ↔ ∃ i, Touches body v i ∧ x = new i := by
  rw [List.mem_filterMap]
  constructor
  · intro h
    obtain ⟨name, member, numbered⟩ := h
    obtain ⟨i, touched, rfl⟩ := drawn.temps name member
    rw [VarTable.id?_nameOf drawn.sound (drawn.fresh i touched).2] at numbered
    exact ⟨i, touched, (Option.some.inj numbered).symm⟩
  · intro h
    obtain ⟨i, touched, rfl⟩ := h
    exact ⟨_, drawn.listed i touched, VarTable.id?_nameOf drawn.sound (drawn.fresh i touched).2⟩

theorem touches_cons_zero {body : List Instruction} : Touches (inst :: body) v 0 ↔ .var v ∈ inst.operands := by
  simp [Touches]

theorem touches_cons_succ {body : List Instruction} {i : Nat} :
    Touches (inst :: body) v (i + 1) ↔ Touches body v i := by
  simp [Touches]

theorem intern_drawn (t : VarTable) (names : NameSequence) :
    (t.intern (names.draw t.names).1).1 = t.size ∧
      (t.intern (names.draw t.names).1).2.size = t.size + 1 := by
  have new := VarTable.id?_eq_none_iff.mpr (NameSequence.draw_not_used names t.names)
  rw [VarTable.intern_new new]
  simp [VarTable.size]

theorem names_moveBody (v : VarId) (slot : Slot) (t : VarTable) (names : NameSequence) (body : List Instruction) :
    (moveBody v slot t names body).table.names = t.names ++ (moveBody v slot t names body).temps := by
  induction body generalizing t names with
  | nil => simp [moveBody]
  | cons inst rest ih =>
    unfold moveBody
    split
    · have new := VarTable.id?_eq_none_iff.mpr (NameSequence.draw_not_used names t.names)
      rw [ih, VarTable.intern_new new]
      simp [VarTable.names]
    · exact ih t names

def prepend (first : VarId) (rest : Nat → VarId) : Nat → VarId
  | 0 => first
  | i + 1 => rest i

theorem Drawn.cons_untouched {body front : List Instruction} {r : Moved} {new : Nat → VarId}
    (untouched : .var v ∉ inst.operands) (drawn : Drawn body v t names r new) :
    Drawn (inst :: body) v t names { r with body := front } (prepend 0 new) := by
  have place : ∀ i, Touches (inst :: body) v i → ∃ j, i = j + 1 ∧ Touches body v j := by
    intro i touched
    cases i with
    | zero => exact absurd (touches_cons_zero.mp touched) untouched
    | succ j => exact ⟨j, rfl, touches_cons_succ.mp touched⟩
  refine ⟨drawn.grown, drawn.sound, drawn.stem, ?_, ?_, ?_, drawn.virtual, ?_⟩
  · intro i touched
    obtain ⟨j, rfl, there⟩ := place i touched
    exact drawn.fresh j there
  · intro i touched
    obtain ⟨j, rfl, there⟩ := place i touched
    exact drawn.listed j there
  · intro i j left right order
    obtain ⟨i, rfl, left⟩ := place i left
    obtain ⟨j, rfl, right⟩ := place j right
    exact drawn.order i j left right (Nat.lt_of_succ_lt_succ order)
  · intro name member
    obtain ⟨i, touched, named⟩ := drawn.temps name member
    exact ⟨i + 1, touches_cons_succ.mpr touched, named⟩

theorem Drawn.cons_touched {body front : List Instruction} {r : Moved} {new : Nat → VarId}
    (stem : isVirtualName names.stem = true) (touched : .var v ∈ inst.operands)
    (drawn : Drawn body v (t.intern (names.draw t.names).1).2 (names.draw t.names).2 r new) :
    Drawn (inst :: body) v t names
      { r with body := front, temps := (names.draw t.names).1 :: r.temps } (prepend t.size new) := by
  obtain ⟨number, size⟩ := intern_drawn t names
  have known : t.size < (t.intern (names.draw t.names).1).2.size := size ▸ Nat.lt_succ_self _
  have first : r.table.nameOf t.size = (names.draw t.names).1 := by
    rw [drawn.grown.nameOf known, ← number, VarTable.nameOf_intern]
  have bound : t.size < r.table.size := Nat.lt_of_lt_of_le known drawn.grown.size_le
  refine ⟨(VarTable.intern_extends t _).trans drawn.grown, drawn.sound, drawn.stem, ?_, ?_, ?_, ?_, ?_⟩
  · intro i there
    cases i with
    | zero => exact ⟨Nat.le_refl _, bound⟩
    | succ i =>
      have fresh := drawn.fresh i (touches_cons_succ.mp there)
      exact ⟨Nat.le_of_lt (Nat.lt_of_lt_of_le known fresh.1), fresh.2⟩
  · intro i there
    cases i with
    | zero => exact first ▸ List.mem_cons_self
    | succ i => exact List.mem_cons_of_mem _ (drawn.listed i (touches_cons_succ.mp there))
  · intro i j left right order
    cases i with
    | zero =>
      cases j with
      | zero => exact absurd order (Nat.lt_irrefl 0)
      | succ j => exact Nat.lt_of_lt_of_le known (drawn.fresh j (touches_cons_succ.mp right)).1
    | succ i =>
      cases j with
      | zero => exact absurd order (Nat.not_lt_zero _)
      | succ j =>
        exact drawn.order i j (touches_cons_succ.mp left) (touches_cons_succ.mp right)
          (Nat.lt_of_succ_lt_succ order)
  · intro name member
    rcases List.mem_cons.mp member with rfl | later
    · obtain ⟨n, -, named, -⟩ := NameSequence.draw_name names t.names
      rw [named]
      exact NameSequence.isVirtualName_nameAt stem n
    · exact drawn.virtual name later
  · intro name member
    rcases List.mem_cons.mp member with rfl | later
    · exact ⟨0, touches_cons_zero.mpr touched, first⟩
    · obtain ⟨i, there, named⟩ := drawn.temps name later
      exact ⟨i + 1, touches_cons_succ.mpr there, named⟩

theorem expand_cons (sp : VarId) (homes : List (VarId × Word)) (tmp : Nat → VarId → VarId)
    (inst : Instruction) (body : List Instruction) :
    expand sp homes tmp (inst :: body) =
      group sp homes (tmp 0) inst :: expand sp homes (fun i => tmp (i + 1)) body :=
  List.mapIdx_cons

-- Moving one more variable out of an expanded body gives the body expanded with its home, too.
theorem moveBody_expand {sp : VarId} (offset : Word) (absent : homes.lookup v = none) (pointer : sp ≠ v)
    (body : List Instruction) (tmp : Nat → VarId → VarId)
    (apart : ∀ i inst, body[i]? = some inst → ∀ x, .var x ∈ inst.operands →
      (homes.lookup x).isSome → tmp i x ≠ v)
    (t : VarTable) (names : NameSequence) (sound : t.Sound) (stem : isVirtualName names.stem = true) :
    ∃ new, Drawn body v t names (moveBody v ⟨sp, offset⟩ t names (expand sp homes tmp body).flatten) new ∧
      (moveBody v ⟨sp, offset⟩ t names (expand sp homes tmp body).flatten).body =
        (expand sp (homes ++ [(v, offset)]) (fun i x => if x = v then new i else tmp i x) body).flatten := by
  induction body generalizing tmp t names with
  | nil =>
    exact ⟨fun _ => 0, ⟨.refl t, sound, rfl, by simp [Touches], by simp [Touches], by simp [Touches],
      by simp [expand, moveBody], by simp [expand, moveBody]⟩, rfl⟩
  | cons inst rest ih =>
    have here := apart 0 inst rfl
    have later : ∀ i inst, rest[i]? = some inst → ∀ x, .var x ∈ inst.operands →
        (homes.lookup x).isSome → tmp (i + 1) x ≠ v := fun i other there => apart (i + 1) other there
    rw [expand_cons, List.flatten_cons, moveBody_append]
    by_cases touched : .var v ∈ inst.operands
    · obtain ⟨new, drawn, body⟩ := ih (fun i => tmp (i + 1)) later (t.intern (names.draw t.names).1).2
        (names.draw t.names).2 (VarTable.intern_sound sound _) stem
      have others : ∀ x, x ≠ v → (fun x => if x = v then t.size else tmp 0 x) x = tmp 0 x :=
        fun x other => if_neg other
      have first := moveBody_group_touched absent pointer here offset t names touched others
        ((if_pos rfl).trans (intern_drawn t names).1.symm)
      simp only [first, List.singleton_append]
      refine ⟨prepend t.size new, drawn.cons_touched stem touched, ?_⟩
      rw [body, expand_cons, List.flatten_cons]
      rfl
    · obtain ⟨new, drawn, body⟩ := ih (fun i => tmp (i + 1)) later t names sound stem
      have first := moveBody_group_untouched pointer here ⟨sp, offset⟩ t names touched
      simp only [first, List.nil_append]
      refine ⟨prepend 0 new, drawn.cons_untouched touched, ?_⟩
      have others : ∀ x, x ≠ v → (fun x => if x = v then 0 else tmp 0 x) x = tmp 0 x :=
        fun x other => if_neg other
      have same := group_untouched absent others sp offset touched
      rw [body, expand_cons, List.flatten_cons, ← same]
      rfl

end RegisterAllocation.Spill
