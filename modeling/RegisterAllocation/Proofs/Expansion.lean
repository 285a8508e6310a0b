import RegisterAllocation.Proofs.Moves

namespace RegisterAllocation

open Spill

def Function.homes (f : Function) (vs : List VarId) : List (VarId × Word) :=
  vs.mapIdx fun j v => (v, (f.locals + Int64.ofNat j) * Word.bytes)

def Function.Mentions (f : Function) (x : VarId) : Prop := ∃ inst ∈ f.body, .var x ∈ inst.operands

-- A function with some variables moved out: every instruction has become its group. All the
-- temporaries are new, and each belongs to one variable in one instruction.
structure Expanded (f : Function) (sp : VarId) (vs : List VarId) (tmp : Nat → VarId → VarId)
    (g : Function) : Prop where
  body : g.body = (expand sp (f.homes vs) tmp f.body).flatten
  grown : f.table.Extends g.table
  sound : g.table.Sound
  locals : g.locals = f.locals + Int64.ofNat vs.length
  name : g.name = f.name
  args : g.args = f.args
  spilled : ∀ name, name ∈ g.spilled ↔ name ∈ f.spilled ∨ name ∈ vs.map f.table.nameOf
  distinct : vs.Nodup
  originals : ∀ v ∈ vs, v < f.table.size ∧ f.table.isRegister v = false
  fresh : ∀ i, ∀ v ∈ vs, Touches f.body v i → f.table.size ≤ tmp i v ∧ tmp i v < g.table.size
  virtual : ∀ i, ∀ v ∈ vs, Touches f.body v i → isVirtualName (g.table.nameOf (tmp i v)) = true
  injective : ∀ i j, ∀ v ∈ vs, ∀ w ∈ vs, Touches f.body v i → Touches f.body w j →
    tmp i v = tmp j w → i = j ∧ v = w
  -- They are numbered variable by variable in the order of the list, and from front to back for each.
  ordered : ∀ (k l : Nat) v w, vs[k]? = some v → vs[l]? = some w → ∀ i j, Touches f.body v i → Touches f.body w j →
    k < l ∨ (k = l ∧ i < j) → tmp i v < tmp j w

namespace Function

variable {f : Function} {vs : List VarId} {v : VarId}

theorem homes_concat (f : Function) (vs : List VarId) (v : VarId) :
    f.homes (vs ++ [v]) = f.homes vs ++ [(v, (f.locals + Int64.ofNat vs.length) * Word.bytes)] :=
  List.mapIdx_concat

theorem map_fst_homes (f : Function) (vs : List VarId) : (f.homes vs).map Prod.fst = vs := by
  refine List.ext_getElem? fun j => ?_
  simp only [homes, List.getElem?_map, List.getElem?_mapIdx, Option.map_map]
  cases vs[j]? <;> rfl

theorem mem_of_home {home : VarId × Word} (member : home ∈ f.homes vs) : home.1 ∈ vs :=
  map_fst_homes f vs ▸ List.mem_map_of_mem member

theorem exists_home (listed : v ∈ vs) : ∃ offset, (v, offset) ∈ f.homes vs := by
  rw [← map_fst_homes f vs, List.mem_map] at listed
  obtain ⟨⟨_, offset⟩, member, rfl⟩ := listed
  exact ⟨offset, member⟩

theorem lookup_homes : ((f.homes vs).lookup v).isSome ↔ v ∈ vs := by
  rw [lookup_isSome, map_fst_homes]

theorem lookup_homes_none (absent : v ∉ vs) : (f.homes vs).lookup v = none := by
  rw [← Option.not_isSome_iff_eq_none, lookup_homes]
  exact absent

theorem moved_of_mem (listed : v ∈ vs) (tmp : VarId → VarId) : moved (f.homes vs) tmp v = tmp v :=
  if_pos (lookup_homes.mpr listed)

theorem moved_of_not_mem (absent : v ∉ vs) (tmp : VarId → VarId) : moved (f.homes vs) tmp v = v :=
  if_neg (mt lookup_homes.mp absent)

theorem mem_homes {offset : Word} :
    (v, offset) ∈ f.homes vs ↔ ∃ j, vs[j]? = some v ∧ offset = (f.locals + Int64.ofNat j) * Word.bytes := by
  simp only [homes, List.mem_mapIdx, Prod.mk.injEq]
  constructor
  · intro h
    obtain ⟨j, bound, rfl, rfl⟩ := h
    exact ⟨j, List.getElem?_eq_getElem bound, rfl⟩
  · intro h
    obtain ⟨j, found, rfl⟩ := h
    obtain ⟨bound, rfl⟩ := List.getElem?_eq_some_iff.mp found
    exact ⟨j, bound, rfl, rfl⟩

theorem home_unique {offset offset' : Word} (distinct : vs.Nodup) (left : (v, offset) ∈ f.homes vs)
    (right : (v, offset') ∈ f.homes vs) : offset = offset' := by
  obtain ⟨j, listed, rfl⟩ := mem_homes.mp left
  obtain ⟨k, listed', rfl⟩ := mem_homes.mp right
  have inside := (List.getElem?_eq_some_iff.mp listed).1
  rw [(List.getElem?_inj inside distinct).mp (listed.trans listed'.symm)]

end Function

theorem Word.aligned_mul_bytes (w : Word) : Validation.aligned (w * Word.bytes) = [] := by
  -- Eight divides every power of two from its own on, so it also divides a product that wraps around.
  have divides : (8 : Int) ∣ (w * Word.bytes).toInt := by
    rw [Int64.toInt_mul]
    have eight : Word.bytes.toInt = 8 := rfl
    rw [eight, Int.bmod_def]
    split <;> omega
  rw [Validation.aligned, if_pos]
  rw [← Int64.toInt_inj, Int64.toInt_mod]
  have eight : Word.bytes.toInt = 8 := rfl
  rw [eight]
  exact Int.tmod_eq_zero_of_dvd divides

namespace Spill

variable {sp : VarId} {homes : List (VarId × Word)} {tmp : Nat → VarId → VarId} {body : List Instruction}
  {inst other : Instruction} {i : Nat}

theorem mem_expand : other ∈ (expand sp homes tmp body).flatten ↔
    ∃ i inst, body[i]? = some inst ∧ other ∈ group sp homes (tmp i) inst := by
  rw [List.mem_flatten]
  constructor
  · intro h
    obtain ⟨grp, member, inside⟩ := h
    obtain ⟨i, bound, rfl⟩ := List.mem_mapIdx.mp member
    exact ⟨i, body[i], List.getElem?_eq_getElem bound, inside⟩
  · intro h
    obtain ⟨i, inst, here, inside⟩ := h
    obtain ⟨bound, rfl⟩ := List.getElem?_eq_some_iff.mp here
    exact ⟨_, List.mem_mapIdx.mpr ⟨i, bound, rfl⟩, inside⟩

theorem expand_getElem? (here : body[i]? = some inst) :
    (expand sp homes tmp body)[i]? = some (group sp homes (tmp i) inst) := by
  simp [expand, here]

theorem mem_loads {tmp : VarId → VarId} : other ∈ loads sp homes tmp inst ↔
    ∃ v offset, (v, offset) ∈ homes ∧ .var v ∈ inst.reads ∧
      other = .load (.var (tmp v)) (.var sp) offset := by
  simp only [loads, List.mem_map, List.mem_filter, decide_eq_true_eq, Prod.exists]
  constructor
  · intro h
    obtain ⟨v, offset, ⟨known, reading⟩, rfl⟩ := h
    exact ⟨v, offset, known, reading, rfl⟩
  · intro h
    obtain ⟨v, offset, known, reading, rfl⟩ := h
    exact ⟨v, offset, ⟨known, reading⟩, rfl⟩

theorem mem_stores {tmp : VarId → VarId} (store : other ∈ stores sp homes tmp inst) :
    ∃ v offset, homes.lookup v = some offset ∧ inst.destination? = some (.var v) ∧
      other = .store (.var sp) offset (.var (tmp v)) := by
  unfold stores at store
  split at store
  · rename_i d found
    rw [Option.mem_toList, Option.map_eq_some_iff] at store
    obtain ⟨offset, known, rfl⟩ := store
    exact ⟨d, offset, known, found, rfl⟩
  · cases store

theorem mem_of_lookup {x : VarId} {offset : Word} (found : homes.lookup x = some offset) :
    (x, offset) ∈ homes := by
  obtain ⟨before, after, rfl, -⟩ := List.lookup_eq_some_iff.mp found
  exact List.mem_append_right _ List.mem_cons_self

theorem filterMap_group {α : Type} {k : Instruction → Option α}
    (load : ∀ dst base offset, k (.load dst base offset) = none)
    (store : ∀ base offset src, k (.store base offset src) = none) (tmp : VarId → VarId) :
    (group sp homes tmp inst).filterMap k = (k (inst.rename (moved homes tmp))).toList := by
  have loadNone : (loads sp homes tmp inst).filterMap k = [] := by
    refine List.filterMap_eq_nil_iff.mpr fun other member => ?_
    obtain ⟨v, offset, -, -, rfl⟩ := mem_loads.mp member
    exact load _ _ _
  have storeNone : (stores sp homes tmp inst).filterMap k = [] := by
    refine List.filterMap_eq_nil_iff.mpr fun other member => ?_
    obtain ⟨v, offset, -, -, rfl⟩ := mem_stores member
    exact store _ _ _
  rw [group, List.filterMap_append, List.filterMap_cons, loadNone, storeNone, List.nil_append]
  cases k (inst.rename (moved homes tmp)) <;> rfl

theorem labels_group (tmp : VarId → VarId) :
    Flow.labels (group sp homes tmp inst) = inst.label?.toList := by
  rw [Flow.labels, filterMap_group (fun _ _ _ => rfl) (fun _ _ _ => rfl), Instruction.label?_rename]

theorem labels_expand : Flow.labels (expand sp homes tmp body).flatten = Flow.labels body := by
  induction body generalizing tmp with
  | nil => rfl
  | cons inst rest ih =>
    rw [expand_cons, List.flatten_cons, Flow.labels, List.filterMap_append, ← Flow.labels, ← Flow.labels,
      labels_group, ih, Flow.labels_cons]

end Spill

namespace Expanded

variable {rf : RegisterFile} {f g : Function} {sp v : VarId} {vs : List VarId}
  {tmp : Nat → VarId → VarId}

theorem refl (f : Function) (sp : VarId) (tmp : Nat → VarId → VarId) (sound : f.table.Sound) :
    Expanded f sp [] tmp f := by
  refine ⟨?_, .refl _, sound, by simp, rfl, rfl, by simp, List.nodup_nil, by simp, by simp, by simp, by simp,
    by simp⟩
  have single : expand sp (f.homes []) tmp f.body = f.body.map fun inst => [inst] := by
    simp only [expand, Function.homes, List.mapIdx_nil, group_nil]
    refine List.ext_getElem? fun i => ?_
    simp
  rw [single]
  simp [← List.flatMap_def]

theorem withTable {t : VarTable} (expanded : Expanded f sp vs tmp g) (grown : g.table.Extends t)
    (sound : t.Sound) : Expanded f sp vs tmp { g with table := t } := by
  refine ⟨expanded.body, expanded.grown.trans grown, sound, expanded.locals, expanded.name, expanded.args,
    expanded.spilled, expanded.distinct, expanded.originals, fun i v member touched => ?_,
    fun i v member touched => ?_, expanded.injective, expanded.ordered⟩
  · have fresh := expanded.fresh i v member touched
    exact ⟨fresh.1, Nat.lt_of_lt_of_le fresh.2 grown.size_le⟩
  · rw [grown.nameOf (expanded.fresh i v member touched).2]
    exact expanded.virtual i v member touched

variable (valid : f.Valid rf) (pointer : sp < f.table.size ∧ f.table.nameOf sp = rf.sp)
  (expanded : Expanded f sp vs tmp g)

include valid expanded

theorem spelling_moved {i : Nat} {inst : Instruction} (here : f.body[i]? = some inst) {x : VarId}
    (operand : .var x ∈ inst.operands) :
    Validation.spelling g.table (.var (moved (f.homes vs) (tmp i) x)) = [] := by
  unfold moved
  split
  · rename_i known
    have spelled := expanded.virtual i x (Function.lookup_homes.mp known) ⟨inst, here, operand⟩
    exact Validation.spelling_var.mpr (.inr spelled)
  · have spelled := Validation.operands_spelled
      (valid.instructions inst (List.mem_of_getElem? here)) _ operand
    have known := Validation.lt_size_of_spelling spelled
    rw [Validation.spelling_var] at spelled ⊢
    rwa [expanded.grown.isRegister known, expanded.grown.nameOf known]

include pointer

theorem pointer_isRegister : g.table.isRegister sp = true :=
  (expanded.grown.isRegister pointer.1).trans (valid.pointer_isRegister pointer)

theorem ne_pointer {x : VarId} (virtual : g.table.isRegister x = false) : x ≠ sp := by
  intro same
  rw [same, pointer_isRegister valid pointer expanded] at virtual
  cases virtual

theorem spelling_sp : Validation.spelling g.table (.var sp) = [] :=
  Validation.spelling_var.mpr (.inl (pointer_isRegister valid pointer expanded))

theorem stays_valid : g.Valid rf := by
  refine ⟨expanded.grown.convention.trans valid.convention, expanded.sound, fun other member => ?_, ?_,
    fun other member target branch => ?_⟩
  · rw [expanded.body, mem_expand] at member
    obtain ⟨i, inst, here, member⟩ := member
    rw [group, List.mem_append, List.mem_cons] at member
    rcases member with load | rfl | store
    · obtain ⟨x, offset, home, reading, rfl⟩ := mem_loads.mp load
      obtain ⟨j, listed, rfl⟩ := Function.mem_homes.mp home
      have operand := Instruction.reads_subset_operands inst reading
      have spelled := expanded.virtual i x (List.mem_of_getElem? listed) ⟨inst, here, operand⟩
      simp [Validation.instruction, Validation.variableFlaws_eq_nil_iff, Operand.isVar,
        Validation.spelling_var.mpr (.inr spelled), spelling_sp valid pointer expanded,
        Word.aligned_mul_bytes]
    · exact Validation.instruction_rename (valid.instructions inst (List.mem_of_getElem? here))
        fun x operand => spelling_moved valid expanded here operand
    · obtain ⟨x, offset, found, destination, rfl⟩ := mem_stores store
      obtain ⟨j, listed, rfl⟩ := Function.mem_homes.mp (mem_of_lookup found)
      have operand := Instruction.destination?_mem_operands destination
      have spelled := expanded.virtual i x (List.mem_of_getElem? listed) ⟨inst, here, operand⟩
      simp [Validation.instruction, Validation.variableFlaws_eq_nil_iff, Operand.isVar,
        Validation.spelling_var.mpr (.inr spelled), spelling_sp valid pointer expanded,
        Word.aligned_mul_bytes]
  · rw [expanded.body, labels_expand]
    exact valid.labels
  · rw [expanded.body, mem_expand] at member
    obtain ⟨i, inst, here, member⟩ := member
    rw [group, List.mem_append, List.mem_cons] at member
    rcases member with load | rfl | store
    · obtain ⟨x, offset, -, -, rfl⟩ := mem_loads.mp load
      cases branch
    · rw [Instruction.target?_rename] at branch
      have defined := valid.targets inst (List.mem_of_getElem? here) target branch
      rw [← Flow.mem_labels, expanded.body, labels_expand]
      exact Flow.mem_labels.mpr defined
    · obtain ⟨x, offset, -, -, rfl⟩ := mem_stores store
      cases branch

omit valid pointer expanded

theorem spill_moves {s : Sheet} (names : NameSequence) (accepted : rf.Accepted) (valid : s.function.Valid rf)
    (noted : s.notes.length = s.function.body.length) (known : v < s.function.table.size)
    (virtual : s.function.table.isRegister v = false)
    (unspilled : s.function.isSpilled (s.function.table.nameOf v) = false) :
    ∃ t sp, s.function.table.Extends t ∧ t.Sound ∧ t.id? rf.sp = some sp ∧
      { s.function with table := t } = s.function.resolved ∧
      let r := moveBody v ⟨sp, s.function.slotOffset⟩ t names s.function.body
      (s.spill v names).2 = (r.names, .ok
        { function := { s.function with
            body := r.body
            table := r.table
            locals := s.function.locals + 1
            spilled := s.function.spilled.insert (s.function.table.nameOf v) }
          temps := r.temps }) := by
  obtain ⟨sets, t, resolved, grown, sound, pointer, count, described⟩ :=
    Sheet.resolve_describes accepted valid noted
  have present : v < s.function.table.vars.length := known
  have got : s.function.table.get v = .ok s.function.table.vars[v] := by
    simp only [VarTable.get, List.getElem?_eq_getElem present]
  have named : s.function.table.vars[v].name = s.function.table.nameOf v := by
    simp [VarTable.nameOf, List.getElem?_eq_getElem present]
  have plain : s.function.table.vars[v].isRegister = false := by
    simpa [VarTable.isRegister, List.getElem?_eq_getElem present] using virtual
  have checked : check s.function s.function.table.vars[v] = .ok rf.sp := by
    simp [check, plain, named, unspilled, Function.convention, valid.convention, accepted.sp_named]
  have shown : List.Forall₂ (Shown v) s.function.body sets := by
    refine described.imp fun inst set all => ?_
    refine shown_of_describes accepted (Nat.lt_of_lt_of_le known grown.size_le) ?_ sound
      (grown.convention.trans valid.convention) all
    rw [grown.isRegister known, virtual]
  obtain ⟨sp, spKnown, spName⟩ := VarTable.exists_of_mem_names pointer
  have found : t.id? rf.sp = some sp := (VarTable.id?_eq_some_iff sound).mpr ⟨spKnown, spName⟩
  have same : { s.function with table := t } = s.function.resolved :=
    (congrArg (·.1.function) resolved).symm
  refine ⟨t, sp, grown, sound, found, same, ?_⟩
  have written : (s.notes.zipWith (fun note set => { note with toUseDef := set }) sets).map Note.toUseDef =
      sets := by
    exact List.ext_getElem (by simp [count]) (by simp)
  have interned : t.intern rf.sp = (sp, t) := VarTable.intern_known found
  simp only [Sheet.spill, got, checked, resolved, Spill.move, Function.derive, Function.allocSlot,
    Function.intern, Sheet.withTable, interned, written, named, Int.toNat_natCast, moveOut_eq shown]
  rfl

theorem extend {t : VarTable} {names : NameSequence} {r : Moved} {new : Nat → VarId}
    (expanded : Expanded f sp vs tmp g) (grown : g.table.Extends t) (drawn : Drawn f.body v t names r new)
    (newHome : v ∉ vs) (known : v < f.table.size) (virtual : f.table.isRegister v = false)
    (body : r.body = (expand sp (f.homes (vs ++ [v]))
      (fun i x => if x = v then new i else tmp i x) f.body).flatten) :
    Expanded f sp (vs ++ [v]) (fun i x => if x = v then new i else tmp i x)
      { g with
        body := r.body
        table := r.table
        locals := g.locals + 1
        spilled := g.spilled.insert (g.table.nameOf v) } := by
  have later := grown.trans drawn.grown
  have old : ∀ x ∈ vs, x ≠ v := by
    intro x member same
    subst same
    exact newHome member
  have split : ∀ x ∈ vs ++ [v], x ∈ vs ∨ x = v := by simp
  -- A temporary of before is below all those that are drawn now.
  have below : ∀ i, ∀ x ∈ vs, Touches f.body x i → ∀ j, Touches f.body v j → tmp i x < new j := by
    intro i x member touched j there
    refine Nat.lt_of_lt_of_le (expanded.fresh i x member touched).2 ?_
    exact Nat.le_trans grown.size_le (drawn.fresh j there).1
  refine ⟨body, expanded.grown.trans later, drawn.sound, ?_, expanded.name, expanded.args, fun name => ?_, ?_,
    fun x member => ?_, fun i x member touched => ?_, fun i x member touched => ?_,
    fun i j x left y right touched there same => ?_, fun k l x y left right i j touched there before => ?_⟩
  · rw [expanded.locals, List.length_append, List.length_singleton, Int64.ofNat_add, Int64.add_assoc]
    rfl
  · rw [Std.ExtTreeSet.mem_insert, Std.LawfulEqOrd.compare_eq_iff_eq, expanded.grown.nameOf known,
      expanded.spilled, List.map_append, List.mem_append, @eq_comm _ _ name]
    simp only [List.map_cons, List.map_nil, List.mem_singleton]
    tauto
  · rw [List.nodup_append]
    exact ⟨expanded.distinct, List.nodup_singleton v, fun x left y right => by
      rw [List.mem_singleton.mp right]
      exact old x left⟩
  · rcases split x member with member | rfl
    · exact expanded.originals x member
    · exact ⟨known, virtual⟩
  · rcases split x member with member | rfl
    · have fresh := expanded.fresh i x member touched
      simp only [if_neg (old x member)]
      exact ⟨fresh.1, Nat.lt_of_lt_of_le fresh.2 later.size_le⟩
    · have fresh := drawn.fresh i touched
      simp only [if_true]
      exact ⟨Nat.le_trans (expanded.grown.trans grown).size_le fresh.1, fresh.2⟩
  · rcases split x member with member | rfl
    · simp only [if_neg (old x member)]
      rw [later.nameOf (expanded.fresh i x member touched).2]
      exact expanded.virtual i x member touched
    · simp only [if_true]
      exact drawn.virtual _ (drawn.listed i touched)
  · rcases split x left with first | rfl <;> rcases split y right with second | rfl
    · simp only [if_neg (old x first), if_neg (old y second)] at same
      exact expanded.injective i j x first y second touched there same
    · simp only [if_neg (old x first), if_true] at same
      exact absurd same (Nat.ne_of_lt (below i x first touched j there))
    · simp only [if_neg (old y second), if_true] at same
      exact absurd same.symm (Nat.ne_of_lt (below j y second there i touched))
    · simp only [if_true] at same
      refine ⟨?_, rfl⟩
      rcases Nat.lt_trichotomy i j with before | equal | after
      · exact absurd same (Nat.ne_of_lt (drawn.order i j touched there before))
      · exact equal
      · exact absurd same.symm (Nat.ne_of_lt (drawn.order j i there touched after))
  · -- The variable that comes last is the one that its temporaries are drawn for now.
    have place : ∀ {k : Nat} {x : VarId}, (vs ++ [v])[k]? = some x →
        (vs[k]? = some x ∧ k < vs.length) ∨ (k = vs.length ∧ x = v) := by
      intro k x found
      rw [List.getElem?_append] at found
      split at found
      · exact .inl ⟨found, ‹_›⟩
      · obtain ⟨inside, rfl⟩ := List.getElem?_eq_some_iff.mp found
        rw [List.length_singleton] at inside
        exact .inr ⟨by omega, by simp⟩
    rcases place left with ⟨first, early⟩ | ⟨rfl, rfl⟩ <;> rcases place right with ⟨second, soon⟩ | ⟨rfl, rfl⟩
    · simp only [if_neg (old x (List.mem_of_getElem? first)), if_neg (old y (List.mem_of_getElem? second))]
      exact expanded.ordered k l x y first second i j touched there before
    · simp only [if_neg (old x (List.mem_of_getElem? first)), if_true]
      exact below i x (List.mem_of_getElem? first) touched j there
    · omega
    · simp only [if_true]
      exact drawn.order i j touched there (by omega)

theorem spill {s : Sheet} {names : NameSequence} (accepted : rf.Accepted) (valid : f.Valid rf)
    (pointer : sp < f.table.size ∧ f.table.nameOf sp = rf.sp) (expanded : Expanded f sp vs tmp s.function)
    (noted : s.notes.length = s.function.body.length) (stem : isVirtualName names.stem = true)
    (known : v < f.table.size) (virtual : f.table.isRegister v = false)
    (unspilled : s.function.isSpilled (f.table.nameOf v) = false) :
    ∃ names' spilled tmp', (s.spill v names).2 = (names', .ok spilled) ∧ names'.stem = names.stem ∧
      Expanded f sp (vs ++ [v]) tmp' spilled.function ∧ (∀ i, ∀ x ∈ vs, tmp' i x = tmp i x) ∧
      (∀ name ∈ spilled.temps, name ∈ spilled.function.table.names) ∧
      ∀ x, x ∈ spilled.temps.filterMap spilled.function.table.id? ↔
        ∃ i, Touches f.body v i ∧ x = tmp' i v := by
  have knownNow : v < s.function.table.size := Nat.lt_of_lt_of_le known expanded.grown.size_le
  have newHome : v ∉ vs := by
    intro member
    have marked := (expanded.spilled (f.table.nameOf v)).mpr (.inr (List.mem_map_of_mem member))
    rw [Function.isSpilled, Std.ExtTreeSet.contains_iff_mem.mpr marked] at unspilled
    cases unspilled
  obtain ⟨t, sp', grown, sound, found, -, moves⟩ := spill_moves names accepted
    (stays_valid valid pointer expanded) noted knownNow
    (by rw [expanded.grown.isRegister known, virtual]) (by rw [expanded.grown.nameOf known, unspilled])
  -- The stack pointer has had its number from the start.
  have samePointer : sp' = sp := by
    obtain ⟨known', named'⟩ := (VarTable.id?_eq_some_iff sound).mp found
    have all := expanded.grown.trans grown
    exact VarTable.nameOf_inj sound known' (Nat.lt_of_lt_of_le pointer.1 all.size_le)
      (by rw [named', all.nameOf pointer.1, pointer.2])
  subst samePointer
  have pointerApart : sp' ≠ v := by
    intro same
    rw [← same, valid.pointer_isRegister pointer] at virtual
    cases virtual
  have apart : ∀ i inst, f.body[i]? = some inst → ∀ x, .var x ∈ inst.operands →
      ((f.homes vs).lookup x).isSome → tmp i x ≠ v := by
    intro i inst here x operand member
    have fresh := expanded.fresh i x (Function.lookup_homes.mp member) ⟨inst, here, operand⟩
    exact Nat.ne_of_gt (Nat.lt_of_lt_of_le known fresh.1)
  obtain ⟨new, drawn, body⟩ := moveBody_expand s.function.slotOffset
    (Function.lookup_homes_none (f := f) newHome) pointerApart f.body tmp apart t names sound stem
  rw [← expanded.body] at drawn body
  rw [Function.slotOffset, expanded.locals, ← Function.homes_concat, ← expanded.locals,
    ← Function.slotOffset] at body
  refine ⟨_, _, fun i x => if x = v then new i else tmp i x, moves, drawn.stem,
    extend expanded grown drawn newHome known virtual body, fun i x member => ?_, fun name member => ?_,
    fun x => ?_⟩
  · exact if_neg fun same => newHome (by rwa [← same])
  · obtain ⟨i, touched, rfl⟩ := drawn.temps name member
    exact VarTable.nameOf_mem_names (drawn.fresh i touched).2
  · simp only [if_true]
    exact drawn.mem_temps

theorem spill_first {s : Sheet} {names : NameSequence} (accepted : rf.Accepted) (valid : s.function.Valid rf)
    (noted : s.notes.length = s.function.body.length) (stem : isVirtualName names.stem = true)
    (known : v < s.function.table.size) (virtual : s.function.table.isRegister v = false)
    (unspilled : s.function.isSpilled (s.function.table.nameOf v) = false) :
    ∃ names' spilled sp tmp, (s.spill v names).2 = (names', .ok spilled) ∧
      (sp < s.function.resolved.table.size ∧ s.function.resolved.table.nameOf sp = rf.sp) ∧
      Expanded s.function.resolved sp [v] tmp spilled.function ∧
      spilled.function.table.names = s.function.resolved.table.names ++ spilled.temps ∧
      ∀ name, name ∈ spilled.temps ↔
        ∃ i, Touches s.function.body v i ∧ spilled.function.table.nameOf (tmp i v) = name := by
  obtain ⟨t, sp, grown, sound, found, same, moves⟩ :=
    spill_moves names accepted valid noted known virtual unspilled
  obtain ⟨spKnown, spName⟩ := (VarTable.id?_eq_some_iff sound).mp found
  have pointerApart : sp ≠ v := by
    intro equal
    have register := (valid.withTable grown sound).pointer_isRegister ⟨spKnown, spName⟩
    rw [equal, grown.isRegister known, virtual] at register
    cases register
  obtain ⟨new, drawn, body⟩ : ∃ new, Drawn s.function.body v t names
        (moveBody v ⟨sp, s.function.slotOffset⟩ t names
          (expand sp (s.function.homes []) (fun _ x => x) s.function.body).flatten) new ∧ _ :=
    moveBody_expand s.function.slotOffset rfl pointerApart s.function.body (fun _ x => x)
      (fun i inst here x operand home => by cases home) t names sound stem
  have unchanged := refl { s.function with table := t } sp (fun _ x => x) sound
  have flat : (expand sp (s.function.homes []) (fun _ x => x) s.function.body).flatten = s.function.body :=
    unchanged.body.symm
  rw [flat] at drawn body
  have offset : s.function.homes [] ++ [(v, s.function.slotOffset)] = s.function.homes ([] ++ [v]) := by
    rw [Function.homes_concat]
    simp [Function.slotOffset]
  rw [offset] at body
  have expanded := unchanged.extend (.refl t) drawn (List.not_mem_nil) (Nat.lt_of_lt_of_le known grown.size_le)
    ((grown.isRegister known).trans virtual) body
  simp only [grown.nameOf known] at expanded
  rw [← same]
  refine ⟨_, _, sp, _, moves, ⟨spKnown, spName⟩, expanded, names_moveBody .., fun name => ?_⟩
  simp only [if_true]
  constructor
  · exact drawn.temps name
  · intro h
    obtain ⟨i, touched, rfl⟩ := h
    exact drawn.listed i touched

theorem mem_expanded (expanded : Expanded f sp vs tmp g) {other : Instruction} :
    other ∈ g.body ↔ ∃ i inst, f.body[i]? = some inst ∧ other ∈ group sp (f.homes vs) (tmp i) inst := by
  rw [expanded.body, mem_expand]

theorem mentions_moved (expanded : Expanded f sp vs tmp g) {i : Nat} {inst : Instruction} {x : VarId}
    (here : f.body[i]? = some inst) (operand : .var x ∈ inst.operands) :
    g.Mentions (moved (f.homes vs) (tmp i) x) := by
  refine ⟨inst.rename (moved (f.homes vs) (tmp i)), expanded.mem_expanded.mpr ⟨i, inst, here, ?_⟩, ?_⟩
  · simp [group]
  · rw [Instruction.operands_rename, Instruction.var_mem_map_rename]
    exact ⟨x, operand, rfl⟩

theorem mentions_iff (expanded : Expanded f sp vs tmp g) {x : VarId} (apart : x ≠ sp) :
    g.Mentions x ↔ (f.Mentions x ∧ x ∉ vs) ∨ ∃ i, ∃ v ∈ vs, Touches f.body v i ∧ x = tmp i v := by
  constructor
  · intro h
    obtain ⟨other, member, operand⟩ := h
    obtain ⟨i, inst, here, member⟩ := expanded.mem_expanded.mp member
    rw [group, List.mem_append, List.mem_cons] at member
    rcases member with load | rfl | store
    · obtain ⟨v, offset, home, reading, rfl⟩ := mem_loads.mp load
      obtain ⟨j, listed, -⟩ := Function.mem_homes.mp home
      simp only [Instruction.operands, List.mem_cons, Operand.var.injEq, List.not_mem_nil, or_false,
        apart] at operand
      exact .inr ⟨i, v, List.mem_of_getElem? listed,
        ⟨inst, here, Instruction.reads_subset_operands inst reading⟩, operand⟩
    · rw [Instruction.operands_rename, Instruction.var_mem_map_rename] at operand
      obtain ⟨y, operand, rfl⟩ := operand
      unfold moved
      split
      · rename_i home
        exact .inr ⟨i, y, Function.lookup_homes.mp home, ⟨inst, here, operand⟩, rfl⟩
      · rename_i home
        rw [Function.lookup_homes] at home
        exact .inl ⟨⟨inst, List.mem_of_getElem? here, operand⟩, home⟩
    · obtain ⟨v, offset, home, destination, rfl⟩ := mem_stores store
      simp only [Instruction.operands, List.mem_cons, Operand.var.injEq, List.not_mem_nil, or_false,
        apart, false_or] at operand
      exact .inr ⟨i, v, Function.lookup_homes.mp (by rw [home]; rfl),
        ⟨inst, here, Instruction.destination?_mem_operands destination⟩, operand⟩
  · -- Both kinds stand in the instruction that its group is built around.
    intro either
    rcases either with ⟨⟨inst, member, operand⟩, left⟩ | ⟨i, v, home, ⟨inst, here, operand⟩, rfl⟩
    · obtain ⟨i, here⟩ := List.mem_iff_getElem?.mp member
      exact Function.moved_of_not_mem left (tmp i) ▸ expanded.mentions_moved here operand
    · exact Function.moved_of_mem home (tmp i) ▸ expanded.mentions_moved here operand

-- The temporaries are no registers: their names are spelled otherwise, and the stack pointer has a
-- number of its own.
theorem temp_virtual (accepted : rf.Accepted) (valid : f.Valid rf)
    (pointer : sp < f.table.size ∧ f.table.nameOf sp = rf.sp) (expanded : Expanded f sp vs tmp g) {i : Nat}
    (member : v ∈ vs) (touched : Touches f.body v i) : g.table.isRegister (tmp i v) = false := by
  obtain ⟨new, known⟩ := expanded.fresh i v member touched
  have spelled := expanded.virtual i v member touched
  rw [VarTable.isRegister_eq expanded.sound (expanded.grown.convention.trans valid.convention) known,
    Bool.eq_false_iff, ne_eq, RegisterFile.isRegister_iff]
  intro either
  rcases either with isPointer | register
  · have spKnown := Nat.lt_of_lt_of_le pointer.1 expanded.grown.size_le
    have same := VarTable.nameOf_inj expanded.sound known spKnown
      (by rw [isPointer, expanded.grown.nameOf pointer.1, pointer.2])
    exact absurd pointer.1 (Nat.not_lt.mpr (same ▸ new))
  · rw [accepted.not_virtual register] at spelled
    cases spelled

end Expanded

end RegisterAllocation
