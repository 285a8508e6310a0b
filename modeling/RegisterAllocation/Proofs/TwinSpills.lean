import RegisterAllocation.Proofs.ExpandedFlow
import RegisterAllocation.Proofs.TwinFunctions

namespace RegisterAllocation

open Spill

-- Two functions that differ in the numbers of their variables, in the names of the virtual ones, and in
-- what no instruction refers to. The virtual variables have the same order, and the same of them are
-- marked as spilled.
structure Function.Twins (β : VarId → VarId) (f f' : Function) : Prop where
  name : f'.name = f.name
  args : f'.args = f.args
  locals : f'.locals = f.locals
  body : f'.body = f.body.map (·.rename β)
  register : ∀ x, f.Mentions x → f.table.isRegister x = true → f'.table.nameOf (β x) = f.table.nameOf x
  virtual : ∀ x ∈ f.virtuals, f'.table.isRegister (β x) = false
  order : ∀ x ∈ f.virtuals, ∀ y ∈ f.virtuals, x < y → β x < β y
  spilled : ∀ x ∈ f.virtuals, f'.isSpilled (f'.table.nameOf (β x)) = f.isSpilled (f.table.nameOf x)

variable {rf : RegisterFile} {f f' g g' : Function} {β : VarId → VarId} {x y v w : VarId}

namespace Function.Twins

theorem refl (f : Function) : Twins id f f :=
  ⟨rfl, rfl, rfl, (Instruction.map_rename_id fun _ _ _ _ => rfl).symm, fun _ _ _ => rfl,
    fun _ virtual => (Function.mem_virtuals.mp virtual).2, fun _ _ _ _ before => before, fun _ _ => rfl⟩

variable (valid : f.Valid rf) (valid' : f'.Valid rf) (twins : Twins β f f')

include twins

theorem mem_virtuals (virtual : x ∈ f.virtuals) : β x ∈ f'.virtuals :=
  Function.mem_virtuals.mpr ⟨(Function.mem_virtuals.mp virtual).1.renamed twins.body, twins.virtual x virtual⟩

theorem touches {i : Nat} (touched : Touches f.body v i) : Touches f'.body (β v) i := by
  obtain ⟨inst, here, operand⟩ := touched
  refine ⟨inst.rename β, ?_, ?_⟩
  · rw [twins.body, List.getElem?_map, here]
    rfl
  · rw [Instruction.operands_rename]
    exact Instruction.var_mem_map_rename.mpr ⟨v, operand, rfl⟩

theorem homes_map (vs : List VarId) :
    f'.homes (vs.map β) = (f.homes vs).map fun home => (β home.1, home.2) := by
  refine List.ext_getElem? fun j => ?_
  simp only [Function.homes, List.getElem?_map, List.getElem?_mapIdx, twins.locals]
  cases vs[j]? <;> rfl

include valid valid'

theorem isRegister (mentioned : f.Mentions x) : f'.table.isRegister (β x) = f.table.isRegister x := by
  cases register : f.table.isRegister x with
  | false => exact twins.virtual x (Function.mem_virtuals.mpr ⟨mentioned, register⟩)
  | true =>
    rw [VarTable.isRegister_eq valid'.sound valid'.convention
      (valid'.mentions_lt_size (mentioned.renamed twins.body)), twins.register x mentioned register, ← register]
    exact (VarTable.isRegister_eq valid.sound valid.convention (valid.mentions_lt_size mentioned)).symm

theorem injective (left : f.Mentions x) (right : f.Mentions y) (same : β x = β y) : x = y := by
  have sameKind : f.table.isRegister x = f.table.isRegister y := by
    rw [← twins.isRegister valid valid' left, same, twins.isRegister valid valid' right]
  cases register : f.table.isRegister x with
  | true =>
    refine VarTable.nameOf_inj valid.sound (valid.mentions_lt_size left) (valid.mentions_lt_size right) ?_
    rw [← twins.register x left register, same, twins.register y right (sameKind ▸ register)]
  | false =>
    exact eq_of_order twins.order (Function.mem_virtuals.mpr ⟨left, register⟩)
      (Function.mem_virtuals.mpr ⟨right, sameKind ▸ register⟩) same

theorem reads_iff {inst : Instruction} (member : inst ∈ f.body) (known : f.Mentions v) :
    .var (β v) ∈ (inst.rename β).reads ↔ .var v ∈ inst.reads := by
  rw [Instruction.reads_rename, Instruction.var_mem_map_rename]
  constructor
  · intro h
    obtain ⟨x, reading, same⟩ := h
    have other : f.Mentions x := ⟨inst, member, Instruction.reads_subset_operands inst reading⟩
    rwa [← twins.injective valid valid' other known same]
  · intro reading
    exact ⟨v, reading, rfl⟩

theorem mem_map_iff {vs : List VarId} (originals : ∀ v ∈ vs, v ∈ f.virtuals) (known : f.Mentions x) :
    β x ∈ vs.map β ↔ x ∈ vs := by
  rw [List.mem_map]
  constructor
  · intro h
    obtain ⟨v, member, same⟩ := h
    rwa [← twins.injective valid valid' (Function.mem_virtuals.mp (originals v member)).1 known same]
  · intro member
    exact ⟨x, member, rfl⟩

theorem withTables {t t' : VarTable} (grown : f.table.Extends t) (grown' : f'.table.Extends t') :
    Twins β { f with table := t } { f' with table := t' } := by
  have known : ∀ x, f.Mentions x → x < f.table.size := fun x => valid.mentions_lt_size
  have known' : ∀ x, f.Mentions x → β x < f'.table.size := fun x mentioned =>
    valid'.mentions_lt_size (mentioned.renamed twins.body)
  have virtuals : Function.virtuals { f with table := t } = f.virtuals :=
    Allocation.virtuals_withTable valid grown
  refine ⟨twins.name, twins.args, twins.locals, twins.body, fun x mentioned register => ?_, fun x virtual => ?_,
    ?_, fun x virtual => ?_⟩
  · exact (grown'.nameOf (known' x mentioned)).trans ((twins.register x mentioned
      ((grown.isRegister (known x mentioned)).symm.trans register)).trans (grown.nameOf (known x mentioned)).symm)
  · rw [virtuals] at virtual
    exact (grown'.isRegister (known' x (Function.mem_virtuals.mp virtual).1)).trans (twins.virtual x virtual)
  · rw [virtuals]
    exact twins.order
  · rw [virtuals] at virtual
    have mentioned := (Function.mem_virtuals.mp virtual).1
    have same := twins.spilled x virtual
    rw [← grown.nameOf (known x mentioned), ← grown'.nameOf (known' x mentioned)] at same
    exact same

end Function.Twins

theorem Function.exists_named {r : String} {sp : VarId}
    (pointer : sp < f.table.size ∧ f.table.nameOf sp = rf.sp)
    (registers : ∀ r ∈ rf.registers, r ∈ f.table.names) (register : rf.isRegister r = true) :
    ∃ x, x < f.table.size ∧ f.table.nameOf x = r := by
  rcases RegisterFile.isRegister_iff.mp register with rfl | allocatable
  · exact ⟨sp, pointer⟩
  · exact VarTable.exists_of_mem_names (registers r allocatable)

-- Where the variables of a function go when it and its twin have spilled the same variables: registers go
-- by their names, the variables of the original where they went, and every temporary to the one for the
-- same use.
structure Relocates (β : VarId → VarId) (f g g' : Function) (vs : List VarId) (tmp tmp' : Nat → VarId → VarId)
    (φ : VarId → VarId) : Prop where
  register : ∀ x, g.table.isRegister x = true → φ x < g'.table.size ∧ g'.table.nameOf (φ x) = g.table.nameOf x
  original : ∀ x ∈ f.virtuals, φ x = β x
  temporary : ∀ i, ∀ v ∈ vs, Touches f.body v i → φ (tmp i v) = tmp' i (β v)

section Spilled

variable {sp sp' : VarId} {vs : List VarId} {tmp tmp' : Nat → VarId → VarId} {φ : VarId → VarId} {i : Nat}
  {inst : Instruction} (accepted : rf.Accepted) (valid : f.Valid rf) (valid' : f'.Valid rf)
  (twins : f.Twins β f') (originals : ∀ v ∈ vs, v ∈ f.virtuals)
  (pointer : sp < f.table.size ∧ f.table.nameOf sp = rf.sp)
  (pointer' : sp' < f'.table.size ∧ f'.table.nameOf sp' = rf.sp)
  (expanded : Expanded f sp vs tmp g) (expanded' : Expanded f' sp' (vs.map β) tmp' g')
  (relocates : Relocates β f g g' vs tmp tmp' φ)

namespace Relocates

section

include valid expanded expanded' relocates

include pointer pointer' in
theorem pointer_eq : φ sp = sp' := by
  obtain ⟨known, named⟩ := relocates.register sp (expanded.pointer_isRegister valid pointer)
  refine VarTable.nameOf_inj expanded'.sound known (Nat.lt_of_lt_of_le pointer'.1 expanded'.grown.size_le) ?_
  rw [named, expanded.grown.nameOf pointer.1, expanded'.grown.nameOf pointer'.1, pointer.2, pointer'.2]

include valid' twins in
theorem mentioned_eq (mentioned : f.Mentions x) : φ x = β x := by
  cases register : f.table.isRegister x with
  | false => exact relocates.original x (Function.mem_virtuals.mpr ⟨mentioned, register⟩)
  | true =>
    have inside := valid.mentions_lt_size mentioned
    have inside' := valid'.mentions_lt_size (mentioned.renamed twins.body)
    obtain ⟨known, named⟩ := relocates.register x ((expanded.grown.isRegister inside).trans register)
    refine VarTable.nameOf_inj expanded'.sound known (Nat.lt_of_lt_of_le inside' expanded'.grown.size_le) ?_
    rw [named, expanded.grown.nameOf inside, expanded'.grown.nameOf inside',
      twins.register x mentioned register]

end

section

include valid valid' twins originals pointer pointer' expanded expanded' relocates

theorem loads_map (here : f.body[i]? = some inst) :
    loads sp' (f'.homes (vs.map β)) (tmp' i) (inst.rename β) =
      (loads sp (f.homes vs) (tmp i) inst).map (·.rename φ) := by
  have chosen : readHomes (f'.homes (vs.map β)) (inst.rename β) =
      (readHomes (f.homes vs) inst).map fun home => (β home.1, home.2) := by
    rw [twins.homes_map, readHomes, List.filter_map]
    refine congrArg _ (List.filter_congr fun home member => decide_eq_decide.mpr ?_)
    exact twins.reads_iff valid valid' (List.mem_of_getElem? here)
      (Function.mem_virtuals.mp (originals _ (Function.mem_of_home member))).1
  rw [loads_eq, loads_eq, chosen, List.map_map, List.map_map]
  refine List.map_congr_left fun home member => ?_
  obtain ⟨known, reading⟩ := mem_readHomes.mp member
  have touched : Touches f.body home.1 i := ⟨inst, here, Instruction.reads_subset_operands inst reading⟩
  simp only [Function.comp_apply, Instruction.rename, Instruction.mapOperands, Operand.rename,
    relocates.pointer_eq valid pointer pointer' expanded expanded',
    relocates.temporary i _ (Function.mem_of_home known) touched]

omit pointer pointer' in
theorem main_map (here : f.body[i]? = some inst) :
    (inst.rename β).rename (moved (f'.homes (vs.map β)) (tmp' i)) =
      (inst.rename (moved (f.homes vs) (tmp i))).rename φ := by
  rw [Instruction.rename_rename, Instruction.rename_rename]
  refine Instruction.rename_congr fun x operand => ?_
  have known : f.Mentions x := ⟨inst, List.mem_of_getElem? here, operand⟩
  have listed := twins.mem_map_iff valid valid' originals known
  rw [Function.comp_apply, Function.comp_apply]
  by_cases member : x ∈ vs
  · rw [Function.moved_of_mem (listed.mpr member), Function.moved_of_mem member,
      relocates.temporary i x member ⟨inst, here, operand⟩]
  · rw [Function.moved_of_not_mem (mt listed.mp member), Function.moved_of_not_mem member,
      relocates.mentioned_eq valid valid' twins expanded expanded' known]

theorem stores_map (here : f.body[i]? = some inst) :
    stores sp' (f'.homes (vs.map β)) (tmp' i) (inst.rename β) =
      (stores sp (f.homes vs) (tmp i) inst).map (·.rename φ) := by
  rcases stores_cases sp (f.homes vs) (tmp i) inst with ⟨v, offset, written, found, single⟩ | ⟨plain, none⟩
  · have home := mem_of_lookup found
    have listed := Function.mem_of_home home
    have touched : Touches f.body v i := ⟨inst, here, Instruction.destination?_mem_operands written⟩
    have home' : (β v, offset) ∈ f'.homes (vs.map β) := by
      rw [twins.homes_map]
      exact List.mem_map_of_mem home
    obtain ⟨offset', found'⟩ := Option.isSome_iff_exists.mp
      ((Function.lookup_homes (f := f')).mpr (List.mem_map_of_mem (f := β) listed))
    rw [Function.home_unique expanded'.distinct (mem_of_lookup found') home'] at found'
    rw [single, stores_of_home (Instruction.destination?_rename_var.mpr ⟨v, written, rfl⟩) found']
    simp only [List.map_cons, List.map_nil, Instruction.rename, Instruction.mapOperands, Operand.rename,
      relocates.pointer_eq valid pointer pointer' expanded expanded',
      relocates.temporary i v listed touched]
  · rw [none, List.map_nil]
    refine stores_eq_nil fun y written' => ?_
    obtain ⟨d, written, rfl⟩ := Instruction.destination?_rename_var.mp written'
    have known : f.Mentions d :=
      ⟨inst, List.mem_of_getElem? here, Instruction.destination?_mem_operands written⟩
    apply Function.lookup_homes_none
    rw [twins.mem_map_iff valid valid' originals known, ← Function.lookup_homes (f := f), plain d written]
    simp

theorem group_map (here : f.body[i]? = some inst) :
    group sp' (f'.homes (vs.map β)) (tmp' i) (inst.rename β) =
      (group sp (f.homes vs) (tmp i) inst).map (·.rename φ) := by
  unfold group
  rw [List.map_append, List.map_cons,
    relocates.loads_map valid valid' twins originals pointer pointer' expanded expanded' here,
    relocates.main_map valid valid' twins originals expanded expanded' here,
    relocates.stores_map valid valid' twins originals pointer pointer' expanded expanded' here]

theorem body_map : g'.body = g.body.map (·.rename φ) := by
  rw [expanded.body, expanded'.body, List.map_flatten]
  refine congrArg List.flatten (List.ext_getElem? fun i => ?_)
  rw [expand, expand, twins.body, List.getElem?_mapIdx, List.getElem?_map, List.getElem?_map,
    List.getElem?_mapIdx]
  cases here : f.body[i]? with
  | none => rfl
  | some inst =>
    apply congrArg some
    exact relocates.group_map valid valid' twins originals pointer pointer' expanded expanded' here

include accepted

omit originals pointer' in
theorem order : ∀ x ∈ g.virtuals, ∀ y ∈ g.virtuals, x < y → φ x < φ y := by
  -- Temporaries come after all the rest, and among them they go by the variable and by the place.
  intro x left y right before
  have stays : ∀ {x}, x ∈ f.virtuals → x < f.table.size := fun virtual =>
    valid.mentions_lt_size (Function.mem_virtuals.mp virtual).1
  rcases (expanded.mem_virtuals accepted valid pointer).mp left with ⟨old, -⟩ | ⟨i, v, listed, touched, rfl⟩ <;>
    rcases (expanded.mem_virtuals accepted valid pointer).mp right with
      ⟨old', -⟩ | ⟨j, w, listed', touched', rfl⟩
  · rw [relocates.original x old, relocates.original y old']
    exact twins.order x old y old' before
  · rw [relocates.original x old, relocates.temporary j w listed' touched']
    refine Nat.lt_of_lt_of_le (valid'.mentions_lt_size (Function.mem_virtuals.mp (twins.mem_virtuals old)).1) ?_
    exact (expanded'.fresh j (β w) (List.mem_map_of_mem listed') (twins.touches touched')).1
  · have fresh := (expanded.fresh i v listed touched).1
    exact absurd (stays old') (Nat.not_lt.mpr (Nat.le_of_lt (Nat.lt_of_le_of_lt fresh before)))
  · rw [relocates.temporary i v listed touched, relocates.temporary j w listed' touched']
    obtain ⟨k, place⟩ := List.mem_iff_getElem?.mp listed
    obtain ⟨l, place'⟩ := List.mem_iff_getElem?.mp listed'
    have image : (vs.map β)[k]? = some (β v) := by rw [List.getElem?_map, place]; rfl
    have image' : (vs.map β)[l]? = some (β w) := by rw [List.getElem?_map, place']; rfl
    apply expanded'.ordered k l _ _ image image' i j (twins.touches touched) (twins.touches touched')
    have forth := mt (expanded.ordered l k w v place' place j i touched' touched)
      (Nat.not_lt.mpr (Nat.le_of_lt before))
    by_cases same : k = l ∧ i = j
    · obtain ⟨rfl, rfl⟩ := same
      rw [Option.some.inj (place.symm.trans place')] at before
      exact absurd before (Nat.lt_irrefl _)
    · omega

variable (registers : ∀ r ∈ rf.registers, r ∈ f.table.names)

include registers

theorem renumbers : g.Renumbers φ g' := by
  have stays := expanded.stays_valid valid pointer
  have stays' := expanded'.stays_valid valid' pointer'
  refine ⟨relocates.body_map valid valid' twins originals pointer pointer' expanded expanded',
    fun x register => ?_, fun y register' => ?_, fun x virtual => ?_,
    relocates.order accepted valid valid' twins pointer expanded expanded'⟩
  · obtain ⟨known, named⟩ := relocates.register x register
    refine ⟨?_, named⟩
    rw [VarTable.isRegister_eq stays'.sound stays'.convention known, named,
      ← VarTable.isRegister_eq stays.sound stays.convention (VarTable.lt_size_of_isRegister register)]
    exact register
  · -- The name is known to the first table from the start.
    have known' := VarTable.lt_size_of_isRegister register'
    rw [VarTable.isRegister_eq stays'.sound stays'.convention known'] at register'
    obtain ⟨x, inside, named⟩ := Function.exists_named pointer registers register'
    have register : g.table.isRegister x = true := by
      rw [expanded.grown.isRegister inside, VarTable.isRegister_eq valid.sound valid.convention inside, named]
      exact register'
    obtain ⟨there, same⟩ := relocates.register x register
    refine ⟨x, register, VarTable.nameOf_inj stays'.sound there known' ?_⟩
    rw [same, expanded.grown.nameOf inside, named]
  · rcases (expanded.mem_virtuals accepted valid pointer).mp virtual with
      ⟨old, -⟩ | ⟨i, v, listed, touched, rfl⟩
    · have virtual' := twins.mem_virtuals old
      rw [relocates.original x old, expanded'.grown.isRegister
        (valid'.mentions_lt_size (Function.mem_virtuals.mp virtual').1)]
      exact (Function.mem_virtuals.mp virtual').2
    · rw [relocates.temporary i v listed touched]
      exact expanded'.temp_virtual accepted valid' pointer' (List.mem_map_of_mem listed) (twins.touches touched)

end

end Relocates

include accepted valid pointer pointer' expanded expanded' in
theorem exists_relocates (registers' : ∀ r ∈ rf.registers, r ∈ f'.table.names) :
    ∃ φ, Relocates β f g g' vs tmp tmp' φ := by
  have stays := expanded.stays_valid valid pointer
  -- The three kinds of variables are apart, and each one tells where its variables go.
  suffices place : ∀ x, ∃ y,
      (g.table.isRegister x = true → y < g'.table.size ∧ g'.table.nameOf y = g.table.nameOf x) ∧
      (x ∈ f.virtuals → y = β x) ∧
      ∀ i, ∀ v ∈ vs, Touches f.body v i → x = tmp i v → y = tmp' i (β v) by
    choose φ register original temporary using place
    exact ⟨φ, register, original, fun i v listed touched => temporary _ i v listed touched rfl⟩
  intro x
  by_cases temporary : ∃ i, ∃ v ∈ vs, Touches f.body v i ∧ x = tmp i v
  · obtain ⟨i, v, listed, touched, rfl⟩ := temporary
    refine ⟨tmp' i (β v), fun register => ?_, fun old => ?_, fun j w listed' touched' same => ?_⟩
    · rw [expanded.temp_virtual accepted valid pointer listed touched] at register
      cases register
    · exact absurd rfl (expanded.ne_temp valid old listed touched)
    · obtain ⟨rfl, rfl⟩ := expanded.injective i j v listed w listed' touched touched' same
      rfl
  · have none : ∀ y i, ∀ v ∈ vs, Touches f.body v i → x = tmp i v → y = tmp' i (β v) :=
      fun y i v listed touched same => absurd ⟨i, v, listed, touched, same⟩ temporary
    cases register : g.table.isRegister x with
    | false => exact ⟨β x, fun h => absurd h Bool.false_ne_true, fun _ => rfl, none _⟩
    | true =>
      have inside := VarTable.lt_size_of_isRegister register
      have isRegister := register
      rw [VarTable.isRegister_eq stays.sound stays.convention inside] at isRegister
      obtain ⟨y, inside', named⟩ := Function.exists_named pointer' registers' isRegister
      refine ⟨y, fun _ => ⟨Nat.lt_of_lt_of_le inside' expanded'.grown.size_le, ?_⟩, fun old => ?_, none y⟩
      · rw [expanded'.grown.nameOf inside', named]
      · obtain ⟨mentioned, virtual⟩ := Function.mem_virtuals.mp old
        rw [expanded.grown.isRegister (valid.mentions_lt_size mentioned), virtual] at register
        cases register

end Spilled

end RegisterAllocation
