import RegisterAllocation.Proofs.ExpandedLiveness
import RegisterAllocation.Proofs.Machine

namespace RegisterAllocation

open Spill Machine

namespace Function

def slots (f : Function) (pointer : Word) (count : Nat) : List Word :=
  (List.range count).map fun j => pointer + (f.locals + Int64.ofNat j) * Word.bytes

variable {f : Function} {vs : List VarId} {v w : VarId} {offset offset' P : Word}

theorem slot_mem (home : (v, offset) ∈ f.homes vs) : P + offset ∈ f.slots P vs.length := by
  obtain ⟨j, listed, rfl⟩ := mem_homes.mp home
  exact List.mem_map.mpr ⟨j, List.mem_range.mpr (List.getElem?_eq_some_iff.mp listed).1, rfl⟩

theorem slot_inj (fits : vs.length ≤ 2 ^ 61) (left : (v, offset) ∈ f.homes vs)
    (right : (w, offset') ∈ f.homes vs) (same : P + offset = P + offset') : v = w := by
  obtain ⟨j, listed, rfl⟩ := mem_homes.mp left
  obtain ⟨k, listed', rfl⟩ := mem_homes.mp right
  have jBound := (List.getElem?_eq_some_iff.mp listed).1
  have kBound := (List.getElem?_eq_some_iff.mp listed').1
  have scaled : Int64.ofNat j * 8 = Int64.ofNat k * 8 := by
    rw [Word.bytes] at same
    grind
  have equal : j = k := by
    have bits := congrArg (fun w : Int64 => w.toBitVec.toNat) scaled
    simp at bits
    omega
  subst equal
  exact Option.some.inj (listed.symm.trans listed')

end Function

-- A choice of the variables that matter at every point of a run: those that the next instruction reads,
-- and those that matter after it unless it writes them.
structure Function.Sustains (rf : RegisterFile) (f : Function) (live : Status → VarId → Prop) : Prop where
  used : ∀ i inst x, f.body[i]? = some inst → inst.Uses rf f.table x → live (.running i) x
  kept : ∀ i inst x, f.body[i]? = some inst → ¬inst.Defines rf f.table x →
    ∀ (W : World) memory v, live ((inst.action W memory v).status (f.jump i)) x → live (.running i) x
  ranOut : ∀ i x, f.body[i]? = none → live (.ended .ranOut) x → live (.running i) x

def Liveness.At (lv : Liveness) (status : Status) (x : VarId) : Prop :=
  ∃ i, status = .running i ∧ x ∈ lv.liveIn i

theorem Sheet.Analyzed.sustains {rf : RegisterFile} {s : Sheet} {lv : Liveness} (analyzed : s.Analyzed rf lv) :
    s.function.Sustains rf lv.At := by
  refine ⟨fun i inst x here used => ⟨i, rfl, analyzed.live_of_uses here used⟩,
    fun i inst x here kept W memory v live => ?_, fun i x none live => ?_⟩
  · obtain ⟨j, goes, live⟩ := live
    unfold Action.status at goes
    split at goes
    · rename_i target follows
      cases goes
      exact ⟨i, rfl, analyzed.live_of_kept here (analyzed.live_of_follows here follows live) kept⟩
    · cases goes
  · obtain ⟨j, goes, -⟩ := live
    cases goes

namespace Expanded

-- A state of the original and one of the expanded function between two groups: what was moved out is
-- in its slot while it matters, and all else is where it was.
structure Backed (rf : RegisterFile) (f : Function) (sp : VarId) (vs : List VarId)
    (tmp : Nat → VarId → VarId) (live : Status → VarId → Prop) (P : Word) (m m' : State) : Prop where
  status : m'.status = m.status.map (place f sp vs tmp)
  memory : ∀ a ∉ f.slots P vs.length, m'.memory a = m.memory a
  calls : m'.calls = m.calls
  pointer : m.vars rf.sp = P
  vars : ∀ x < f.table.size, x ∉ vs → m'.vars (f.table.nameOf x) = m.vars (f.table.nameOf x)
  slot : ∀ home ∈ f.homes vs, live m.status home.1 →
    m'.memory (P + home.2) = m.vars (f.table.nameOf home.1)

variable {rf : RegisterFile} {s₀ s : Sheet} {lv₀ : Liveness} {sp : VarId} {vs : List VarId}
  {tmp : Nat → VarId → VarId} {W : World} {P : Word} {m m' : State} {i o : Nat} {inst : Instruction}
  {live : Status → VarId → Prop} (accepted : rf.Accepted) (analyzed₀ : s₀.Analyzed rf lv₀)
  (expanded : Expanded s₀.function sp vs tmp s.function)
  (pointer : sp < s₀.function.table.size ∧ s₀.function.table.nameOf sp = rf.sp)

structure Loaded (rf : RegisterFile) (f g : Function) (sp : VarId) (vs : List VarId)
    (tmp : Nat → VarId → VarId) (P : Word) (i : Nat) (inst : Instruction) (o : Nat) (m m' : State) : Prop where
  status : m'.status = .running (place f sp vs tmp i + o)
  memory : m'.memory = m.memory
  calls : m'.calls = m.calls
  vars : ∀ x < f.table.size, m'.vars (f.table.nameOf x) = m.vars (f.table.nameOf x)
  loaded : ∀ home ∈ (readHomes (f.homes vs) inst).take o,
    m'.vars (g.table.nameOf (tmp i home.1)) = m.memory (P + home.2)

section Names

variable {v w x : VarId}

include expanded

theorem temp_name_new (home : v ∈ vs) (touched : Touches s₀.function.body v i)
    (known : x < s₀.function.table.size) :
    s₀.function.table.nameOf x ≠ s.function.table.nameOf (tmp i v) := by
  obtain ⟨new, bound⟩ := expanded.fresh i v home touched
  rw [← expanded.grown.nameOf known]
  intro same
  have equal := VarTable.nameOf_inj expanded.sound (Nat.lt_of_lt_of_le known expanded.grown.size_le) bound same
  exact absurd (equal ▸ known) (Nat.not_lt.mpr new)

theorem temp_name_inj (home : v ∈ vs) (touched : Touches s₀.function.body v i) (home' : w ∈ vs)
    (touched' : Touches s₀.function.body w i)
    (same : s.function.table.nameOf (tmp i v) = s.function.table.nameOf (tmp i w)) : v = w :=
  (expanded.injective i i v home w home' touched touched'
    (VarTable.nameOf_inj expanded.sound (expanded.fresh i v home touched).2
      (expanded.fresh i w home' touched').2 same)).2

omit expanded in
theorem readHomes_spec (here : s₀.function.body[i]? = some inst) {home : VarId × Word}
    (member : home ∈ readHomes (s₀.function.homes vs) inst) :
    home ∈ s₀.function.homes vs ∧ home.1 ∈ vs ∧ Touches s₀.function.body home.1 i := by
  obtain ⟨known, reading⟩ := mem_readHomes.mp member
  refine ⟨known, Function.mem_of_home known, inst, here, ?_⟩
  exact Instruction.reads_subset_operands inst reading

end Names

include accepted analyzed₀ expanded pointer

theorem Loaded.step (W : World) (slots : List Word) (here : s₀.function.body[i]? = some inst)
    (value : m.vars rf.sp = P) (more : o < (readHomes (s₀.function.homes vs) inst).length)
    (loaded : Loaded rf s₀.function s.function sp vs tmp P i inst o m m') :
    s.function.SparesPointer rf m' ∧
      Loaded rf s₀.function s.function sp vs tmp P i inst (o + 1) m (s.function.step W rf slots m') := by
  obtain ⟨⟨v, offset⟩, found⟩ : ∃ home, (readHomes (s₀.function.homes vs) inst)[o]? = some home :=
    ⟨_, List.getElem?_eq_getElem more⟩
  have inGroup : (group sp (s₀.function.homes vs) (tmp i) inst)[o]? = some _ := group_load found
  have there := expanded.getElem?_place here inGroup
  obtain ⟨known, home, touched⟩ := readHomes_spec here (List.mem_of_getElem? found)
  have address : m'.vars (s.function.table.nameOf sp) + offset = P + offset := by
    rw [expanded.grown.nameOf pointer.1, loaded.vars sp pointer.1, pointer.2, value]
  rw [step_load loaded.status there, address, loaded.memory]
  refine ⟨fun pc next at_pc here' => ?_, rfl, rfl, loaded.calls, fun x xKnown => ?_, fun home' member => ?_⟩
  · rw [loaded.status] at at_pc
    cases at_pc
    rw [there] at here'
    cases here'
    exact fun same => temp_ne_sp accepted analyzed₀ expanded pointer home touched (Option.some.inj same)
  · rw [← loaded.vars x xKnown]
    exact Function.update_of_ne (temp_name_new expanded home touched xKnown) ..
  · rw [List.take_add_one, found, Option.toList_some, List.mem_append, List.mem_singleton] at member
    rcases member with member | rfl
    · obtain ⟨known', listed, touched'⟩ := readHomes_spec here (List.mem_of_mem_take member)
      by_cases same : home'.1 = v
      · obtain ⟨v', offset'⟩ := home'
        cases same
        rw [Function.home_unique expanded.distinct known' known]
        exact Function.update_self ..
      · rw [← loaded.loaded home' member]
        refine Function.update_of_ne (fun sameName => same ?_) ..
        exact temp_name_inj expanded listed touched' home touched sameName
    · exact Function.update_self ..

theorem Loaded.run (W : World) (slots : List Word) (here : s₀.function.body[i]? = some inst)
    (value : m.vars rf.sp = P) (at_place : m.status = .running (place s₀.function sp vs tmp i))
    (few : o ≤ (readHomes (s₀.function.homes vs) inst).length) :
    (∀ k < o, s.function.SparesPointer rf (s.function.run W rf slots k m)) ∧
      Loaded rf s₀.function s.function sp vs tmp P i inst o m (s.function.run W rf slots o m) := by
  induction o with
  | zero => exact ⟨by simp, at_place, rfl, rfl, fun _ _ => rfl, by simp⟩
  | succ o ih =>
    obtain ⟨spares, loaded⟩ := ih (Nat.le_of_succ_le few)
    obtain ⟨spares', loaded'⟩ := loaded.step accepted analyzed₀ expanded pointer W slots here value few
    rw [run_succ]
    exact ⟨Nat.forall_lt_succ_right.mpr ⟨spares, spares'⟩, loaded'⟩

omit accepted analyzed₀ expanded pointer

section Group

variable {m₁ : State} (sustains : s₀.function.Sustains rf live)
  (here : s₀.function.body[i]? = some inst) (at_pc : m.status = .running i)
  (backed : Backed rf s₀.function sp vs tmp live P m m')
  (loaded : Loaded rf s₀.function s.function sp vs tmp P i inst
    (readHomes (s₀.function.homes vs) inst).length m' m₁)

include backed loaded in
theorem loaded_var {x : VarId} (known : x < s₀.function.table.size) (stays : x ∉ vs) :
    m₁.vars (s₀.function.table.nameOf x) = m.vars (s₀.function.table.nameOf x) :=
  (loaded.vars x known).trans (backed.vars x known stays)

include analyzed₀ expanded here backed loaded

include sustains at_pc in
theorem loaded_reads : ∀ op ∈ inst.reads,
    m₁.value W s.function.table (op.rename (moved (s₀.function.homes vs) (tmp i))) =
      m.value W s₀.function.table op := by
  refine value_rename fun x reading => ?_
  have operand := Instruction.reads_subset_operands inst reading
  have known := (analyzed₀.valid.resolvable inst (List.mem_of_getElem? here)).operands x operand
  by_cases listed : x ∈ vs
  · obtain ⟨offset, home⟩ := Function.exists_home (f := s₀.function) listed
    have matters := sustains.used i inst x here
      (.inl ⟨reading, (spilled_name analyzed₀ expanded listed).1⟩)
    rw [Function.moved_of_mem listed, ← backed.slot (x, offset) home (at_pc ▸ matters)]
    refine loaded.loaded (x, offset) ?_
    rw [List.take_length]
    exact mem_readHomes.mpr ⟨home, reading⟩
  · rw [Function.moved_of_not_mem listed, expanded.grown.nameOf known]
    exact loaded_var backed loaded known listed

include accepted sustains at_pc in
theorem loaded_slot {home : VarId × Word} (member : home ∈ s₀.function.homes vs)
    (later : live ((inst.action W m.memory (m.value W s₀.function.table)).status (s₀.function.jump i)) home.1)
    (unwritten : inst.destination? ≠ some (.var home.1)) :
    m₁.memory (P + home.2) = m.vars (s₀.function.table.nameOf home.1) := by
  rw [loaded.memory]
  refine backed.slot home member (at_pc ▸ sustains.kept i inst home.1 here (fun defined => ?_) W _ _ later)
  rcases defined with ⟨written, -⟩ | ⟨-, implied⟩
  · exact unwritten written
  · exact (spilled_name analyzed₀ expanded (Function.mem_of_home member)).2
      (Instruction.implicitWrites_allocatable accepted inst _ implied)

include accepted pointer

theorem loaded_call {callee : Callee} {arity : Word} (calls : inst.arity? = some arity) :
    m₁.call rf (s₀.function.slots P vs.length) callee arity =
      m.call rf (s₀.function.slots P vs.length) callee arity := by
  have args : (rf.args.take arity.toNatClampNeg).map m₁.vars =
      (rf.args.take arity.toNatClampNeg).map m.vars := by
    refine List.map_congr_left fun r member => ?_
    obtain ⟨note, -, described⟩ := analyzed₀.note_of_inst here
    obtain ⟨x, known, rfl⟩ := VarTable.exists_of_mem_names (described.implied r
      (List.mem_append_left _ ((UseDef.call_implicitReads rf calls).1.symm ▸ member)))
    exact loaded_var backed loaded known fun listed =>
      (spilled_name analyzed₀ expanded listed).2 (accepted.args _ (List.mem_of_mem_take member))
  have hidden : (fun a => if a ∈ s₀.function.slots P vs.length then 0 else m₁.memory a) =
      fun a => if a ∈ s₀.function.slots P vs.length then 0 else m.memory a := by
    funext a
    split
    · rfl
    · rename_i outside
      rw [loaded.memory, backed.memory a outside]
  have sameSp := loaded_var backed loaded pointer.1 fun listed =>
    (spilled_name analyzed₀ expanded listed).1 pointer.2
  rw [pointer.2] at sameSp
  rw [State.call, State.call, args, hidden, sameSp]

omit accepted pointer backed loaded in
theorem jump_place (noStore : stores sp (s₀.function.homes vs) (tmp i) inst = []) (target : Option String) :
    s.function.jump (place s₀.function sp vs tmp i + (readHomes (s₀.function.homes vs) inst).length) target =
      place s₀.function sp vs tmp (s₀.function.jump i target) := by
  cases target with
  | none =>
    rw [Function.jump, Function.jump, place_succ here, group_length, noStore]
    rfl
  | some symbol =>
    rw [Function.jump, Function.jump]
    cases found : Flow.labelIndex? symbol s₀.function.body with
    | some j =>
      rw [(expanded.labelIndex?_place analyzed₀.valid.labels).mpr ⟨j, found, rfl⟩]
      rfl
    | none =>
      have none : Flow.labelIndex? symbol s.function.body = none := by
        rw [Option.eq_none_iff_forall_ne_some]
        intro q label
        obtain ⟨j, found', -⟩ := (expanded.labelIndex?_place analyzed₀.valid.labels).mp label
        rw [found] at found'
        cases found'
      rw [none, Option.getD_none, Option.getD_none, expanded.place_of_le (Nat.le_refl _)]

omit accepted pointer backed loaded in
theorem writesTo_moved (stays : ∀ v, inst.destination? = some (.var v) → v ∉ vs) :
    (inst.rename (moved (s₀.function.homes vs) (tmp i))).writesTo s.function.table =
      inst.writesTo s₀.function.table := by
  cases written : inst.destination? with
  | none => simp [Instruction.writesTo, Instruction.destination?_rename, written]
  | some op =>
    obtain ⟨d, known, rfl⟩ :=
      (analyzed₀.valid.resolvable inst (List.mem_of_getElem? here)).destination_var written
    rw [Instruction.writesTo_rename _ written, Instruction.writesTo_of_destination written,
      Function.moved_of_not_mem (stays d written), expanded.grown.nameOf known]

omit accepted pointer backed loaded in
theorem writesTo_ne (listed : v ∈ vs) (unwritten : inst.destination? ≠ some (.var v)) :
    inst.writesTo s₀.function.table ≠ some (s₀.function.table.nameOf v) := by
  intro writes
  obtain ⟨d, written, sameName⟩ := Instruction.destination_of_writesTo writes
  have known := (analyzed₀.valid.resolvable inst (List.mem_of_getElem? here)).operands d
    (Instruction.destination?_mem_operands written)
  have same := VarTable.nameOf_inj analyzed₀.valid.sound known (expanded.originals _ listed).1 sameName
  exact unwritten (same ▸ written)

include sustains in
theorem Backed.after (at_pc : m.status = .running i) {act : Action}
    (does : inst.action W m.memory (m.value W s₀.function.table) = act)
    (spares : inst.writesTo s₀.function.table ≠ some rf.sp)
    (apart : ∀ a, inst.address? (m.value W s₀.function.table) = some a → a ∉ s₀.function.slots P vs.length)
    (stays : ∀ v, inst.destination? = some (.var v) → v ∉ vs) :
    Backed rf s₀.function sp vs tmp live P
      (m.after W rf (s₀.function.slots P vs.length) (inst.writesTo s₀.function.table) (s₀.function.jump i) act)
      (m₁.after W rf (s₀.function.slots P vs.length)
        ((inst.rename (moved (s₀.function.homes vs) (tmp i))).writesTo s.function.table)
        (s.function.jump
          (place s₀.function sp vs tmp i + (readHomes (s₀.function.homes vs) inst).length)) act) := by
  have noStore : stores sp (s₀.function.homes vs) (tmp i) inst = [] := stores_eq_nil fun v written =>
    Function.lookup_homes_none (stays v written)
  have call : ∀ callee arity, act = .call callee arity →
      m₁.call rf (s₀.function.slots P vs.length) callee arity =
        m.call rf (s₀.function.slots P vs.length) callee arity := by
    intro callee arity same
    subst same
    exact loaded_call accepted analyzed₀ expanded pointer here backed loaded (Instruction.arity?_of_action does)
  have unsaved : rf.sp ∉ rf.callerSaved := fun saved => accepted.sp_apart (accepted.callerSaved _ saved)
  rw [writesTo_moved analyzed₀ expanded here stays]
  refine ⟨?_, fun a outside => ?_, ?_, ?_, fun x known stays' => ?_, fun home member later => ?_⟩
  · simp only [State.after, Action.status]
    cases act.follows with
    | none => rfl
    | some target => simp only [jump_place analyzed₀ expanded here noStore, Status.map]
  · exact memoryAfter_congr call ((congrFun loaded.memory a).trans (backed.memory a outside))
  · exact callsAfter_congr call (loaded.calls.trans backed.calls)
  · exact (varsAfter_of_ne spares unsaved).trans backed.pointer
  · exact varsAfter_congr call (loaded_var backed loaded known stays')
  · subst does
    have listed := Function.mem_of_home member
    have unwritten : inst.destination? ≠ some (.var home.1) := fun written => stays _ written listed
    have slot : P + home.2 ∈ s₀.function.slots P vs.length := Function.slot_mem member
    simp only [State.after]
    rw [memoryAfter_of_slot slot, varsAfter_of_ne]
    · exact loaded_slot accepted analyzed₀ expanded sustains here at_pc backed loaded member later unwritten
    · exact writesTo_ne analyzed₀ expanded here listed unwritten
    · exact fun saved => (spilled_name analyzed₀ expanded listed).2 (accepted.callerSaved _ saved)
    · intro w stored
      exact apart _ (Instruction.address?_of_store stored) slot

include sustains in
omit pointer in
theorem Backed.stored (fits : vs.length ≤ 2 ^ 61) (at_pc : m.status = .running i) {v : VarId}
    {offset w : Word} (home : (v, offset) ∈ s₀.function.homes vs) (written : inst.destination? = some (.var v))
    (does : inst.action W m.memory (m.value W s₀.function.table) = .write w) :
    Backed rf s₀.function sp vs tmp live P
      { m with
        status := .running (i + 1)
        vars := Function.update m.vars (s₀.function.table.nameOf v) w }
      { m₁ with
        status := .running (place s₀.function sp vs tmp (i + 1))
        vars := Function.update m₁.vars (s.function.table.nameOf (tmp i v)) w
        memory := Function.update m₁.memory (P + offset) w } := by
  have listed : v ∈ vs := Function.mem_of_home home
  obtain ⟨known, -⟩ := expanded.originals v listed
  have operand := Instruction.destination?_mem_operands written
  have goesOn : (inst.action W m.memory (m.value W s₀.function.table)).status (s₀.function.jump i) =
      .running (i + 1) := by
    rw [does]
    rfl
  refine ⟨rfl, fun a outside => ?_, loaded.calls.trans backed.calls, ?_, fun x xKnown stays => ?_,
    fun home' member later => ?_⟩
  all_goals dsimp only
  · have differ : a ≠ P + offset := fun same => outside (same ▸ Function.slot_mem home)
    rw [Function.update_of_ne differ, loaded.memory, backed.memory a outside]
  · rw [Function.update_of_ne (spilled_name analyzed₀ expanded listed).1.symm, backed.pointer]
  · have differ : s₀.function.table.nameOf x ≠ s₀.function.table.nameOf v := fun same =>
      stays (VarTable.nameOf_inj analyzed₀.valid.sound xKnown known same ▸ listed)
    rw [Function.update_of_ne (temp_name_new expanded listed ⟨inst, here, operand⟩ xKnown),
      Function.update_of_ne differ]
    exact loaded_var backed loaded xKnown stays
  · obtain ⟨v', offset'⟩ := home'
    by_cases same : v' = v
    · subst same
      rw [Function.home_unique expanded.distinct member home]
      simp
    · have apart : P + offset' ≠ P + offset := fun meet => same (Function.slot_inj fits member home meet)
      have differ : s₀.function.table.nameOf v' ≠ s₀.function.table.nameOf v := fun sameName =>
        same (VarTable.nameOf_inj analyzed₀.valid.sound
          (expanded.originals v' (Function.mem_of_home member)).1 known sameName)
      rw [Function.update_of_ne apart, Function.update_of_ne differ]
      refine loaded_slot accepted analyzed₀ expanded sustains here at_pc backed loaded member
        (goesOn ▸ later) fun written' => ?_
      rw [written] at written'
      cases written'
      exact same rfl

omit accepted in
theorem store_step {v : VarId} {offset w : Word} (slots : List Word)
    (home : (v, offset) ∈ s₀.function.homes vs) (written : inst.destination? = some (.var v)) (m₂ : State)
    (main : m₂ = { m₁ with
      status := .running (place s₀.function sp vs tmp i + ((readHomes (s₀.function.homes vs) inst).length + 1))
      vars := Function.update m₁.vars (s.function.table.nameOf (tmp i v)) w }) :
    s.function.SparesPointer rf m₂ ∧ s.function.step W rf slots m₂ = { m₁ with
      status := .running (place s₀.function sp vs tmp (i + 1))
      vars := Function.update m₁.vars (s.function.table.nameOf (tmp i v)) w
      memory := Function.update m₁.memory (P + offset) w } := by
  have listed : v ∈ vs := Function.mem_of_home home
  have touched : Touches s₀.function.body v i := ⟨inst, here, Instruction.destination?_mem_operands written⟩
  have lookup : (s₀.function.homes vs).lookup v = some offset := by
    obtain ⟨offset', found⟩ := Option.isSome_iff_exists.mp (Function.lookup_homes.mpr listed)
    rw [found, Function.home_unique expanded.distinct (mem_of_lookup found) home]
  have inGroup : (group sp (s₀.function.homes vs) (tmp i) inst)[_]? = some _ := group_store written lookup
  have there := expanded.getElem?_place here inGroup
  have status : m₂.status = .running (place s₀.function sp vs tmp i +
      ((readHomes (s₀.function.homes vs) inst).length + 1)) := by rw [main]
  have address : m₂.vars (s.function.table.nameOf sp) + offset = P + offset := by
    rw [main, expanded.grown.nameOf pointer.1]
    dsimp only
    rw [Function.update_of_ne (temp_name_new expanded listed touched pointer.1),
      loaded_var backed loaded pointer.1 fun spilled => (spilled_name analyzed₀ expanded spilled).1 pointer.2,
      pointer.2, backed.pointer]
  refine ⟨fun pc next at_pc' here' => ?_, ?_⟩
  · rw [status] at at_pc'
    cases at_pc'
    rw [there] at here'
    cases here'
    exact fun same => by cases same
  · rw [step_store status there, address, main, place_succ here, group_length, stores_of_home written lookup]
    dsimp only
    rw [Function.update_self]
    rfl

include sustains in
theorem main_step (slots : List Word) (at_pc : m.status = .running i)
    (spares : inst.writesTo s₀.function.table ≠ some rf.sp)
    (agree : ∀ a, inst.address? (m.value W s₀.function.table) = some a → m₁.memory a = m.memory a) :
    s.function.SparesPointer rf m₁ ∧ s.function.step W rf slots m₁ = m₁.after W rf slots
      ((inst.rename (moved (s₀.function.homes vs) (tmp i))).writesTo s.function.table)
      (s.function.jump (place s₀.function sp vs tmp i + (readHomes (s₀.function.homes vs) inst).length))
      (inst.action W m.memory (m.value W s₀.function.table)) := by
  have inGroup : (group sp (s₀.function.homes vs) (tmp i) inst)[_]? = some _ := group_main
  have there := expanded.getElem?_place here inGroup
  constructor
  · intro pc next at_pc' here'
    rw [loaded.status] at at_pc'
    cases at_pc'
    rw [there] at here'
    cases here'
    intro writes
    obtain ⟨y, renamed, named⟩ := Instruction.destination_of_writesTo writes
    obtain ⟨d, written, rfl⟩ := Instruction.destination?_rename_var.mp renamed
    have operand := Instruction.destination?_mem_operands written
    have known := (analyzed₀.valid.resolvable inst (List.mem_of_getElem? here)).operands d operand
    by_cases listed : d ∈ vs
    · rw [Function.moved_of_mem listed] at named
      exact temp_ne_sp accepted analyzed₀ expanded pointer listed ⟨inst, here, operand⟩ named
    · rw [Function.moved_of_not_mem listed, expanded.grown.nameOf known] at named
      exact spares (named ▸ Instruction.writesTo_of_destination written)
  · rw [step_inst loaded.status there, Instruction.action_rename _
      (loaded_reads analyzed₀ expanded sustains here at_pc backed loaded) agree]

end Group

-- How many steps the expanded function takes for a step of the original: one for each instruction of the
-- group.
def pace (f : Function) (sp : VarId) (vs : List VarId) (tmp : Nat → VarId → VarId) (m : State) : Nat :=
  match m.status with
  | .running i => ((f.body[i]?).map fun inst => (group sp (f.homes vs) (tmp i) inst).length).getD 1
  | .ended _ => 1

theorem pace_ended {how : Ending} (stopped : m.status = .ended how) : pace s₀.function sp vs tmp m = 1 := by
  simp only [pace, stopped]

theorem pace_running (at_pc : m.status = .running i) : pace s₀.function sp vs tmp m =
    ((s₀.function.body[i]?).map fun inst => (group sp (s₀.function.homes vs) (tmp i) inst).length).getD 1 := by
  simp only [pace, at_pc]

theorem pace_pos : 0 < pace s₀.function sp vs tmp m := by
  cases at_pc : m.status with
  | ended how => simp [pace_ended at_pc]
  | running i =>
    rw [pace_running at_pc]
    cases s₀.function.body[i]? with
    | none => exact Nat.one_pos
    | some inst =>
      rw [Option.map_some, Option.getD_some, group_length]
      omega

def clock (f : Function) (sp : VarId) (vs : List VarId) (tmp : Nat → VarId → VarId) (W : World)
    (rf : RegisterFile) (slots : List Word) (m : State) : Nat → Nat
  | 0 => 0
  | n + 1 => clock f sp vs tmp W rf slots m n + pace f sp vs tmp (f.run W rf slots n m)

theorem le_clock (slots : List Word) (n : Nat) : n ≤ clock s₀.function sp vs tmp W rf slots m n := by
  induction n with
  | zero => exact Nat.le_refl 0
  | succ n ih => exact Nat.add_le_add ih pace_pos

include accepted analyzed₀ expanded pointer

theorem Backed.group (fits : vs.length ≤ 2 ^ 61) (sustains : s₀.function.Sustains rf live)
    (here : s₀.function.body[i]? = some inst) (at_pc : m.status = .running i)
    (backed : Backed rf s₀.function sp vs tmp live P m m')
    (spares : inst.writesTo s₀.function.table ≠ some rf.sp)
    (apart : ∀ a, inst.address? (m.value W s₀.function.table) = some a → a ∉ s₀.function.slots P vs.length) :
    (∀ o < (group sp (s₀.function.homes vs) (tmp i) inst).length,
      s.function.SparesPointer rf (s.function.run W rf (s₀.function.slots P vs.length) o m') ∧
      (s.function.run W rf (s₀.function.slots P vs.length) o m').status =
        .running (place s₀.function sp vs tmp i + o)) ∧
      Backed rf s₀.function sp vs tmp live P
        (m.after W rf (s₀.function.slots P vs.length) (inst.writesTo s₀.function.table) (s₀.function.jump i)
          (inst.action W m.memory (m.value W s₀.function.table)))
        (s.function.run W rf (s₀.function.slots P vs.length)
          (group sp (s₀.function.homes vs) (tmp i) inst).length m') := by
  have at_place : m'.status = .running (place s₀.function sp vs tmp i) := by
    rw [backed.status, at_pc]
    rfl
  have value : m'.vars rf.sp = P := by
    have same := backed.vars sp pointer.1 fun listed => (spilled_name analyzed₀ expanded listed).1 pointer.2
    rwa [pointer.2, backed.pointer] at same
  have loads := fun o (few : o ≤ (readHomes (s₀.function.homes vs) inst).length) =>
    Loaded.run accepted analyzed₀ expanded pointer W (s₀.function.slots P vs.length) here value at_place few
  obtain ⟨early, loaded⟩ := loads _ (Nat.le_refl _)
  have passed : ∀ o < (readHomes (s₀.function.homes vs) inst).length,
      s.function.SparesPointer rf (s.function.run W rf (s₀.function.slots P vs.length) o m') ∧
      (s.function.run W rf (s₀.function.slots P vs.length) o m').status =
        .running (place s₀.function sp vs tmp i + o) :=
    fun o few => ⟨early o few, (loads o (Nat.le_of_lt few)).2.status⟩
  obtain ⟨atMain, main⟩ := main_step accepted analyzed₀ expanded pointer sustains here backed loaded
    (s₀.function.slots P vs.length) at_pc spares fun a touched => by
      rw [loaded.memory, backed.memory a (apart a touched)]
  have passedMain := Nat.forall_lt_succ_right.mpr ⟨passed, atMain, loaded.status⟩
  rcases stores_cases sp (s₀.function.homes vs) (tmp i) inst with
    ⟨v, offset, written, lookup, single⟩ | ⟨plain, none⟩
  · have home := mem_of_lookup lookup
    have listed : v ∈ vs := Function.mem_of_home home
    obtain ⟨w, does⟩ := (Instruction.action_write W m.memory (m.value W s₀.function.table)).mpr
      (by rw [written]; rfl)
    rw [does, Instruction.writesTo_rename _ written, Function.moved_of_mem listed] at main
    obtain ⟨atStore, store⟩ := store_step analyzed₀ expanded pointer here backed loaded
      (s₀.function.slots P vs.length) home written _ main
    rw [group_length, single]
    refine ⟨Nat.forall_lt_succ_right.mpr ⟨passedMain, ?_⟩, ?_⟩
    · rw [run_succ]
      refine ⟨atStore, ?_⟩
      rw [main]
      rfl
    · rw [List.length_singleton, run_succ, run_succ, store, does, Instruction.writesTo_of_destination written]
      exact Backed.stored accepted analyzed₀ expanded sustains here backed loaded fits at_pc home written does
  · rw [group_length, none]
    refine ⟨passedMain, ?_⟩
    rw [List.length_nil, Nat.add_zero, run_succ, main]
    refine Backed.after accepted analyzed₀ expanded pointer sustains here backed loaded at_pc rfl spares apart ?_
    intro v written listed
    obtain ⟨offset, home⟩ := Option.isSome_iff_exists.mp (Function.lookup_homes.mpr listed)
    rw [plain v written] at home
    cases home

theorem Backed.step (fits : vs.length ≤ 2 ^ 61) (sustains : s₀.function.Sustains rf live)
    (backed : Backed rf s₀.function sp vs tmp live P m m')
    (sparesPointer : s₀.function.SparesPointer rf m)
    (sparesSlots : s₀.function.SparesSlots W (s₀.function.slots P vs.length) m) :
    (∀ o < pace s₀.function sp vs tmp m,
      s.function.SparesPointer rf (s.function.run W rf (s₀.function.slots P vs.length) o m')) ∧
      Backed rf s₀.function sp vs tmp live P (s₀.function.step W rf (s₀.function.slots P vs.length) m)
        (s.function.run W rf (s₀.function.slots P vs.length) (pace s₀.function sp vs tmp m) m') := by
  have idle : s.function.SparesPointer rf m' → ∀ j < 1, s.function.SparesPointer rf
      (s.function.run W rf (s₀.function.slots P vs.length) j m') := fun now =>
    Nat.forall_lt_succ_right.mpr ⟨by simp, now⟩
  have sameStatus := backed.status
  cases at_pc : m.status with
  | ended how =>
    rw [at_pc] at sameStatus
    rw [pace_ended at_pc]
    refine ⟨idle fun pc next at_pc' => ?_, ?_⟩
    · rw [sameStatus] at at_pc'
      cases at_pc'
    · rw [step_ended at_pc, run_one, step_ended sameStatus]
      exact backed
  | running i =>
    rw [at_pc] at sameStatus
    rw [pace_running at_pc]
    cases here : s₀.function.body[i]? with
    | none =>
      have none : s.function.body[place s₀.function sp vs tmp i]? = none := by
        rw [expanded.place_of_le (List.getElem?_eq_none_iff.mp here)]
        exact List.getElem?_eq_none (Nat.le_refl _)
      refine ⟨idle fun pc next at_pc' here' => ?_, ?_⟩
      · rw [sameStatus] at at_pc'
        cases at_pc'
        rw [none] at here'
        cases here'
      · rw [step_ranOut at_pc here, Option.map_none, Option.getD_none, run_one, step_ranOut sameStatus none]
        exact ⟨rfl, backed.memory, backed.calls, backed.pointer, backed.vars, fun home member later =>
          backed.slot home member (at_pc ▸ sustains.ranOut i home.1 here later)⟩
    | some inst =>
      rw [step_inst at_pc here]
      obtain ⟨passed, next⟩ := backed.group accepted analyzed₀ expanded pointer fits sustains here at_pc
        (sparesPointer i inst at_pc here) (sparesSlots i inst at_pc here)
      exact ⟨fun o inside => (passed o inside).1, next⟩

theorem Backed.on_time (fits : vs.length ≤ 2 ^ 61) (sustains : s₀.function.Sustains rf live)
    (backed : Backed rf s₀.function sp vs tmp live P m m') (n : Nat)
    (sparesPointer : ∀ k < n, s₀.function.SparesPointer rf
      (s₀.function.run W rf (s₀.function.slots P vs.length) k m))
    (sparesSlots : ∀ k < n, s₀.function.SparesSlots W (s₀.function.slots P vs.length)
      (s₀.function.run W rf (s₀.function.slots P vs.length) k m)) :
    (∀ j < clock s₀.function sp vs tmp W rf (s₀.function.slots P vs.length) m n,
      s.function.SparesPointer rf (s.function.run W rf (s₀.function.slots P vs.length) j m')) ∧
      Backed rf s₀.function sp vs tmp live P (s₀.function.run W rf (s₀.function.slots P vs.length) n m)
        (s.function.run W rf (s₀.function.slots P vs.length)
          (clock s₀.function sp vs tmp W rf (s₀.function.slots P vs.length) m n) m') := by
  induction n with
  | zero => exact ⟨by simp [clock], backed⟩
  | succ n ih =>
    obtain ⟨spares, backed'⟩ := ih (fun j before => sparesPointer j (Nat.lt_succ_of_lt before))
      (fun j before => sparesSlots j (Nat.lt_succ_of_lt before))
    obtain ⟨spares', next⟩ := backed'.step accepted analyzed₀ expanded pointer fits sustains
      (sparesPointer n (Nat.lt_succ_self n)) (sparesSlots n (Nat.lt_succ_self n))
    rw [clock]
    refine ⟨fun j before => ?_, ?_⟩
    · rcases Nat.lt_or_ge j (clock s₀.function sp vs tmp W rf (s₀.function.slots P vs.length) m n) with
        early | laterOn
      · exact spares j early
      · obtain ⟨d, rfl⟩ := Nat.exists_eq_add_of_le laterOn
        rw [run_add]
        exact spares' d (by omega)
    · rw [run_succ, run_add]
      exact next

theorem Backed.run (fits : vs.length ≤ 2 ^ 61)
    (backed : Backed rf s₀.function sp vs tmp lv₀.At P m m') (n : Nat)
    (sparesPointer : ∀ k < n, s₀.function.SparesPointer rf
      (s₀.function.run W rf (s₀.function.slots P vs.length) k m))
    (sparesSlots : ∀ k < n, s₀.function.SparesSlots W (s₀.function.slots P vs.length)
      (s₀.function.run W rf (s₀.function.slots P vs.length) k m)) :
    ∃ k ≥ n,
      (∀ j < k, s.function.SparesPointer rf (s.function.run W rf (s₀.function.slots P vs.length) j m')) ∧
      Backed rf s₀.function sp vs tmp lv₀.At P
        (s₀.function.run W rf (s₀.function.slots P vs.length) n m)
        (s.function.run W rf (s₀.function.slots P vs.length) k m') :=
  ⟨_, le_clock _ n, backed.on_time accepted analyzed₀ expanded pointer fits analyzed₀.sustains n sparesPointer
    sparesSlots⟩

end Expanded

end RegisterAllocation
