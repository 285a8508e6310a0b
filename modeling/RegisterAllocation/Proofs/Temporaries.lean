import RegisterAllocation.Proofs.ExtendedInputs
import RegisterAllocation.Proofs.Moves
import RegisterAllocation.Proofs.RenamedSets
import RegisterAllocation.Proofs.SpillSlots

namespace RegisterAllocation

namespace Spill

open NameSequence

variable {v : VarId} {slot : Slot} {t : VarTable} {names : NameSequence} {pairs : List (Instruction × UseDef)}

def References (v : VarId) (set : UseDef) : Prop := v ∈ set.used ∨ v ∈ set.defined

theorem not_references_iff {set : UseDef} :
    (!set.used.contains v && !set.defined.contains v) = true ↔ ¬References v set := by
  simp only [Bool.and_eq_true, Bool.not_eq_true', ← Bool.not_eq_true, Std.ExtTreeSet.contains_iff_mem, References,
    not_or]

theorem moveOut_keep {inst : Instruction} {set : UseDef} (kept : ¬References v set) (slot : Slot) (t : VarTable)
    (names : NameSequence) (rest : List (Instruction × UseDef)) :
    moveOut v slot t names ((inst, set) :: rest) =
      { moveOut v slot t names rest with body := inst :: (moveOut v slot t names rest).body } := by
  rw [moveOut]
  exact if_pos (not_references_iff.mpr kept)

theorem moveOut_move {inst : Instruction} {set : UseDef} (moved : References v set) (slot : Slot) (t : VarTable)
    (names : NameSequence) (rest : List (Instruction × UseDef)) :
    moveOut v slot t names ((inst, set) :: rest) =
      let r := moveOut v slot (t.intern (names.draw t.names).1).2 (names.draw t.names).2 rest
      { r with
        body := around v t.size slot inst (set.used.contains v) (set.defined.contains v) ++ r.body
        temps := (names.draw t.names).1 :: r.temps } := by
  rw [moveOut]
  simp only [if_neg (fun none => not_references_iff.mp none moved), (intern_drawn t names).1]

-- Both loops end for every temporary, and each name joins the table before the next one is drawn.
theorem moveOut_draws (v : VarId) (slot : Slot) (t : VarTable) (names : NameSequence)
    (pairs : List (Instruction × UseDef)) :
    let r := moveOut v slot t names pairs
    Draws names.stem names.taken t.names names.next r.temps r.names.next ∧
      r.names = { names with next := r.names.next } ∧ r.table.names = t.names ++ r.temps := by
  induction pairs generalizing t names with
  | nil => exact ⟨.nil, rfl, by simp [moveOut]⟩
  | cons pair rest ih =>
    obtain ⟨inst, set⟩ := pair
    by_cases moved : References v set
    · obtain ⟨n, fresh, drawn⟩ := names.draw_fresh t.names
      have new := VarTable.id?_eq_none_iff.mpr fresh.found.2.2
      have joined : (t.intern (nameAt names.stem n)).2.names = t.names ++ [nameAt names.stem n] := by
        rw [VarTable.intern_new new]
        simp [VarTable.names]
      rw [moveOut_move moved]
      simp only [drawn]
      obtain ⟨draws, kept, table⟩ := ih (t.intern (nameAt names.stem n)).2 { names with next := n + 1 }
      rw [joined] at draws table
      exact ⟨.cons fresh draws, kept, by rw [table]; simp⟩
    · rw [moveOut_keep moved]
      exact ih t names

def Serves (v : VarId) (slot : Slot) (pairs : List (Instruction × UseDef)) (table : VarTable)
    (groups : List (List Instruction)) (i : Nat) (name : String) : Prop :=
  ∃ tmp pair, table.id? name = some tmp ∧ pairs[i]? = some pair ∧
    groups[i]? = some (around v tmp slot pair.1 (pair.2.used.contains v) (pair.2.defined.contains v)) ∧
    ∀ j group, groups[j]? = some group → ((∃ inst ∈ group, .var tmp ∈ inst.operands) ↔ j = i)

-- A body made of one group for each old instruction. Those that refer to the variable have a temporary each,
-- in the order of the instructions, and the others are kept.
structure Grouped (v : VarId) (slot : Slot) (pairs : List (Instruction × UseDef)) (table : VarTable)
    (body : List Instruction) (temps : List String) (groups : List (List Instruction)) (places : List Nat) :
    Prop where
  body : body = groups.flatten
  count : groups.length = pairs.length
  order : places.Pairwise (· < ·)
  referring : ∀ i, i ∈ places ↔ ∃ pair, pairs[i]? = some pair ∧ References v pair.2
  kept : ∀ i pair, pairs[i]? = some pair → i ∉ places → groups[i]? = some [pair.1]
  temps : List.Forall₂ (Serves v slot pairs table groups) places temps

def Apart (old new : Nat) (groups : List (List Instruction)) : Prop :=
  ∀ group ∈ groups, ∀ inst ∈ group, ∀ x, .var x ∈ inst.operands → x < old ∨ new ≤ x

theorem Serves.cons {table : VarTable} {groups : List (List Instruction)} {i : Nat} {name : String}
    {pair : Instruction × UseDef} {front : List Instruction} (serves : Serves v slot pairs table groups i name)
    (absent : ∀ tmp, table.id? name = some tmp → ∀ inst ∈ front, .var tmp ∉ inst.operands) :
    Serves v slot (pair :: pairs) table (front :: groups) (i + 1) name := by
  obtain ⟨tmp, old, numbered, there, group, only⟩ := serves
  refine ⟨tmp, old, numbered, there, group, fun j group here => ?_⟩
  cases j with
  | zero =>
    cases here
    refine iff_of_false ?_ (by omega)
    rintro ⟨inst, member, operand⟩
    exact absent tmp numbered inst member operand
  | succ j =>
    rw [only j group here]
    omega

theorem operands_around {tmp x : VarId} {inst other : Instruction} {reads writes : Bool}
    (member : other ∈ around v tmp slot inst reads writes) (operand : .var x ∈ other.operands) :
    .var x ∈ inst.operands ∨ x = slot.sp ∨ x = tmp := by
  rcases mem_around member with rfl | rfl | rfl
  · rw [Instruction.operands_rename, Instruction.var_mem_map_rename] at operand
    obtain ⟨y, operand, rfl⟩ := operand
    split
    · exact .inr (.inr rfl)
    · exact .inl operand
  · simp only [Instruction.operands, List.mem_cons, Operand.var.injEq, List.not_mem_nil, or_false] at operand
    exact .inr operand.symm
  · simp only [Instruction.operands, List.mem_cons, Operand.var.injEq, List.not_mem_nil, or_false] at operand
    exact .inr operand

theorem tmp_mem_around {tmp : VarId} {inst : Instruction} {set : UseDef} (moved : References v set) :
    ∃ other ∈ around v tmp slot inst (set.used.contains v) (set.defined.contains v),
      .var tmp ∈ other.operands := by
  rcases moved with used | defined
  · exact ⟨.load (.var tmp) (.var slot.sp) slot.offset, by simp [around, used], by simp [Instruction.operands]⟩
  · exact ⟨.store (.var slot.sp) slot.offset (.var tmp), by simp [around, defined], by simp [Instruction.operands]⟩

namespace Grouped

variable {table : VarTable} {body : List Instruction} {temps : List String} {groups : List (List Instruction)}
  {places : List Nat} {inst : Instruction} {set : UseDef} {front : List Instruction} {name : String} {tmp : VarId}

theorem serves_behind (grouped : Grouped v slot pairs table body temps groups places)
    (pair : Instruction × UseDef)
    (absent : ∀ name ∈ temps, ∀ x, table.id? name = some x → ∀ other ∈ front, .var x ∉ other.operands) :
    List.Forall₂ (Serves v slot (pair :: pairs) table (front :: groups)) (places.map (· + 1)) temps := by
  rw [List.forall₂_map_left_iff, List.forall₂_iff_zip]
  refine ⟨grouped.temps.length_eq, fun {i name} both => ?_⟩
  exact ((List.forall₂_iff_zip.mp grouped.temps).2 both).cons (absent name (List.of_mem_zip both).2)

theorem keep (grouped : Grouped v slot pairs table body temps groups places) (kept : ¬References v set)
    (absent : ∀ name ∈ temps, ∀ x, table.id? name = some x → .var x ∉ inst.operands) :
    Grouped v slot ((inst, set) :: pairs) table (inst :: body) temps ([inst] :: groups) (places.map (· + 1)) := by
  refine ⟨by simp [grouped.body], by simp [grouped.count],
    grouped.order.map _ fun _ _ => Nat.succ_lt_succ, fun i => ?_, fun i pair here outside => ?_, ?_⟩
  · cases i with
    | zero => simp [kept]
    | succ i => simp [grouped.referring]
  · cases i with
    | zero =>
      cases here
      rfl
    | succ i => exact grouped.kept i pair here fun inside => outside (List.mem_map_of_mem inside)
  · refine grouped.serves_behind _ fun name member x numbered => ?_
    simpa using absent name member x numbered

theorem move (grouped : Grouped v slot pairs table body temps groups places) (moved : References v set)
    (numbered : table.id? name = some tmp)
    (made : around v tmp slot inst (set.used.contains v) (set.defined.contains v) = front)
    (behind : ∀ group ∈ groups, ∀ other ∈ group, .var tmp ∉ other.operands)
    (absent : ∀ name ∈ temps, ∀ x, table.id? name = some x → ∀ other ∈ front, .var x ∉ other.operands) :
    Grouped v slot ((inst, set) :: pairs) table (front ++ body) (name :: temps) (front :: groups)
      (0 :: places.map (· + 1)) := by
  refine ⟨by simp [grouped.body], by simp [grouped.count], ?_, fun i => ?_, fun i pair there outside => ?_,
    .cons ⟨tmp, (inst, set), numbered, rfl, congrArg some made.symm, fun j group there => ?_⟩
      (grouped.serves_behind _ absent)⟩
  · refine List.pairwise_cons.mpr ⟨fun i member => ?_, grouped.order.map _ fun _ _ => Nat.succ_lt_succ⟩
    obtain ⟨j, -, rfl⟩ := List.mem_map.mp member
    exact Nat.succ_pos j
  · cases i with
    | zero => simp [moved]
    | succ i => simp [grouped.referring]
  · cases i with
    | zero => exact absurd List.mem_cons_self outside
    | succ i =>
      exact grouped.kept i pair there fun inside =>
        outside (List.mem_cons_of_mem _ (List.mem_map_of_mem inside))
  · cases j with
    | zero =>
      cases there
      exact iff_of_true (made ▸ tmp_mem_around moved) rfl
    | succ j =>
      refine iff_of_false ?_ (Nat.succ_ne_zero j)
      rintro ⟨other, member, operand⟩
      exact behind group (List.mem_of_getElem? there) other member operand

end Grouped

theorem size_le_of_temp {name : String} {x : VarId} (member : name ∈ (moveOut v slot t names pairs).temps)
    (numbered : (moveOut v slot t names pairs).table.id? name = some x) : t.size ≤ x := by
  have new := (moveOut_draws v slot t names pairs).1.not_used name member
  have grown : t.Extends (moveOut v slot t names pairs).table := by
    rw [moveOut_table]
    exact VarTable.internAll_extends _ _
  by_contra old
  have known : x < t.size := Nat.lt_of_not_le old
  have named := (VarTable.id?_eq_some numbered).2
  rw [grown.nameOf known] at named
  exact new (named ▸ VarTable.nameOf_mem_names known)

theorem moveOut_grouped {old : Nat} (v : VarId) (slot : Slot) (t : VarTable) (names : NameSequence)
    (sound : t.Sound) (bound : old ≤ t.size) (pointer : slot.sp < old)
    (known : ∀ pair ∈ pairs, ∀ x, .var x ∈ pair.1.operands → x < old) :
    let r := moveOut v slot t names pairs
    ∃ groups places, Grouped v slot pairs r.table r.body r.temps groups places ∧ Apart old t.size groups := by
  induction pairs generalizing t names with
  | nil =>
    refine ⟨[], [], ⟨rfl, rfl, .nil, by simp, by simp, .nil⟩, ?_⟩
    intro group member
    cases member
  | cons pair rest ih =>
    obtain ⟨inst, set⟩ := pair
    have here : ∀ x, .var x ∈ inst.operands → x < old := known _ List.mem_cons_self
    have later : ∀ pair ∈ rest, ∀ x, .var x ∈ pair.1.operands → x < old := fun pair member =>
      known pair (List.mem_cons_of_mem _ member)
    by_cases moved : References v set
    -- The temporary gets the number next to the table. The groups of the rest have only old numbers and numbers
    -- past this one, so that it stands in none of them and none of theirs in its group.
    · obtain ⟨number, size⟩ := intern_drawn t names
      have sound₁ := VarTable.intern_sound sound (names.draw t.names).1
      obtain ⟨groups, places, grouped, apart⟩ := ih _ (names.draw t.names).2 sound₁ (by omega) later
      have first : (t.intern (names.draw t.names).1).2.id? (names.draw t.names).1 = some t.size := by
        rw [← number]
        exact (VarTable.id?_eq_some_iff sound₁).mpr ⟨VarTable.intern_lt_size _ _, VarTable.nameOf_intern _ _⟩
      have numbered : (moveOut v slot (t.intern (names.draw t.names).1).2 (names.draw t.names).2 rest).table.id?
          (names.draw t.names).1 = some t.size := by
        rw [moveOut_table]
        exact (VarTable.internAll_extends _ _).id? sound₁ (VarTable.internAll_sound sound₁ _) first
      rw [moveOut_move moved]
      refine ⟨_, _, grouped.move moved numbered rfl ?_ ?_, ?_⟩
      · intro group member other inside operand
        have place := apart group member other inside _ operand
        omega
      · intro name member x joined other inside operand
        have beyond := size_le_of_temp member joined
        rcases operands_around inside operand with mentioned | same | same
        · have below := here x mentioned
          omega
        · rw [same] at beyond
          exact absurd (Nat.lt_of_lt_of_le pointer bound) (by omega)
        · rw [same] at beyond
          omega
      · refine List.forall_mem_cons.mpr
          ⟨fun other inside x operand => ?_, fun group member other inside x operand => ?_⟩
        · rcases operands_around inside operand with mentioned | rfl | rfl
          · exact .inl (here x mentioned)
          · exact .inl pointer
          · exact .inr (Nat.le_refl _)
        · have place := apart group member other inside x operand
          omega
    · obtain ⟨groups, places, grouped, apart⟩ := ih t names sound bound later
      rw [moveOut_keep moved]
      refine ⟨_, _, grouped.keep moved fun name member x joined mentioned => ?_, ?_⟩
      · have beyond := size_le_of_temp member joined
        have below := here x mentioned
        omega
      · refine List.forall_mem_cons.mpr ⟨fun other inside x operand => ?_, apart⟩
        cases List.mem_singleton.mp inside
        exact .inl (here x operand)

theorem Grouped.resolvable {table : VarTable} {body : List Instruction} {temps : List String}
    {groups : List (List Instruction)} {places : List Nat}
    (grouped : Grouped v slot pairs table body temps groups places) (grown : t.Extends table)
    (pointer : slot.sp < t.size) (resolvable : ∀ pair ∈ pairs, pair.1.Resolvable t) :
    ∀ inst ∈ body, inst.Resolvable table := by
  intro inst member
  rw [grouped.body] at member
  obtain ⟨group, inside, member⟩ := List.mem_flatten.mp member
  obtain ⟨i, here⟩ := List.mem_iff_getElem?.mp inside
  obtain ⟨pair, there⟩ : ∃ pair, pairs[i]? = some pair := by
    have bound := (List.getElem?_eq_some_iff.mp here).1
    rw [grouped.count] at bound
    exact ⟨_, List.getElem?_eq_getElem bound⟩
  have old := (resolvable pair (List.mem_of_getElem? there)).extend grown
  have pointer : slot.sp < table.size := Nat.lt_of_lt_of_le pointer grown.size_le
  by_cases placed : i ∈ places
  · obtain ⟨k, bound, rfl⟩ := List.mem_iff_getElem.mp placed
    obtain ⟨tmp, pair', numbered, there', group', -⟩ :=
      (List.forall₂_iff_get.mp grouped.temps).2 k bound (grouped.temps.length_eq ▸ bound)
    have known := (VarTable.id?_eq_some numbered).1
    cases there.symm.trans there'
    cases here.symm.trans group'
    rcases mem_around member with rfl | rfl | rfl
    · refine old.rename fun x operand => ?_
      split
      · exact known
      · exact old.operands x operand
    · exact ⟨by simp [Instruction.operands, known, pointer], by simp [Instruction.destination?, Operand.isVar],
        by simp [Instruction.arity?]⟩
    · exact ⟨by simp [Instruction.operands, known, pointer], by simp [Instruction.destination?],
        by simp [Instruction.arity?]⟩
  · cases here.symm.trans (grouped.kept i pair there placed)
    cases List.mem_singleton.mp member
    exact old

-- What a spill that succeeds does about its temporaries: every search for a name ends, outside the
-- names of the table as it is by then, and each temporary is part of one group.
structure Introduces (names : NameSequence) (s : Sheet) (v : VarId) (m : Spilled) (after : NameSequence) :
    Prop where
  noted : s.notes.length = s.function.body.length
  draws : ∃ used, m.function.table.names = used ++ m.temps ∧ s.function.table.names <+: used ∧
    Draws names.stem names.taken used names.next m.temps after.next
  rest : after = { names with next := after.next }
  groups : ∃ slot groups places, Grouped v slot (s.function.body.zip (s.notes.map Note.toUseDef)) m.function.table
    m.function.body m.temps groups places

end Spill

open Spill NameSequence

structure Sheet.Ready (s : Sheet) : Prop where
  sound : s.function.table.Sound
  resolvable : ∀ inst ∈ s.function.body, inst.Resolvable s.function.table
  noted : s.notes.length = s.function.body.length

namespace Sheet

variable {s : Sheet} {id : Int} {names : NameSequence} {m : Spilled}

theorem Ready.resolve (ready : s.Ready) : s.resolve.1.Ready := by
  have gains := s.function.useDefs_gains
  refine ⟨gains.sound ready.sound, fun inst member => (ready.resolvable inst member).extend gains.extends, ?_⟩
  exact (length_writeSets _ _).trans ready.noted

theorem move_introduces (ready : s.Ready) (v : VarId) (name sp : String) (names : NameSequence) :
    Introduces names s v (Spill.move s v name sp names).1 (Spill.move s v name sp names).2 ∧
      (Sheet.ofFunction (Spill.move s v name sp names).1.function).Ready := by
  have grown := VarTable.intern_extends s.function.table sp
  have sound := VarTable.intern_sound ready.sound sp
  have pointer := VarTable.intern_lt_size s.function.table sp
  have resolvable : ∀ pair ∈ s.function.body.zip (s.notes.map Note.toUseDef),
      pair.1.Resolvable (s.function.table.intern sp).2 := fun pair member =>
    (ready.resolvable pair.1 (List.of_mem_zip member).1).extend grown
  obtain ⟨draws, rest, table⟩ := moveOut_draws v ⟨(s.function.table.intern sp).1, s.function.slotOffset⟩
    (s.function.table.intern sp).2 names (s.function.body.zip (s.notes.map Note.toUseDef))
  obtain ⟨groups, places, grouped, -⟩ := moveOut_grouped v
    ⟨(s.function.table.intern sp).1, s.function.slotOffset⟩ (s.function.table.intern sp).2 names sound
    (Nat.le_refl _) pointer fun pair member => (resolvable pair member).operands
  have extended := VarTable.internAll_extends (s.function.table.intern sp).2 (Spill.move s v name sp names).1.temps
  rw [← move_table] at extended
  refine ⟨⟨ready.noted, ⟨_, table, grown.vars.map _, draws⟩, rest, _, groups, places, grouped⟩, ?_, ?_,
    by simp [ofFunction]⟩
  · show (Spill.move s v name sp names).1.function.table.Sound
    rw [move_table]
    exact VarTable.internAll_sound sound _
  · exact grouped.resolvable extended pointer resolvable

theorem spill_failed {e : SpillError} (failed : (s.spill id names).2.2 = .error e) :
    (s.spill id names).2.1 = names := by
  rcases s.spill_cases id names with ⟨_, refused⟩ | ⟨_, ended⟩ | ⟨_, _, -, -, moved⟩
  · rw [refused]
  · rw [ended]
  · rw [moved] at failed
    cases failed

theorem Ready.spill (ready : s.Ready) (id : Int) (names : NameSequence) : (s.spill id names).1.Ready := by
  rcases s.spill_cases id names with ⟨_, refused⟩ | ⟨_, ended⟩ | ⟨_, _, -, -, moved⟩
  · rw [refused]
    exact ready
  · rw [ended]
    exact ready.resolve
  · rw [moved]
    exact ready.resolve

theorem Ready.introduces (ready : s.Ready) (done : (s.spill id names).2.2 = .ok m) :
    Introduces names (s.spill id names).1 id.toNat m (s.spill id names).2.1 ∧
      (Sheet.ofFunction m.function).Ready := by
  obtain ⟨v, sp, -, -, rfl, moved⟩ := spill_moved done
  rw [moved]
  exact move_introduces ready.resolve _ _ _ _

theorem Ready.references_iff {rf : RegisterFile} (ready : s.Ready) (accepted : rf.Accepted)
    (convention : s.function.convention = some rf) (done : (s.spill id names).2.2 = .ok m) :
    List.Forall₂ (fun inst note => References id.toNat note.toUseDef ↔ .var id.toNat ∈ inst.operands)
      (s.spill id names).1.function.body (s.spill id names).1.notes := by
  obtain ⟨var, sp, got, checked, -, moved⟩ := spill_moved done
  obtain ⟨sets, t, found, grown, sound, -, described⟩ :=
    Function.useDefs_describe accepted ready.sound convention ready.resolvable
  have count : s.notes.length = sets.length := ready.noted.trans described.length_eq
  have written : s.resolve.1.notes.map Note.toUseDef = sets := by
    simp only [Sheet.resolve, found, writeSets_eq_zipWith count]
    exact List.ext_getElem (by simp [count]) (by simp)
  have entry := VarTable.get_ok got
  have known : id.toNat < s.function.table.size := (List.getElem?_eq_some_iff.mp entry).1
  have virtual : t.isRegister id.toNat = false := by
    rw [grown.isRegister known, VarTable.isRegister, entry]
    exact check_virtual checked
  have referring : List.Forall₂ (fun inst set => References id.toNat set ↔ .var id.toNat ∈ inst.operands)
      s.function.body sets := by
    refine described.imp fun inst set describes => ?_
    have shown := shown_of_describes accepted (Nat.lt_of_lt_of_le known grown.size_le) virtual sound
      (grown.convention.trans convention) describes
    rw [References, shown.used, shown.defined, Instruction.mem_operands_iff]
  rw [← written, List.forall₂_map_right_iff] at referring
  rw [moved]
  exact referring

end Sheet

namespace Spill

-- Some spills that share a sequence of names. Each is made of one of the functions at hand.
structure Series where
  sheets : List Sheet
  names : NameSequence
  drawn : List String := []

namespace Series

def call (series : Series) (i : Nat) (id : Int) : Series :=
  match series.sheets[i]? with
  | none => series
  | some s =>
    match s.spill id series.names with
    | (s', names, .error _) => { series with sheets := series.sheets.set i s', names }
    | (s', names, .ok m) =>
      { sheets := series.sheets.set i s' ++ [Sheet.ofFunction m.function], names, drawn := series.drawn ++ m.temps }

def run (series : Series) : List (Nat × Int) → Series
  | [] => series
  | (i, id) :: rest => (series.call i id).run rest

structure Keeps (names : NameSequence) (series : Series) : Prop where
  stem : series.names.stem = names.stem
  taken : series.names.taken = names.taken
  ready : ∀ s ∈ series.sheets, s.Ready
  past : ∀ name ∈ series.drawn, ∃ n < series.names.next, name = nameAt names.stem n

variable {names : NameSequence} {series : Series}

theorem Keeps.call (keeps : Keeps names series) (i : Nat) (id : Int) : Keeps names (series.call i id) := by
  unfold Series.call
  cases here : series.sheets[i]? with
  | none => exact keeps
  | some s =>
    dsimp only
    have ready := keeps.ready s (List.mem_of_getElem? here)
    have replaced : ∀ s' ∈ series.sheets.set i (s.spill id series.names).1, s'.Ready := by
      intro s' member
      rcases List.mem_or_eq_of_mem_set member with old | rfl
      · exact keeps.ready s' old
      · exact ready.spill id series.names
    cases spilled : s.spill id series.names with
    | mk s' rest =>
      obtain ⟨after, result⟩ := rest
      rw [spilled] at replaced
      cases result with
      | error e =>
        have same := Sheet.spill_failed (show (s.spill id series.names).2.2 = .error e by rw [spilled])
        rw [spilled] at same
        cases same
        exact ⟨keeps.stem, keeps.taken, replaced, keeps.past⟩
      | ok m =>
        obtain ⟨introduced, made⟩ := ready.introduces (show (s.spill id series.names).2.2 = .ok m by rw [spilled])
        rw [spilled] at introduced
        obtain ⟨used, -, -, draws⟩ := introduced.draws
        obtain ⟨bound, numbers⟩ := draws.numbered
        refine ⟨(congrArg NameSequence.stem introduced.rest).trans keeps.stem,
          (congrArg NameSequence.taken introduced.rest).trans keeps.taken,
          List.forall_mem_append.mpr ⟨replaced, List.forall_mem_singleton.mpr made⟩,
          List.forall_mem_append.mpr ⟨fun name member => ?_, fun name member => ?_⟩⟩
        · obtain ⟨n, early, named⟩ := keeps.past name member
          exact ⟨n, Nat.lt_of_lt_of_le early bound, named⟩
        · obtain ⟨n, -, early, named⟩ := numbers name member
          exact ⟨n, early, keeps.stem ▸ named⟩

theorem Keeps.run (keeps : Keeps names series) (calls : List (Nat × Int)) : Keeps names (series.run calls) := by
  induction calls generalizing series with
  | nil => exact keeps
  | cons call rest ih => exact ih (keeps.call call.1 call.2)

def start (s : Sheet) (names : NameSequence) : Series := { sheets := [s], names }

theorem keeps_start {s : Sheet} (names : NameSequence) (sound : s.function.table.Sound)
    (clean : s.function.problems = []) (noted : s.notes.length = s.function.body.length) :
    Keeps names (start s names) := by
  refine ⟨rfl, rfl, List.forall_mem_singleton.mpr ⟨sound, fun inst member => ?_, noted⟩, by simp [start]⟩
  exact Validation.resolvable_of_clean ((s.function.problems_eq_nil_iff.mp clean).2.2 inst member).1

end Series

-- However spills follow one another, what one of them introduces is fresh.
theorem temporaries_fresh {s : Sheet} (names : NameSequence) (sound : s.function.table.Sound)
    (clean : s.function.problems = []) (noted : s.notes.length = s.function.body.length)
    (calls : List (Nat × Int)) {series : Series} (went : (Series.start s names).run calls = series) {old new : Sheet}
    (member : old ∈ series.sheets) {id : Int} {after : NameSequence} {result : Except SpillError Spilled}
    (spilled : old.spill id series.names = (new, after, result)) :
    (∀ e, result = .error e → after = series.names) ∧
      ∀ m, result = .ok m →
        Introduces series.names new id.toNat m after ∧ m.temps.Nodup ∧
        (∀ name ∈ m.temps, (∃ n : Nat, name = names.stem ++ toString n) ∧ name ∉ names.taken ∧
          name ∉ new.function.table.names ∧ name ∉ series.drawn) ∧
        ∀ cfg rf, RegisterFile.ofConfig cfg = .ok rf → old.function.convention = some rf →
          List.Forall₂ (fun inst note => References id.toNat note.toUseDef ↔ .var id.toNat ∈ inst.operands)
            new.function.body new.notes := by
  have keeps : series.Keeps names := went ▸ (Series.keeps_start names sound clean noted).run calls
  have ready := keeps.ready old member
  refine ⟨fun e failed => ?_, fun m done => ?_⟩
  · subst failed
    have same := Sheet.spill_failed (show (old.spill id series.names).2.2 = .error e by rw [spilled])
    rwa [spilled] at same
  · subst done
    have done : (old.spill id series.names).2.2 = .ok m := by rw [spilled]
    have introduced := (ready.introduces done).1
    rw [spilled] at introduced
    obtain ⟨used, -, kept, draws⟩ := introduced.draws
    refine ⟨introduced, draws.nodup, fun name member => ?_, fun cfg rf configured convention => ?_⟩
    · obtain ⟨n, late, -, named⟩ := draws.numbered.2 name member
      rw [keeps.stem] at named
      refine ⟨⟨n, named⟩, keeps.taken ▸ draws.not_taken name member, fun listed => ?_, fun again => ?_⟩
      · exact draws.not_used name member (kept.subset listed)
      · obtain ⟨n', early, named'⟩ := keeps.past name again
        have same := nameAt_injective (named.symm.trans named')
        omega
    · have referring := ready.references_iff (RegisterFile.accepted_of_ofConfig configured) convention done
      rwa [spilled] at referring

def lookalike : Function where
  name := "@f"
  args := 1
  table := (VarTable.internAll { convention := some (.draft Allocation.threeRegisters) } ["%a", "%s0", "rdi", "rax"]).2
  body := [.assign (.var 0) (.var 2), .assign (.var 1) (.var 0), .arith .add (.var 0) (.var 1),
    .assign (.var 3) (.var 0), .ret]

def lookalikeSpills : Series :=
  (Series.start (.ofFunction lookalike) { stem := "%s", taken := ["%s2"] }).run [(0, 0), (1, 0)]

theorem temporaries_fresh_lookalike : lookalikeSpills.drawn = ["%s1", "%s3", "%s4", "%s5"] ∧
    ∃ old m, lookalikeSpills.sheets[1]? = some old ∧ (old.spill 1 lookalikeSpills.names).2.2 = .ok m ∧
      m.temps = ["%s6", "%s7"] ∧
      Introduces lookalikeSpills.names (old.spill 1 lookalikeSpills.names).1 1 m
        (old.spill 1 lookalikeSpills.names).2.1 := by
  have computed : (lookalikeSpills.sheets[1]?.bind fun old =>
      (old.spill 1 lookalikeSpills.names).2.2.toOption.map (·.temps)) = some ["%s6", "%s7"] := by decide +kernel
  obtain ⟨old, here, spilled⟩ := Option.bind_eq_some_iff.mp computed
  obtain ⟨m, done, temps⟩ := Option.map_eq_some_iff.mp spilled
  have done : (old.spill 1 lookalikeSpills.names).2.2 = .ok m := by
    cases result : (old.spill 1 lookalikeSpills.names).2.2 with
    | error e => simp [result, Except.toOption] at done
    | ok m' =>
      rw [result] at done
      exact congrArg Except.ok (Option.some.inj done)
  have fresh := (temporaries_fresh { stem := "%s", taken := ["%s2"] } (s := .ofFunction lookalike)
    (VarTable.internAll_sound (VarTable.empty_sound _) _) (by decide +kernel) rfl [(0, 0), (1, 0)] rfl
    (List.mem_of_getElem? here) rfl).2 m done
  exact ⟨by decide +kernel, old, m, here, done, temps, fresh.1⟩

end Spill

end RegisterAllocation
