import RegisterAllocation.Proofs.Graphs
import RegisterAllocation.Proofs.ValidFunctions

namespace RegisterAllocation

-- What an interference graph needs of an analysis, be the function valid or not: its table was filled by
-- interning names, the stack pointer has a number that is in no set, and the liveness is that of the
-- notes.
structure Sheet.Prepared (rf : RegisterFile) (s : Sheet) (lv : Liveness) : Prop where
  sound : s.function.table.Sound
  pointer : rf.sp ∈ s.function.table.names
  apart : ∀ x ∈ s.referenced, s.function.table.nameOf x ≠ rf.sp
  live : lv.Solves s.notes

theorem Sheet.Analyzed.prepared {rf : RegisterFile} {s : Sheet} {lv : Liveness} (accepted : rf.Accepted)
    (analyzed : s.Analyzed rf lv) : s.Prepared rf lv :=
  ⟨analyzed.valid.sound, analyzed.pointer, fun _ member => analyzed.referenced_ne_sp accepted member,
    analyzed.live⟩

theorem Sheet.Prepared.withTable {rf : RegisterFile} {s : Sheet} {lv : Liveness} {t : VarTable}
    (prepared : s.Prepared rf lv) (accepted : rf.Accepted) (grown : s.function.table.Extends t)
    (sound : t.Sound) : (s.withTable t).Prepared rf lv := by
  refine ⟨sound, grown.mem_names prepared.pointer, fun x member named => ?_, prepared.live⟩
  obtain ⟨sp, known, same⟩ := VarTable.exists_of_mem_names prepared.pointer
  have bound : x < t.size := VarTable.lt_size_of_named (named ▸ accepted.sp_named)
  have equal : sp = x := VarTable.nameOf_inj sound (Nat.lt_of_lt_of_le known grown.size_le) bound
    ((grown.nameOf known).trans (same.trans named.symm))
  exact prepared.apart x member (equal ▸ same)

namespace Graph

variable {rf : RegisterFile} {s : Sheet} {lv : Liveness} {g : Graph} {x y : VarId} {c : Nat}

def Allocatable (rf : RegisterFile) (t : VarTable) (x : VarId) : Prop :=
  x < t.size ∧ t.nameOf x ∈ rf.registers

-- One of the two is written by an instruction that the other one outlives.
def Conflict (s : Sheet) (lv : Liveness) (x y : VarId) : Prop :=
  ∃ i note, s.notes[i]? = some note ∧
    ((x ∈ note.defined ∧ y ∈ lv.liveOut i) ∨ (y ∈ note.defined ∧ x ∈ lv.liveOut i))

structure Interferes (rf : RegisterFile) (s : Sheet) (lv : Liveness) (g : Graph) : Prop where
  formed : g.WellFormed
  node : ∀ x, x ∈ g.adj ↔ Allocatable rf s.function.table x ∨ x ∈ s.referenced
  edge : ∀ x y, y ∈ g.neighborSet x ↔ x ≠ y ∧
    ((Allocatable rf s.function.table x ∧ Allocatable rf s.function.table y) ∨ Conflict s lv x y)
  color : ∀ x c, g.color? x = some c ↔
    x < s.function.table.size ∧ rf.registers[c]? = some (s.function.table.nameOf x)

theorem mem_foldl_addNode (list : List VarId) (g : Graph) :
    x ∈ (list.foldl addNode g).adj ↔ x ∈ g.adj ∨ x ∈ list := by
  induction list generalizing g with
  | nil => simp
  | cons v rest ih =>
    rw [List.foldl_cons, ih, mem_addNode, List.mem_cons]
    tauto

theorem mem_neighborSet_foldl_addConflicts (sp : Option VarId) (rows : List (Note × VarSet)) (g : Graph) :
    y ∈ (rows.foldl (fun g row => addConflicts sp g row.1 row.2) g).neighborSet x ↔
      y ∈ g.neighborSet x ∨ (x ≠ y ∧ sp ≠ some x ∧ sp ≠ some y ∧
        ∃ row ∈ rows, (x ∈ row.1.defined ∧ y ∈ row.2) ∨ (y ∈ row.1.defined ∧ x ∈ row.2)) := by
  induction rows generalizing g with
  | nil => simp
  | cons row rest ih =>
    rw [List.foldl_cons, ih, mem_neighborSet_addConflicts]
    simp only [List.exists_mem_cons_iff]
    grind

theorem mem_zip_outs (live : lv.Solves s.notes) {row : Note × VarSet} :
    row ∈ s.notes.zip lv.outs.toList ↔
      ∃ i, s.notes[i]? = some row.1 ∧ lv.liveOut i = row.2 := by
  rw [List.mem_iff_getElem?]
  refine exists_congr fun i => ?_
  rw [List.getElem?_zip_eq_some]
  refine and_congr_right fun here => ?_
  have inside : i < lv.outs.size := by
    rw [live.outs_size]
    exact (List.getElem?_eq_some_iff.mp here).1
  simp [Liveness.liveOut, Array.getD_eq_getD_getElem?, inside]

theorem allocatable_of_intern (sound : s.function.table.Sound) :
    x ∈ (s.function.table.internAll rf.registers).1 ↔
      Allocatable rf (s.function.table.internAll rf.registers).2 x :=
  VarTable.mem_internAll sound

theorem color_of_intern (sound : s.function.table.Sound) :
    (s.function.table.internAll rf.registers).1[c]? = some x ↔
      x < (s.function.table.internAll rf.registers).2.size ∧
        rf.registers[c]? = some ((s.function.table.internAll rf.registers).2.nameOf x) := by
  have named := VarTable.map_nameOf_internAll s.function.table rf.registers
  have sound' := VarTable.internAll_sound sound rf.registers
  constructor
  · intro found
    refine ⟨VarTable.internAll_lt_size _ _ x (List.mem_of_getElem? found), ?_⟩
    rw [← named, List.getElem?_map, named, found]
    rfl
  · intro h
    obtain ⟨known, found⟩ := h
    rw [← named, List.getElem?_map, named, Option.map_eq_some_iff] at found
    obtain ⟨other, there, same⟩ := found
    have bound := VarTable.internAll_lt_size _ _ other (List.mem_of_getElem? there)
    rwa [VarTable.nameOf_inj sound' bound known same] at there

theorem sp_not_node (accepted : rf.Accepted) (prepared : s.Prepared rf lv)
    (node : x ∈ (s.function.table.internAll rf.registers).1 ∨ x ∈ s.referenced) :
    s.function.table.id? rf.sp ≠ some x := by
  intro same
  obtain ⟨known, named⟩ := (VarTable.id?_eq_some_iff prepared.sound).mp same
  cases node with
  | inl register =>
    obtain ⟨-, allocatable⟩ := (allocatable_of_intern prepared.sound).mp register
    rw [(VarTable.internAll_extends _ _).nameOf known, named] at allocatable
    exact accepted.sp_apart allocatable
  | inr member => exact prepared.apart x member named

def bare (s : Sheet) (rf : RegisterFile) : Graph :=
  (s.referenced.toList.filter fun id => s.function.table.id? rf.sp ≠ some id).foldl addNode
    (ofRegisters (s.function.table.internAll rf.registers).1)

theorem build_fst (s : Sheet) (lv : Liveness) (rf : RegisterFile) :
    (build s lv rf).1 = (s.notes.zip lv.outs.toList).foldl
      (fun g row => addConflicts (s.function.table.id? rf.sp) g row.1 row.2) (bare s rf) := rfl

theorem build_snd (s : Sheet) (lv : Liveness) (rf : RegisterFile) :
    (build s lv rf).2 = s.withTable (s.function.table.internAll rf.registers).2 := rfl

theorem mem_bare (accepted : rf.Accepted) (prepared : s.Prepared rf lv) :
    x ∈ (bare s rf).adj ↔
      x ∈ (s.function.table.internAll rf.registers).1 ∨ x ∈ s.referenced := by
  rw [bare, mem_foldl_addNode, mem_ofRegisters, List.mem_filter, Std.ExtTreeSet.mem_toList]
  refine or_congr_right (and_iff_left_of_imp fun member => ?_)
  simpa using sp_not_node accepted prepared (.inr member)

theorem neighborSet_bare :
    (bare s rf).neighborSet x =
      (ofRegisters (s.function.table.internAll rf.registers).1).neighborSet x :=
  foldl_keeps (P := fun g => g.neighborSet x = (ofRegisters _).neighborSet x) _
    (fun _ _ _ same => neighborSet_addNode.trans same) rfl

theorem color?_bare :
    (bare s rf).color? x = (ofRegisters (s.function.table.internAll rf.registers).1).color? x :=
  foldl_keeps (P := fun g => g.color? x = (ofRegisters _).color? x) _
    (fun _ _ _ same => color?_addNode.trans same) rfl

theorem bare_wellFormed : (bare s rf).WellFormed :=
  foldl_keeps _ (fun _ v _ formed => formed.addNode v) (ofRegisters_wellFormed _)

theorem mem_build (accepted : rf.Accepted) (prepared : s.Prepared rf lv) :
    x ∈ (build s lv rf).1.adj ↔ x ∈ (bare s rf).adj := by
  -- Conflicts join variables that are referenced, so they bring no new nodes.
  rw [build_fst]
  refine foldl_keeps (P := fun g => x ∈ g.adj ↔ x ∈ (bare s rf).adj) _
    (fun g row member same => ?_) Iff.rfl
  obtain ⟨i, here, out⟩ := (mem_zip_outs prepared.live).mp member
  refine addConflicts_keeps (P := fun g => x ∈ g.adj ↔ x ∈ (bare s rf).adj) _ _ _
    (fun g' d defined v live same' => ?_) same
  have left : d ∈ (bare s rf).adj := (mem_bare accepted prepared).mpr
    (.inr (Sheet.mem_referenced.mpr ⟨row.1, List.mem_of_getElem? here, .inr defined⟩))
  have right : v ∈ (bare s rf).adj := (mem_bare accepted prepared).mpr
    (.inr ((Sheet.solved_referenced prepared.live).2 i v (out ▸ live)))
  rw [mem_addEdge, same']
  refine ⟨?_, .inl⟩
  intro either
  rcases either with old | ⟨-, rfl | rfl⟩
  exacts [old, left, right]

theorem color?_build : (build s lv rf).1.color? x = (bare s rf).color? x :=
  foldl_keeps (P := fun g => g.color? x = (bare s rf).color? x) _ (fun _ _ _ same =>
    addConflicts_keeps (P := fun g => g.color? x = (bare s rf).color? x) _ _ _
      (fun _ _ _ _ _ same' => color?_addEdge.trans same') same) rfl

theorem build_wellFormed : (build s lv rf).1.WellFormed :=
  foldl_keeps _ (fun _ _ _ formed => addConflicts_keeps _ _ _
    (fun _ d _ v _ formed' => formed'.addEdge d v) formed) bare_wellFormed

theorem conflict_iff (live : lv.Solves s.notes) :
    (∃ row ∈ s.notes.zip lv.outs.toList,
      (x ∈ row.1.defined ∧ y ∈ row.2) ∨ (y ∈ row.1.defined ∧ x ∈ row.2)) ↔ Conflict s lv x y := by
  constructor
  · intro h
    obtain ⟨row, member, ends⟩ := h
    obtain ⟨i, here, out⟩ := (mem_zip_outs live).mp member
    exact ⟨i, row.1, here, out ▸ ends⟩
  · intro h
    obtain ⟨i, note, here, ends⟩ := h
    exact ⟨(note, lv.liveOut i), (mem_zip_outs live).mpr ⟨i, here, rfl⟩, ends⟩

theorem Conflict.referenced (solved : lv.Solves s.notes) (conflict : Conflict s lv x y) :
    x ∈ s.referenced ∧ y ∈ s.referenced := by
  obtain ⟨i, note, here, ends⟩ := conflict
  have written : ∀ v ∈ note.defined, v ∈ s.referenced := fun v defined =>
    Sheet.mem_referenced.mpr ⟨note, List.mem_of_getElem? here, .inr defined⟩
  have outlived := (Sheet.solved_referenced solved).2 i
  rcases ends with ⟨defined, live⟩ | ⟨defined, live⟩
  · exact ⟨written x defined, outlived y live⟩
  · exact ⟨outlived x live, written y defined⟩

def Outlived (rf : RegisterFile) (s : Sheet) (lv : Liveness) (x y : VarId) : Prop :=
  ∃ i inst, s.function.body[i]? = some inst ∧ inst.Defines rf s.function.table x ∧ y ∈ lv.liveOut i

theorem conflict_iff_outlived (analyzed : s.Analyzed rf lv) :
    Conflict s lv x y ↔ Outlived rf s lv x y ∨ Outlived rf s lv y x := by
  constructor
  · intro h
    obtain ⟨i, note, noted, ends⟩ := h
    obtain ⟨inst, here, described⟩ := analyzed.inst_of_note noted
    rcases ends with ⟨defined, out⟩ | ⟨defined, out⟩
    · exact .inl ⟨i, inst, here, (described.defined x).mp defined, out⟩
    · exact .inr ⟨i, inst, here, (described.defined y).mp defined, out⟩
  · intro either
    rcases either with ⟨i, inst, here, defines, out⟩ | ⟨i, inst, here, defines, out⟩
    all_goals obtain ⟨note, noted, described⟩ := analyzed.note_of_inst here
    · exact ⟨i, note, noted, .inl ⟨(described.defined x).mpr defines, out⟩⟩
    · exact ⟨i, note, noted, .inr ⟨(described.defined y).mpr defines, out⟩⟩

theorem prepared_interferes (accepted : rf.Accepted) (prepared : s.Prepared rf lv) :
    Interferes rf (build s lv rf).2 lv (build s lv rf).1 := by
  have distinct : (s.function.table.internAll rf.registers).1.Nodup := by
    refine List.Nodup.of_map (s.function.table.internAll rf.registers).2.nameOf ?_
    rw [VarTable.map_nameOf_internAll]
    exact accepted.distinct
  refine ⟨build_wellFormed, fun x => ?_, fun x y => ?_, fun x c => ?_⟩
  · rw [mem_build accepted prepared, mem_bare accepted prepared]
    exact or_congr_left (allocatable_of_intern prepared.sound)
  · rw [build_fst, mem_neighborSet_foldl_addConflicts, neighborSet_bare, mem_neighborSet_ofRegisters,
      allocatable_of_intern prepared.sound, allocatable_of_intern prepared.sound, conflict_iff prepared.live]
    constructor
    · intro either
      rcases either with ⟨apart, both⟩ | ⟨apart, -, -, conflict⟩
      · exact ⟨apart, .inl both⟩
      · exact ⟨apart, .inr conflict⟩
    · intro h
      obtain ⟨apart, both | conflict⟩ := h
      · exact .inl ⟨apart, both⟩
      · have known := Conflict.referenced prepared.live conflict
        exact .inr ⟨apart, sp_not_node accepted prepared (.inr known.1),
          sp_not_node accepted prepared (.inr known.2), conflict⟩
  · rw [color?_build, color?_bare, color?_ofRegisters _ distinct, color_of_intern prepared.sound]
    rfl

theorem build_interferes (accepted : rf.Accepted) (analyzed : s.Analyzed rf lv) :
    Interferes rf (build s lv rf).2 lv (build s lv rf).1 :=
  prepared_interferes accepted (analyzed.prepared accepted)

theorem build_analyzed (analyzed : s.Analyzed rf lv) : (build s lv rf).2.Analyzed rf lv :=
  analyzed.withTable (VarTable.internAll_extends _ _) (VarTable.internAll_sound analyzed.valid.sound _)

namespace Interferes

variable (interferes : Interferes rf s lv g)

include interferes

theorem allocatable_of_color (colored : g.color? x = some c) : Allocatable rf s.function.table x :=
  have found := (interferes.color x c).mp colored
  ⟨found.1, List.mem_of_getElem? found.2⟩

theorem color_of_allocatable (allocatable : Allocatable rf s.function.table x) :
    ∃ c, g.color? x = some c := by
  obtain ⟨c, found⟩ := List.mem_iff_getElem?.mp allocatable.2
  exact ⟨c, (interferes.color x c).mpr ⟨allocatable.1, found⟩⟩

theorem color_iff (accepted : rf.Accepted) : g.color? x = some c ↔
    Allocatable rf s.function.table x ∧ rf.color? (s.function.table.nameOf x) = some c := by
  rw [interferes.color, RegisterFile.color?_eq_some_iff accepted]
  constructor
  · intro h
    obtain ⟨known, found⟩ := h
    exact ⟨⟨known, List.mem_of_getElem? found⟩, found⟩
  · intro h
    obtain ⟨allocatable, found⟩ := h
    exact ⟨allocatable.1, found⟩

theorem existsUnique_color (sound : s.function.table.Sound)
    (registers : ∀ r ∈ rf.registers, r ∈ s.function.table.names) (inside : c < rf.k) :
    ∃! x, g.color? x = some c := by
  have found : rf.registers[c]? = some (rf.registers[c]) := List.getElem?_eq_getElem inside
  obtain ⟨x, known, named⟩ := VarTable.exists_of_mem_names (registers _ (List.mem_of_getElem? found))
  refine ⟨x, (interferes.color x c).mpr ⟨known, named ▸ found⟩, fun y colored => ?_⟩
  obtain ⟨bound, other⟩ := (interferes.color y c).mp colored
  exact VarTable.nameOf_inj sound bound known ((Option.some.inj (other.symm.trans found)).trans named.symm)

theorem node_lt_size (analyzed : s.Analyzed rf lv) (node : x ∈ g.adj) : x < s.function.table.size :=
  ((interferes.node x).mp node).elim (·.1) analyzed.referenced_lt_size

theorem node_ne_sp (accepted : rf.Accepted) (analyzed : s.Analyzed rf lv) (node : x ∈ g.adj) :
    s.function.table.nameOf x ≠ rf.sp := by
  rcases (interferes.node x).mp node with allocatable | member
  · exact accepted.ne_sp allocatable.2
  · exact analyzed.referenced_ne_sp accepted member

theorem isRegister_iff (accepted : rf.Accepted) (analyzed : s.Analyzed rf lv) (node : x ∈ g.adj) :
    s.function.table.isRegister x = true ↔ ∃ c, g.color? x = some c := by
  have known := interferes.node_lt_size analyzed node
  rw [VarTable.isRegister_eq analyzed.valid.sound analyzed.valid.convention known,
    RegisterFile.isRegister_iff]
  constructor
  · intro register
    have named := register.resolve_left (interferes.node_ne_sp accepted analyzed node)
    exact interferes.color_of_allocatable ⟨known, named⟩
  · intro h
    obtain ⟨c, colored⟩ := h
    exact .inr (interferes.allocatable_of_color colored).2

theorem color?_eq_none_iff (accepted : rf.Accepted) (analyzed : s.Analyzed rf lv) (node : x ∈ g.adj) :
    g.color? x = none ↔ s.function.table.isRegister x = false := by
  rw [Bool.eq_false_iff, ne_eq, interferes.isRegister_iff accepted analyzed node,
    Option.eq_none_iff_forall_ne_some, not_exists]

end Interferes

end Graph

end RegisterAllocation
