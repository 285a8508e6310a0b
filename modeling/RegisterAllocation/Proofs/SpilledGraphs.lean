import RegisterAllocation.Proofs.SpilledLiveness
import RegisterAllocation.Proofs.AllocatedFunctions

namespace RegisterAllocation

open Spill

namespace Graph

-- A graph as the names tell it: who is a node, who is joined with whom, and who has which color from
-- the start.
def HasNamed (g : Graph) (t : VarTable) (a : String) : Prop := ∃ x ∈ g.nodes, t.nameOf x = a

def JoinsNamed (g : Graph) (t : VarTable) (a b : String) : Prop :=
  ∃ x, ∃ y ∈ g.neighbors x, t.nameOf x = a ∧ t.nameOf y = b

def ColorsNamed (g : Graph) (t : VarTable) (a : String) (c : Nat) : Prop :=
  ∃ x, g.color? x = some c ∧ t.nameOf x = a

section Named

variable {rf : RegisterFile} {s : Sheet} {lv : Liveness} {a b : String} {c : Nat} {v : VarId}
  (accepted : rf.Accepted) (analyzed : s.Analyzed rf lv)

theorem exists_allocatable (s : Sheet) (lv : Liveness) (register : a ∈ rf.registers) :
    ∃ x, Allocatable rf (build s lv rf).2.function.table x ∧ (build s lv rf).2.function.table.nameOf x = a := by
  obtain ⟨x, known, rfl⟩ := VarTable.exists_of_mem_names
    (VarTable.mem_names_internAll s.function.table rf.registers a register)
  exact ⟨x, ⟨known, register⟩, rfl⟩

theorem build_grown (s : Sheet) (lv : Liveness) (rf : RegisterFile) :
    s.function.table.Extends (build s lv rf).2.function.table := VarTable.internAll_extends _ _

include accepted analyzed

theorem hasNamed_build : (build s lv rf).1.HasNamed (build s lv rf).2.function.table a ↔
    a ∈ rf.registers ∨ ∃ x ∈ s.referenced, s.function.table.nameOf x = a := by
  have interferes := build_interferes accepted analyzed
  have grown := build_grown s lv rf
  constructor
  · intro h
    obtain ⟨x, node, rfl⟩ := h
    rcases (interferes.node x).mp (mem_nodes.mp node) with allocatable | referenced
    · exact .inl allocatable.2
    · exact .inr ⟨x, referenced, (grown.nameOf (analyzed.referenced_lt_size referenced)).symm⟩
  · intro either
    rcases either with register | ⟨x, referenced, rfl⟩
    · obtain ⟨x, allocatable, rfl⟩ := exists_allocatable s lv register
      exact ⟨x, mem_nodes.mpr ((interferes.node x).mpr (.inl allocatable)), rfl⟩
    · exact ⟨x, mem_nodes.mpr ((interferes.node x).mpr (.inr referenced)),
        grown.nameOf (analyzed.referenced_lt_size referenced)⟩

theorem joinsNamed_build : (build s lv rf).1.JoinsNamed (build s lv rf).2.function.table a b ↔ a ≠ b ∧
    ((a ∈ rf.registers ∧ b ∈ rf.registers) ∨
      ∃ x y, Conflict s lv x y ∧ s.function.table.nameOf x = a ∧ s.function.table.nameOf y = b) := by
  have interferes := build_interferes accepted analyzed
  have analyzed' := build_analyzed analyzed
  have grown := build_grown s lv rf
  constructor
  · intro h
    obtain ⟨x, y, edge, rfl, rfl⟩ := h
    have joined := mem_neighbors.mp edge
    obtain ⟨apart, either⟩ := (interferes.edge x y).mp joined
    have left := interferes.node_lt_size analyzed'
      (interferes.formed.node y x (interferes.formed.symm x y joined))
    have right := interferes.node_lt_size analyzed' (interferes.formed.node x y joined)
    refine ⟨fun same => apart (VarTable.nameOf_inj analyzed'.valid.sound left right same), ?_⟩
    rcases either with ⟨first, second⟩ | conflict
    · exact .inl ⟨first.2, second.2⟩
    · have known := Conflict.referenced analyzed.live conflict
      exact .inr ⟨x, y, conflict, (grown.nameOf (analyzed.referenced_lt_size known.1)).symm,
        (grown.nameOf (analyzed.referenced_lt_size known.2)).symm⟩
  · intro h
    obtain ⟨apart, ⟨first, second⟩ | ⟨x, y, conflict, rfl, rfl⟩⟩ := h
    · obtain ⟨x, left, rfl⟩ := exists_allocatable s lv first
      obtain ⟨y, right, rfl⟩ := exists_allocatable s lv second
      have differ : x ≠ y := fun same => apart (congrArg _ same)
      exact ⟨x, y, mem_neighbors.mpr ((interferes.edge x y).mpr ⟨differ, .inl ⟨left, right⟩⟩), rfl, rfl⟩
    · have known := Conflict.referenced analyzed.live conflict
      have differ : x ≠ y := fun same => apart (congrArg _ same)
      exact ⟨x, y, mem_neighbors.mpr ((interferes.edge x y).mpr ⟨differ, .inr conflict⟩),
        grown.nameOf (analyzed.referenced_lt_size known.1), grown.nameOf (analyzed.referenced_lt_size known.2)⟩

theorem colorsNamed_build : (build s lv rf).1.ColorsNamed (build s lv rf).2.function.table a c ↔
    rf.registers[c]? = some a := by
  have interferes := build_interferes accepted analyzed
  constructor
  · intro h
    obtain ⟨x, colored, rfl⟩ := h
    exact ((interferes.color x c).mp colored).2
  · intro found
    obtain ⟨x, allocatable, rfl⟩ := exists_allocatable s lv (List.mem_of_getElem? found)
    exact ⟨x, (interferes.color x c).mpr ⟨allocatable.1, found⟩, rfl⟩

theorem hasNamed_remove (known : v < s.function.table.size) :
    ((build s lv rf).1.remove v).HasNamed (build s lv rf).2.function.table a ↔
      (build s lv rf).1.HasNamed (build s lv rf).2.function.table a ∧ a ≠ s.function.table.nameOf v := by
  have interferes := build_interferes accepted analyzed
  have analyzed' := build_analyzed analyzed
  have grown := build_grown s lv rf
  have here := Nat.lt_of_lt_of_le known grown.size_le
  rw [← grown.nameOf known]
  constructor
  · intro h
    obtain ⟨x, node, rfl⟩ := h
    obtain ⟨old, apart⟩ := interferes.formed.mem_remove.mp (mem_nodes.mp node)
    have inside := interferes.node_lt_size analyzed' old
    exact ⟨⟨x, mem_nodes.mpr old, rfl⟩,
      fun same => apart (VarTable.nameOf_inj analyzed'.valid.sound inside here same)⟩
  · intro h
    obtain ⟨⟨x, node, rfl⟩, apart⟩ := h
    exact ⟨x, mem_nodes.mpr (interferes.formed.mem_remove.mpr
      ⟨mem_nodes.mp node, fun same => apart (congrArg _ same)⟩), rfl⟩

theorem joinsNamed_remove (known : v < s.function.table.size) :
    ((build s lv rf).1.remove v).JoinsNamed (build s lv rf).2.function.table a b ↔
      (build s lv rf).1.JoinsNamed (build s lv rf).2.function.table a b ∧
        a ≠ s.function.table.nameOf v ∧ b ≠ s.function.table.nameOf v := by
  have interferes := build_interferes accepted analyzed
  have analyzed' := build_analyzed analyzed
  have grown := build_grown s lv rf
  have here := Nat.lt_of_lt_of_le known grown.size_le
  rw [← grown.nameOf known]
  constructor
  · intro h
    obtain ⟨x, y, edge, rfl, rfl⟩ := h
    obtain ⟨joined, left, right⟩ := interferes.formed.mem_neighborSet_remove.mp (mem_neighbors.mp edge)
    have first := interferes.node_lt_size analyzed'
      (interferes.formed.node y x (interferes.formed.symm x y joined))
    have second := interferes.node_lt_size analyzed' (interferes.formed.node x y joined)
    exact ⟨⟨x, y, mem_neighbors.mpr joined, rfl, rfl⟩,
      fun same => left (VarTable.nameOf_inj analyzed'.valid.sound first here same),
      fun same => right (VarTable.nameOf_inj analyzed'.valid.sound second here same)⟩
  · intro h
    obtain ⟨⟨x, y, edge, rfl, rfl⟩, left, right⟩ := h
    exact ⟨x, y, mem_neighbors.mpr (interferes.formed.mem_neighborSet_remove.mpr
      ⟨mem_neighbors.mp edge, fun same => left (congrArg _ same), fun same => right (congrArg _ same)⟩),
      rfl, rfl⟩

end Named

end Graph

namespace Expanded

section Named

variable {rf : RegisterFile} {s₀ s : Sheet} {lv₀ lv : Liveness} {sp v : VarId} {tmp : Nat → VarId → VarId}
  {a b : String} (accepted : rf.Accepted) (analyzed₀ : s₀.Analyzed rf lv₀)
  (expanded : Expanded s₀.function sp [v] tmp s.function)
  (pointer : sp < s₀.function.table.size ∧ s₀.function.table.nameOf sp = rf.sp)
  (analyzed : s.Analyzed rf lv)

def Settled (f g : Function) (v : VarId) (tmp : Nat → VarId → VarId) (a : String) : Prop :=
  ∀ i, Touches f.body v i → g.table.nameOf (tmp i v) ≠ a

include accepted analyzed₀ expanded pointer analyzed

theorem settled_referenced {x : VarId}
    (settled : Settled s₀.function s.function v tmp (s.function.table.nameOf x))
    (referenced : x ∈ s.referenced) :
    x ∈ s₀.referenced ∧ x ≠ v ∧ s.function.table.nameOf x = s₀.function.table.nameOf x := by
  rcases referenced_cases accepted analyzed₀ expanded pointer analyzed referenced with
    ⟨old, stays⟩ | ⟨i, w, home, touched, rfl⟩
  · exact ⟨old, by simpa using stays, expanded.grown.nameOf (analyzed₀.referenced_lt_size old)⟩
  · cases List.mem_singleton.mp home
    exact absurd rfl (settled i touched)

omit accepted expanded pointer analyzed in
theorem name_apart (known : v < s₀.function.table.size) (virtual : s₀.function.table.isRegister v = false) :
    s₀.function.table.nameOf v ∉ rf.registers ∧
      ∀ x ∈ s₀.referenced, s₀.function.table.nameOf x ≠ s₀.function.table.nameOf v ↔ x ≠ v := by
  constructor
  · intro register
    rw [VarTable.isRegister_eq analyzed₀.valid.sound analyzed₀.valid.convention known,
      RegisterFile.isRegister_iff.mpr (.inr register)] at virtual
    cases virtual
  · intro x referenced
    refine not_congr ⟨?_, congrArg _⟩
    exact VarTable.nameOf_inj analyzed₀.valid.sound (analyzed₀.referenced_lt_size referenced) known

theorem hasNamed_spilled (settled : Settled s₀.function s.function v tmp a) :
    (Graph.build s lv rf).1.HasNamed (Graph.build s lv rf).2.function.table a ↔
      ((Graph.build s₀ lv₀ rf).1.remove v).HasNamed (Graph.build s₀ lv₀ rf).2.function.table a := by
  obtain ⟨known, virtual⟩ := expanded.originals v List.mem_cons_self
  obtain ⟨plain, apart⟩ := name_apart analyzed₀ known virtual
  rw [Graph.hasNamed_remove accepted analyzed₀ known, Graph.hasNamed_build accepted analyzed₀,
    Graph.hasNamed_build accepted analyzed]
  constructor
  · intro either
    rcases either with register | ⟨x, referenced, rfl⟩
    · exact ⟨.inl register, fun same => plain (same ▸ register)⟩
    · obtain ⟨old, differ, name⟩ :=
        settled_referenced accepted analyzed₀ expanded pointer analyzed settled referenced
      rw [name]
      exact ⟨.inr ⟨x, old, rfl⟩, (apart x old).mpr differ⟩
  · intro h
    obtain ⟨register | ⟨x, old, rfl⟩, differ⟩ := h
    · exact .inl register
    · have stays : x ∉ [v] := by simpa using (apart x old).mp differ
      exact .inr ⟨x, referenced_stays analyzed₀ expanded analyzed old stays,
        expanded.grown.nameOf (analyzed₀.referenced_lt_size old)⟩

theorem joinsNamed_spilled (left : Settled s₀.function s.function v tmp a)
    (right : Settled s₀.function s.function v tmp b) :
    (Graph.build s lv rf).1.JoinsNamed (Graph.build s lv rf).2.function.table a b ↔
      ((Graph.build s₀ lv₀ rf).1.remove v).JoinsNamed (Graph.build s₀ lv₀ rf).2.function.table a b := by
  obtain ⟨known, virtual⟩ := expanded.originals v List.mem_cons_self
  obtain ⟨plain, apart⟩ := name_apart analyzed₀ known virtual
  rw [Graph.joinsNamed_remove accepted analyzed₀ known, Graph.joinsNamed_build accepted analyzed₀,
    Graph.joinsNamed_build accepted analyzed]
  constructor
  · intro h
    obtain ⟨differ, ⟨first, second⟩ | ⟨x, y, conflict, rfl, rfl⟩⟩ := h
    · exact ⟨⟨differ, .inl ⟨first, second⟩⟩, fun same => plain (same ▸ first), fun same => plain (same ▸ second)⟩
    · have ends := Graph.Conflict.referenced analyzed.live conflict
      obtain ⟨first, firstApart, firstName⟩ :=
        settled_referenced accepted analyzed₀ expanded pointer analyzed left ends.1
      obtain ⟨second, secondApart, secondName⟩ :=
        settled_referenced accepted analyzed₀ expanded pointer analyzed right ends.2
      have conflict₀ := ((conflict_stays accepted analyzed₀ expanded pointer analyzed
        (analyzed₀.referenced_lt_size first) (analyzed₀.referenced_lt_size second)).mp conflict).1
      rw [firstName, secondName] at differ ⊢
      exact ⟨⟨differ, .inr ⟨x, y, conflict₀, rfl, rfl⟩⟩, (apart x first).mpr firstApart,
        (apart y second).mpr secondApart⟩
  · intro h
    obtain ⟨⟨differ, ⟨first, second⟩ | ⟨x, y, conflict₀, rfl, rfl⟩⟩, leftApart, rightApart⟩ := h
    · exact ⟨differ, .inl ⟨first, second⟩⟩
    · have ends := Graph.Conflict.referenced analyzed₀.live conflict₀
      have first := analyzed₀.referenced_lt_size ends.1
      have second := analyzed₀.referenced_lt_size ends.2
      have stays : x ∉ [v] ∧ y ∉ [v] := by
        simpa using And.intro ((apart x ends.1).mp leftApart) ((apart y ends.2).mp rightApart)
      have conflict := (conflict_stays accepted analyzed₀ expanded pointer analyzed first second).mpr
        ⟨conflict₀, stays⟩
      exact ⟨differ, .inr ⟨x, y, conflict, expanded.grown.nameOf first, expanded.grown.nameOf second⟩⟩

omit expanded pointer in
theorem colorsNamed_spilled {c : Nat} :
    (Graph.build s lv rf).1.ColorsNamed (Graph.build s lv rf).2.function.table a c ↔
      ((Graph.build s₀ lv₀ rf).1.remove v).ColorsNamed (Graph.build s₀ lv₀ rf).2.function.table a c := by
  have kept : ((Graph.build s₀ lv₀ rf).1.remove v).ColorsNamed (Graph.build s₀ lv₀ rf).2.function.table a c ↔
      (Graph.build s₀ lv₀ rf).1.ColorsNamed (Graph.build s₀ lv₀ rf).2.function.table a c := by
    unfold Graph.ColorsNamed
    exact exists_congr fun x => by rw [Graph.build_wellFormed.color?_remove]
  rw [kept, Graph.colorsNamed_build accepted analyzed, Graph.colorsNamed_build accepted analyzed₀]

end Named

-- What a spill leaves: around the groups the same variables are live as around the instructions, and
-- the same conflicts stand, all without the variable that went. A temporary lives within one group.
structure Leaves (rf : RegisterFile) (s₀ : Sheet) (lv₀ : Liveness) (s : Sheet) (lv : Liveness) (sp v : VarId)
    (tmp : Nat → VarId → VarId) (temps : List String) : Prop where
  liveIn : ∀ i < s₀.function.body.length,
    lv.liveIn (place s₀.function sp [v] tmp i) = (lv₀.liveIn i).erase v
  liveOut : ∀ i < s₀.function.body.length,
    lv.liveOut (lastPlace s₀.function sp [v] tmp i) = (lv₀.liveOut i).erase v
  tempIn : ∀ i p, Touches s₀.function.body v i → tmp i v ∈ lv.liveIn p →
    place s₀.function sp [v] tmp i < p ∧ p ≤ lastPlace s₀.function sp [v] tmp i
  tempOut : ∀ i p, Touches s₀.function.body v i → tmp i v ∈ lv.liveOut p →
    place s₀.function sp [v] tmp i ≤ p ∧ p < lastPlace s₀.function sp [v] tmp i
  gone : ∀ p, v ∉ lv.liveIn p ∧ v ∉ lv.liveOut p
  node : ∀ a ∉ temps, (Graph.build s lv rf).1.HasNamed (Graph.build s lv rf).2.function.table a ↔
    ((Graph.build s₀ lv₀ rf).1.remove v).HasNamed (Graph.build s₀ lv₀ rf).2.function.table a
  edge : ∀ a ∉ temps, ∀ b ∉ temps,
    (Graph.build s lv rf).1.JoinsNamed (Graph.build s lv rf).2.function.table a b ↔
      ((Graph.build s₀ lv₀ rf).1.remove v).JoinsNamed (Graph.build s₀ lv₀ rf).2.function.table a b
  color : ∀ a c, (Graph.build s lv rf).1.ColorsNamed (Graph.build s lv rf).2.function.table a c ↔
    ((Graph.build s₀ lv₀ rf).1.remove v).ColorsNamed (Graph.build s₀ lv₀ rf).2.function.table a c

theorem leaves {rf : RegisterFile} {s₀ s : Sheet} {lv₀ lv : Liveness} {sp v : VarId}
    {tmp : Nat → VarId → VarId} {temps : List String} (accepted : rf.Accepted)
    (analyzed₀ : s₀.Analyzed rf lv₀) (expanded : Expanded s₀.function sp [v] tmp s.function)
    (pointer : sp < s₀.function.table.size ∧ s₀.function.table.nameOf sp = rf.sp)
    (analyzed : s.Analyzed rf lv) (settled : ∀ a ∉ temps, Settled s₀.function s.function v tmp a) :
    Leaves rf s₀ lv₀ s lv sp v tmp temps where
  liveIn i inside := by
    apply Std.ExtTreeSet.ext_mem
    intro x
    rw [liveIn_place accepted analyzed₀ expanded pointer analyzed inside, VarSet.mem_erase_iff,
      List.mem_singleton]
  liveOut i inside := by
    apply Std.ExtTreeSet.ext_mem
    intro x
    rw [liveOut_lastPlace accepted analyzed₀ expanded pointer analyzed inside, VarSet.mem_erase_iff,
      List.mem_singleton]
  tempIn _ _ touched live :=
    temp_liveIn accepted analyzed₀ expanded pointer analyzed List.mem_cons_self touched live
  tempOut _ _ touched out :=
    temp_liveOut accepted analyzed₀ expanded pointer analyzed List.mem_cons_self touched out
  gone _ := moved_not_live accepted analyzed₀ expanded pointer analyzed List.mem_cons_self
  node a absent := hasNamed_spilled accepted analyzed₀ expanded pointer analyzed (settled a absent)
  edge a left b right :=
    joinsNamed_spilled accepted analyzed₀ expanded pointer analyzed (settled a left) (settled b right)
  color _ _ := colorsNamed_spilled accepted analyzed₀ analyzed

end Expanded

namespace Spill

theorem spill_leaves {cfg : Config} {rf : RegisterFile} {s : Sheet} {v : VarId} (names : NameSequence)
    (configured : RegisterFile.ofConfig cfg = .ok rf) (sound : s.function.table.Sound)
    (convention : s.function.convention = some rf) (clean : s.function.problems = [])
    (noted : s.notes.length = s.function.body.length) (known : v < s.function.table.size)
    (virtual : s.function.table.isRegister v = false)
    (unspilled : s.function.isSpilled (s.function.table.nameOf v) = false)
    (stem : isVirtualName names.stem = true) :
    ∃ s₀ lv₀ names' spilled s₁ lv₁ sp tmp, s.analyze = (s₀, .ok lv₀) ∧
      (s.spill v names).2 = (names', .ok spilled) ∧
      (Sheet.ofFunction spilled.function).analyze = (s₁, .ok lv₁) ∧
      Expanded s₀.function sp [v] tmp s₁.function ∧
      (∀ name, name ∈ spilled.temps ↔
        ∃ i, Touches s₀.function.body v i ∧ s₁.function.table.nameOf (tmp i v) = name) ∧
      Expanded.Leaves rf s₀ lv₀ s₁ lv₁ sp v tmp spilled.temps := by
  have accepted := RegisterFile.accepted_of_ofConfig configured
  have valid := Function.valid_of_problems sound convention clean
  obtain ⟨s₀, lv₀, analysis₀, analyzed₀, -, -⟩ := Sheet.analyze_valid accepted valid noted
  obtain ⟨names', spilled, sp, tmp, done, pointer, expanded, -, temps⟩ :=
    Expanded.spill_first accepted valid noted stem known virtual unspilled
  have body : s.function.body = s₀.function.body := by
    rw [Sheet.analyze_resolved analysis₀]
    rfl
  rw [← Sheet.analyze_resolved analysis₀] at pointer expanded
  rw [body] at temps
  obtain ⟨s₁, lv₁, analysis₁, analyzed₁, same, grown⟩ := Sheet.analyze_valid (s := .ofFunction spilled.function)
    accepted (Expanded.stays_valid analyzed₀.valid pointer expanded) (by simp [Sheet.ofFunction])
  have expanded₁ : Expanded s₀.function sp [v] tmp s₁.function := by
    rw [same]
    exact expanded.withTable grown analyzed₁.valid.sound
  have named : ∀ i, Touches s₀.function.body v i →
      s₁.function.table.nameOf (tmp i v) = spilled.function.table.nameOf (tmp i v) := by
    intro i touched
    exact grown.nameOf (expanded.fresh i v List.mem_cons_self touched).2
  have temps₁ : ∀ name, name ∈ spilled.temps ↔
      ∃ i, Touches s₀.function.body v i ∧ s₁.function.table.nameOf (tmp i v) = name := by
    intro name
    rw [temps]
    exact exists_congr fun i => and_congr_right fun touched => by rw [named i touched]
  have settled : ∀ a ∉ spilled.temps, Expanded.Settled s₀.function s₁.function v tmp a := by
    intro a absent i touched same
    exact absent ((temps₁ a).mpr ⟨i, touched, same⟩)
  refine ⟨s₀, lv₀, names', spilled, s₁, lv₁, sp, tmp, analysis₀, done, analysis₁, expanded₁, temps₁, ?_⟩
  exact Expanded.leaves accepted analyzed₀ expanded₁ pointer analyzed₁ settled

open Allocation in
theorem spill_leaves_acrossCall :
    ∃ s₀ lv₀ names' spilled s₁ lv₁ sp tmp, (Sheet.ofFunction acrossCall).analyze = (s₀, .ok lv₀) ∧
      ((Sheet.ofFunction acrossCall).spill 0 ⟨"%S", 0, []⟩).2 = (names', .ok spilled) ∧
      (Sheet.ofFunction spilled.function).analyze = (s₁, .ok lv₁) ∧ 0 ∈ lv₀.liveOut 0 ∧
      spilled.temps = ["%S0", "%S1"] ∧
      Expanded.Leaves (.draft threeRegisters) s₀ lv₀ s₁ lv₁ sp 0 tmp spilled.temps := by
  obtain ⟨s₀, lv₀, names', spilled, s₁, lv₁, sp, tmp, analysis₀, done, analysis₁, -, -, leaves⟩ :=
    spill_leaves (s := .ofFunction acrossCall) (v := 0) ⟨"%S", 0, []⟩
      threeRegisters_configured acrossCall_sound rfl acrossCall_problems
      (by decide +kernel) (by decide +kernel) (by decide +kernel) (by decide +kernel) (by decide +kernel)
  have across : ((Sheet.ofFunction acrossCall).analyze.2.toOption.any fun lv =>
      (lv.liveOut 0).toList.contains 0) = true := by decide +kernel
  have drawn : (((Sheet.ofFunction acrossCall).spill 0 ⟨"%S", 0, []⟩).2.2.toOption.any fun spilled =>
      spilled.temps == ["%S0", "%S1"]) = true := by decide +kernel
  rw [analysis₀] at across
  rw [show ((0 : Nat) : Int) = 0 from rfl] at done
  rw [done] at drawn
  exact ⟨s₀, lv₀, names', spilled, s₁, lv₁, sp, tmp, analysis₀, done, analysis₁,
    Std.ExtTreeSet.mem_toList.mp (List.contains_iff_mem.mp across), eq_of_beq drawn, leaves⟩

end Spill

end RegisterAllocation
