import RegisterAllocation.Proofs.Progress

namespace RegisterAllocation

inductive Flow.Reached (body : List Instruction) : Nat → Prop
  | first : Reached body 0
  | next {i j : Nat} (reached : Reached body i) (edge : Edge body i j) : Reached body j

namespace Sheet

variable {rf : RegisterFile} {s s' : Sheet} {lv : Liveness}

theorem prepared_of_analyze (accepted : rf.Accepted) (sound : s.function.table.Sound)
    (convention : s.function.convention = some rf) (noted : s.notes.length = s.function.body.length)
    (analysis : s.analyze = (s', .ok lv)) : s'.Prepared rf lv := by
  -- No set of an analysis has the stack pointer in it: where operands are read it is left out, and
  -- the registers that a call overwrites are allocatable.
  obtain ⟨-, -, sp, resolves⟩ := analyze_resolves noted analysis
  obtain ⟨id, rfl, pointer⟩ := resolves.pointer rf sound convention accepted.sp_named
  have sound' := resolves.sound sound
  obtain ⟨spKnown, spName⟩ := (VarTable.id?_eq_some_iff sound').mp pointer
  refine ⟨sound', spName ▸ VarTable.nameOf_mem_names spKnown, fun x member named => ?_,
    solves_of_analyze analysis⟩
  have known : x < s'.function.table.size := VarTable.lt_size_of_named (named ▸ accepted.sp_named)
  have number : some id = some x := pointer.symm.trans ((VarTable.id?_eq_some_iff sound').mpr ⟨known, named⟩)
  obtain ⟨note, inside, touched⟩ := mem_referenced.mp member
  obtain ⟨inst, -, sourced⟩ := resolves.mem_notes inside
  rcases touched with used | defined
  · exact (sourced.used x used).1 number
  · rcases sourced.defined x defined with ⟨apart, -⟩ | ⟨-, rf', convention', saved⟩
    · exact apart number
    · have same : some rf' = some rf := convention'.symm.trans (resolves.grown.convention.trans convention)
      cases same
      exact accepted.sp_apart (accepted.callerSaved _ (named ▸ saved))

end Sheet

namespace Graph

open Allocation (threeRegisters threeRegisters_configured)

variable {rf : RegisterFile} {s s' : Sheet} {lv : Liveness} {g : Graph} {x y : VarId} {i : Nat}

theorem hasEdge_iff : g.hasEdge x y = true ↔ y ∈ g.neighborSet x := Std.ExtTreeSet.contains_iff_mem

theorem Interferes.joined_iff (interferes : Interferes rf s lv g) : g.hasEdge x y = true ↔
    x ≠ y ∧ ((Allocatable rf s.function.table x ∧ Allocatable rf s.function.table y) ∨ Conflict s lv x y) :=
  hasEdge_iff.trans (interferes.edge x y)

-- The interference graph of any function that can be analyzed: its nodes are the registers and what the
-- instructions read and write, without the stack pointer; the registers alone have a color, their own;
-- and its edges join registers, and what is written with what is live afterwards.
theorem build_exact {cfg : Config} (configured : RegisterFile.ofConfig cfg = .ok rf)
    (sound : s.function.table.Sound) (convention : s.function.convention = some rf)
    (noted : s.notes.length = s.function.body.length) (analysis : s.analyze = (s', .ok lv)) :
    ∃ g built, build s' lv rf = (g, built) ∧
      (∀ x, x ∈ g.nodes ↔ Allocatable rf built.function.table x ∨
        ∃ note ∈ s'.notes, x ∈ note.used ∨ x ∈ note.defined) ∧
      (∀ x ∈ g.nodes, built.function.table.nameOf x ≠ rf.sp) ∧
      (∀ x c, g.color? x = some c ↔
        Allocatable rf built.function.table x ∧ rf.color? (built.function.table.nameOf x) = some c) ∧
      (∀ c < rf.k, ∃! x, g.color? x = some c) ∧
      ∀ u w, g.hasEdge u w = true ↔ u ≠ w ∧
        ((Allocatable rf built.function.table u ∧ Allocatable rf built.function.table w) ∨
          ∃ i note, s'.notes[i]? = some note ∧
            ((u ∈ note.defined ∧ w ∈ lv.liveOut i) ∨ (w ∈ note.defined ∧ u ∈ lv.liveOut i))) := by
  have accepted := RegisterFile.accepted_of_ofConfig configured
  have prepared := Sheet.prepared_of_analyze accepted sound convention noted analysis
  have interferes := prepared_interferes accepted prepared
  have sound' := VarTable.internAll_sound prepared.sound rf.registers
  have prepared' := prepared.withTable accepted (VarTable.internAll_extends _ rf.registers) sound'
  have registers := VarTable.mem_names_internAll s'.function.table rf.registers
  refine ⟨(build s' lv rf).1, (build s' lv rf).2, rfl, fun x => ?_, fun x node => ?_,
    fun x c => interferes.color_iff accepted,
    fun c inside => interferes.existsUnique_color sound' registers inside,
    fun u w => interferes.joined_iff⟩
  · rw [mem_nodes, interferes.node]
    exact or_congr_right Sheet.mem_referenced
  · rcases (interferes.node x).mp (mem_nodes.mp node) with allocatable | member
    · exact accepted.ne_sp allocatable.2
    · exact prepared'.apart x member

def copiesPointer : Function where
  name := "@f"
  table := (VarTable.internAll { convention := some (.draft threeRegisters) } ["%a", "rsp", "%b", "rax"]).2
  body := [.assign (.var 0) (.var 1), .assign (.var 2) (.num 1), .label "again",
    .arith .add (.var 0) (.var 2), .cjump .less (.var 0) (.num 9) "again", .assign (.var 3) (.var 0), .ret]

-- The pointer is no node. Its copy conflicts with the step that is added to it, which is written while the
-- copy is live, and not with the result, as the copy is read for the last time where that is written.
theorem build_exact_copiesPointer :
    ∃ s' lv g built, copiesPointer.problems ≠ [] ∧ (Sheet.ofFunction copiesPointer).analyze = (s', .ok lv) ∧
      build s' lv (.draft threeRegisters) = (g, built) ∧ 0 ∈ g.nodes ∧ 1 ∉ g.nodes ∧
      g.hasEdge 0 2 = true ∧ g.hasEdge 0 3 = false ∧
      ∀ i note, s'.notes[i]? = some note → 3 ∈ note.defined → 0 ∉ lv.liveOut i := by
  have found : ((Sheet.ofFunction copiesPointer).analyze.2.toOption.any fun lv => decide
      (0 ∈ lv.liveOut 1 ∧
        (build (Sheet.ofFunction copiesPointer).analyze.1 lv (.draft threeRegisters)).1.hasEdge 0 3 = false ∧
        (build (Sheet.ofFunction copiesPointer).analyze.1 lv
          (.draft threeRegisters)).2.function.table.nameOf 1 = "rsp")) = true := by decide +kernel
  have copies : (Sheet.ofFunction copiesPointer).analyze.1.notes[0]?.any
      (fun note => decide (0 ∈ note.defined)) = true := by decide +kernel
  have writes : (Sheet.ofFunction copiesPointer).analyze.1.notes[1]?.any
      (fun note => decide (2 ∈ note.defined)) = true := by decide +kernel
  cases analysis : (Sheet.ofFunction copiesPointer).analyze with
  | mk s' result =>
    rw [analysis] at found copies writes
    cases result with
    | error e => cases found
    | ok lv =>
      obtain ⟨live, free, pointer⟩ := of_decide_eq_true found
      obtain ⟨first, start, copied⟩ := (Option.any_eq_true _ _).mp copies
      obtain ⟨second, next, written⟩ := (Option.any_eq_true _ _).mp writes
      obtain ⟨g, built, graph, nodes, pointerless, -, -, edges⟩ := build_exact threeRegisters_configured
        (VarTable.internAll_sound (VarTable.empty_sound _) _) rfl (by decide +kernel) analysis
      rw [graph] at free pointer
      have joined : g.hasEdge 0 2 = true := (edges 0 2).mpr
        ⟨by decide, .inr ⟨1, second, next, .inr ⟨of_decide_eq_true written, live⟩⟩⟩
      refine ⟨s', lv, g, built, by decide +kernel, rfl, graph, ?_, fun node => pointerless 1 node pointer, joined,
        free, fun i note here defined live => ?_⟩
      · exact (nodes 0).mpr (.inr ⟨first, List.mem_of_getElem? start, .inr (of_decide_eq_true copied)⟩)
      · have edge := (edges 0 3).mpr ⟨by decide, .inr ⟨i, note, here, .inr ⟨defined, live⟩⟩⟩
        rw [free] at edge
        cases edge

def Joins (g : Graph) (vars : VarSet) : Prop := ∀ x ∈ vars, ∀ y ∈ vars, x ≠ y → g.hasEdge x y = true

namespace Interferes

variable (interferes : Interferes rf s lv g) (accepted : rf.Accepted) (analyzed : s.Analyzed rf lv)

include interferes accepted analyzed

theorem joins_registers {vars : VarSet} (referenced : ∀ x ∈ vars, x ∈ s.referenced)
    (registers : ∀ x ∈ vars, s.function.table.isRegister x = true) : g.Joins vars := by
  have allocatable : ∀ x ∈ vars, Allocatable rf s.function.table x := by
    intro x member
    have node := (interferes.node x).mpr (.inr (referenced x member))
    obtain ⟨c, colored⟩ := (interferes.isRegister_iff accepted analyzed node).mp (registers x member)
    exact interferes.allocatable_of_color colored
  intro x left y right apart
  exact interferes.joined_iff.mpr ⟨apart, .inl ⟨allocatable x left, allocatable y right⟩⟩

omit accepted in
theorem joins_after (joins : g.Joins (lv.liveIn i)) : g.Joins (lv.liveOut i) := by
  -- A pair that is live after an instruction was live before it, or one of the two is written there.
  intro x left y right apart
  have inside := analyzed.liveOut_lt left
  have here : s.function.body[i]? = some (s.function.body[i]) := List.getElem?_eq_getElem inside
  obtain ⟨note, noted, -⟩ := analyzed.note_of_inst here
  by_cases first : x ∈ note.defined
  · exact interferes.joined_iff.mpr ⟨apart, .inr ⟨i, note, noted, .inl ⟨first, right⟩⟩⟩
  · by_cases second : y ∈ note.defined
    · exact interferes.joined_iff.mpr ⟨apart, .inr ⟨i, note, noted, .inr ⟨second, left⟩⟩⟩
    · apply joins x _ y _ apart
      · exact (analyzed.live.mem_in i note noted x).mpr (.inr ⟨left, first⟩)
      · exact (analyzed.live.mem_in i note noted y).mpr (.inr ⟨right, second⟩)

theorem joins_reached (entry : ∀ x ∈ lv.liveIn 0, s.function.table.isRegister x = true)
    (reached : Flow.Reached s.function.body i) : g.Joins (lv.liveIn i) := by
  induction reached with
  | first => exact interferes.joins_registers accepted analyzed (analyzed.live_referenced.1 0) entry
  | next _ edge ih =>
    have after := interferes.joins_after analyzed ih
    intro x left y right apart
    exact after x (analyzed.live_of_edge edge left) y (analyzed.live_of_edge edge right) apart

end Interferes

end Graph

def Coloring.Separates (attempt : Coloring) (rf : RegisterFile) (vars : VarSet) : Prop :=
  ∀ x ∈ vars, ∀ y ∈ vars, x ≠ y → ∃ r q, ((attempt.colors[x]?).bind fun c => rf.registers[c]?) = some r ∧
    ((attempt.colors[y]?).bind fun c => rf.registers[c]?) = some q ∧ r ≠ q

theorem Coloring.Attempted.separates {rf : RegisterFile} {g : Graph} {attempt : Coloring} {vars : VarSet}
    (attempted : Attempted rf g attempt) (success : attempt.success = true) (accepted : rf.Accepted)
    (formed : g.WellFormed) (joins : g.Joins vars) : attempt.Separates rf vars := by
  obtain ⟨proper, total⟩ := attempted.of_success success
  intro x left y right apart
  have edge := Graph.hasEdge_iff.mp (joins x left y right apart)
  obtain ⟨c, first⟩ := total x (formed.node y x (formed.symm x y edge))
  obtain ⟨d, second⟩ := total y (formed.node x y edge)
  have differ : c ≠ d := by
    intro same
    subst same
    exact proper.apart x y c edge first second
  have foundC := List.getElem?_eq_getElem (proper.bounded x c first)
  have foundD := List.getElem?_eq_getElem (proper.bounded y d second)
  refine ⟨_, _, by rw [first]; exact foundC, by rw [second]; exact foundD, fun same => differ ?_⟩
  exact (List.Nodup.getElem_inj_iff accepted.distinct).mp same

namespace Graph

open Allocation (threeRegisters threeRegisters_configured)

-- Where no variable of its own is live at the entry, whatever is live at one time is in conflict.
theorem live_variables_interfere {cfg : Config} {rf : RegisterFile} {s : Sheet}
    (configured : RegisterFile.ofConfig cfg = .ok rf) (sound : s.function.table.Sound)
    (convention : s.function.convention = some rf) (clean : s.function.problems = [])
    (noted : s.notes.length = s.function.body.length) :
    ∃ s' lv g built, s.analyze = (s', .ok lv) ∧ build s' lv rf = (g, built) ∧
      ((∀ x ∈ lv.liveIn 0, s'.function.table.isRegister x = true) →
        ∀ i, Flow.Reached s.function.body i → g.Joins (lv.liveIn i) ∧ g.Joins (lv.liveOut i) ∧
          ∀ temps attempt, Coloring.color g built.function rf temps = .ok attempt →
            attempt.success = true →
              attempt.Separates rf (lv.liveIn i) ∧ attempt.Separates rf (lv.liveOut i)) := by
  have accepted := RegisterFile.accepted_of_ofConfig configured
  have valid := Function.valid_of_problems sound convention clean
  obtain ⟨s', lv, analysis, analyzed, same, -⟩ := Sheet.analyze_valid accepted valid noted
  have analyzed' := build_analyzed analyzed
  have interferes := build_interferes accepted analyzed
  refine ⟨s', lv, (build s' lv rf).1, (build s' lv rf).2, analysis, rfl, fun entry i reached => ?_⟩
  have entry' : ∀ x ∈ lv.liveIn 0, (build s' lv rf).2.function.table.isRegister x = true := by
    intro x live
    have known := analyzed.referenced_lt_size (analyzed.live_referenced.1 0 x live)
    rw [← entry x live]
    exact (VarTable.internAll_extends _ _).isRegister known
  have body : s.function.body = (build s' lv rf).2.function.body := by
    rw [build_snd]
    exact (congrArg Function.body same).symm
  have before := interferes.joins_reached accepted analyzed' entry' (body ▸ reached)
  have after := interferes.joins_after analyzed' before
  refine ⟨before, after, fun temps attempt colored success => ?_⟩
  obtain ⟨found, again, attempted⟩ := Coloring.color_attempted accepted analyzed' interferes temps
  cases colored.symm.trans again
  exact ⟨attempted.separates success accepted interferes.formed before,
    attempted.separates success accepted interferes.formed after⟩

def sumUp : Function where
  name := "@f"
  args := 1
  table := (VarTable.internAll { convention := some (.draft threeRegisters) } ["%n", "rdi", "%sum", "rax"]).2
  body := [.assign (.var 0) (.var 1), .assign (.var 2) (.num 0), .label ":loop",
    .arith .add (.var 2) (.var 0), .decrement (.var 0), .cjump .less (.num 0) (.var 0) ":loop",
    .assign (.var 3) (.var 2), .ret]

theorem sumUp_reached : Flow.Reached sumUp.body 3 := by
  have next : ∀ i inst, sumUp.body[i]? = some inst → i + 1 < sumUp.body.length →
      inst.isTerminal = false → Flow.Edge sumUp.body i (i + 1) :=
    fun i inst here inside goes => ⟨inst, here, .inl ⟨rfl, inside, goes⟩⟩
  have second := Flow.Reached.first.next (next 0 _ rfl (by decide) rfl)
  have third := second.next (next 1 _ rfl (by decide) rfl)
  exact third.next (next 2 _ rfl (by decide) rfl)

theorem live_variables_interfere_sumUp :
    ∃ s' lv g built attempt, (Sheet.ofFunction sumUp).analyze = (s', .ok lv) ∧
      build s' lv (.draft threeRegisters) = (g, built) ∧ 0 ∈ lv.liveIn 3 ∧ 2 ∈ lv.liveIn 3 ∧
      g.hasEdge 0 2 = true ∧
      Coloring.color g built.function (.draft threeRegisters) ∅ = .ok attempt ∧
      attempt.success = true ∧ attempt.Separates (.draft threeRegisters) (lv.liveIn 3) := by
  obtain ⟨s', lv, g, built, analysis, graph, separate⟩ := live_variables_interfere threeRegisters_configured
    (s := Sheet.ofFunction sumUp) (VarTable.internAll_sound (VarTable.empty_sound _) _) rfl
    (by decide +kernel) (by decide +kernel)
  have found : ((Sheet.ofFunction sumUp).analyze.2.toOption.any fun lv => decide
      ((∀ x ∈ (lv.liveIn 0).toList, (Sheet.ofFunction sumUp).analyze.1.function.table.isRegister x = true) ∧
        0 ∈ lv.liveIn 3 ∧ 2 ∈ lv.liveIn 3)) = true := by decide +kernel
  have colors : ((Sheet.ofFunction sumUp).analyze.2.toOption.any fun lv =>
      (Coloring.color (build (Sheet.ofFunction sumUp).analyze.1 lv (.draft threeRegisters)).1
        (build (Sheet.ofFunction sumUp).analyze.1 lv (.draft threeRegisters)).2.function
        (.draft threeRegisters) ∅).toOption.any Coloring.success) = true := by decide +kernel
  rw [analysis] at found colors
  simp only [Except.toOption, Option.any_some, graph] at colors
  obtain ⟨entry, left, right⟩ := of_decide_eq_true found
  have registers : ∀ x ∈ lv.liveIn 0, s'.function.table.isRegister x = true :=
    fun x member => entry x (Std.ExtTreeSet.mem_toList.mpr member)
  obtain ⟨joins, -, apart⟩ := separate registers 3 sumUp_reached
  cases colored : Coloring.color g built.function (.draft threeRegisters) ∅ with
  | error e =>
    rw [colored] at colors
    cases colors
  | ok attempt =>
    rw [colored] at colors
    exact ⟨s', lv, g, built, attempt, analysis, graph, left, right, joins 0 left 2 right (by decide), colored,
      colors, (apart ∅ attempt colored colors).1⟩

end Graph

end RegisterAllocation
