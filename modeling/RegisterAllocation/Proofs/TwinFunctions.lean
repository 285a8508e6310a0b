import RegisterAllocation.Proofs.RegisterAssignment
import RegisterAllocation.Proofs.TwinGraphs
import RegisterAllocation.Proofs.Underway

namespace RegisterAllocation

open Spill

variable {φ : VarId → VarId}

theorem Flow.edge_map_rename {body : List Instruction} {i j : Nat} :
    Edge (body.map (·.rename φ)) i j ↔ Edge body i j := by
  constructor
  · intro edge
    obtain ⟨renamed, here, next⟩ := edge
    rw [List.getElem?_map, Option.map_eq_some_iff] at here
    obtain ⟨inst, here, rfl⟩ := here
    rw [List.length_map, Instruction.isTerminal_rename, Instruction.target?_rename] at next
    simp only [labelIndex?_map_rename] at next
    exact ⟨inst, here, next⟩
  · intro edge
    obtain ⟨inst, here, next⟩ := edge
    refine ⟨inst.rename φ, by rw [List.getElem?_map, here]; rfl, ?_⟩
    rw [List.length_map, Instruction.isTerminal_rename, Instruction.target?_rename]
    simp only [labelIndex?_map_rename]
    exact next

theorem eq_of_order {list : List VarId} {x y : VarId}
    (order : ∀ x ∈ list, ∀ y ∈ list, x < y → φ x < φ y) (left : x ∈ list) (right : y ∈ list)
    (same : φ x = φ y) : x = y := by
  rcases Nat.lt_trichotomy x y with before | equal | after
  · exact absurd same (Nat.ne_of_lt (order x left y right before))
  · exact equal
  · exact absurd same.symm (Nat.ne_of_lt (order y right x left after))

namespace Function

theorem Mentions.renamed {f f' : Function} {x : VarId} (body : f'.body = f.body.map (·.rename φ))
    (mentioned : f.Mentions x) : f'.Mentions (φ x) := by
  obtain ⟨inst, member, operand⟩ := mentioned
  refine ⟨inst.rename φ, body ▸ List.mem_map_of_mem member, ?_⟩
  rw [Instruction.operands_rename]
  exact Instruction.var_mem_map_rename.mpr ⟨x, operand, rfl⟩

-- A function with its variables numbered anew: registers go by their names, and the virtual variables
-- keep their order.
structure Renumbers (φ : VarId → VarId) (f f' : Function) : Prop where
  body : f'.body = f.body.map (·.rename φ)
  register : ∀ x, f.table.isRegister x = true →
    f'.table.isRegister (φ x) = true ∧ f'.table.nameOf (φ x) = f.table.nameOf x
  reached : ∀ y, f'.table.isRegister y = true → ∃ x, f.table.isRegister x = true ∧ φ x = y
  virtual : ∀ x ∈ f.virtuals, f'.table.isRegister (φ x) = false
  order : ∀ x ∈ f.virtuals, ∀ y ∈ f.virtuals, x < y → φ x < φ y

def Counts (f : Function) (x : VarId) : Prop := x ∈ f.virtuals ∨ f.table.isRegister x = true

theorem counts_of_mentions {f : Function} {x : VarId} (mentioned : f.Mentions x) : f.Counts x := by
  unfold Counts
  cases register : f.table.isRegister x with
  | true => exact .inr rfl
  | false => exact .inl (mem_virtuals.mpr ⟨mentioned, register⟩)

namespace Renumbers

variable {rf : RegisterFile} {f f' : Function} {x y : VarId} {inst : Instruction} {r : String}
  (accepted : rf.Accepted) (valid : f.Valid rf) (valid' : f'.Valid rf) (renumbers : Renumbers φ f f')

include renumbers

theorem getElem? {i : Nat} (here : f.body[i]? = some inst) : f'.body[i]? = some (inst.rename φ) := by
  rw [renumbers.body, List.getElem?_map, here]
  rfl

theorem getElem?_origin {i : Nat} {other : Instruction} (here : f'.body[i]? = some other) :
    ∃ inst, f.body[i]? = some inst ∧ other = inst.rename φ := by
  rw [renumbers.body, List.getElem?_map, Option.map_eq_some_iff] at here
  obtain ⟨inst, here, same⟩ := here
  exact ⟨inst, here, same.symm⟩

include valid

theorem injective (left : f.Counts x) (right : f.Counts y) (same : φ x = φ y) : x = y := by
  rcases left with first | first <;> rcases right with second | second
  · exact eq_of_order renumbers.order first second same
  · have plain := renumbers.virtual x first
    rw [same, (renumbers.register y second).1] at plain
    cases plain
  · have plain := renumbers.virtual y second
    rw [← same, (renumbers.register x first).1] at plain
    cases plain
  · refine VarTable.nameOf_inj valid.sound (VarTable.lt_size_of_isRegister first)
      (VarTable.lt_size_of_isRegister second) ?_
    rw [← (renumbers.register x first).2, same, (renumbers.register y second).2]

include valid' in
theorem name_iff (counts : f.Counts x) (register : rf.isRegister r = true) :
    f'.table.nameOf (φ x) = r ↔ f.table.nameOf x = r := by
  rcases counts with virtual | isRegister
  · obtain ⟨mentioned, plain⟩ := mem_virtuals.mp virtual
    have plain' := renumbers.virtual x virtual
    rw [VarTable.isRegister_eq valid.sound valid.convention (valid.mentions_lt_size mentioned)] at plain
    rw [VarTable.isRegister_eq valid'.sound valid'.convention
      (valid'.mentions_lt_size (mentioned.renamed renumbers.body))] at plain'
    refine iff_of_false (fun same => ?_) fun same => ?_
    · rw [same, register] at plain'
      cases plain'
    · rw [same, register] at plain
      cases plain
  · rw [(renumbers.register x isRegister).2]

include valid'

theorem implied_iff {names : List String} (registers : ∀ r ∈ names, r ∈ rf.registers) :
    (y < f'.table.size ∧ f'.table.nameOf y ∈ names) ↔
      ∃ x, (x < f.table.size ∧ f.table.nameOf x ∈ names) ∧ φ x = y := by
  constructor
  · intro h
    obtain ⟨known, implied⟩ := h
    have register : f'.table.isRegister y = true := by
      rw [VarTable.isRegister_eq valid'.sound valid'.convention known]
      exact RegisterFile.isRegister_of_mem (registers _ implied)
    obtain ⟨x, isRegister, rfl⟩ := renumbers.reached y register
    refine ⟨x, ⟨VarTable.lt_size_of_isRegister isRegister, ?_⟩, rfl⟩
    rwa [← (renumbers.register x isRegister).2]
  · intro h
    obtain ⟨x, ⟨known, implied⟩, rfl⟩ := h
    have isRegister : f.table.isRegister x = true := by
      rw [VarTable.isRegister_eq valid.sound valid.convention known]
      exact RegisterFile.isRegister_of_mem (registers _ implied)
    obtain ⟨isRegister', named⟩ := renumbers.register x isRegister
    refine ⟨VarTable.lt_size_of_isRegister isRegister', ?_⟩
    rwa [named]

include accepted

theorem uses_iff (member : inst ∈ f.body) :
    (inst.rename φ).Uses rf f'.table y ↔ ∃ x, inst.Uses rf f.table x ∧ φ x = y := by
  have pointer : ∀ x, .var x ∈ inst.reads → (f'.table.nameOf (φ x) ≠ rf.sp ↔ f.table.nameOf x ≠ rf.sp) :=
    fun x reading => not_congr (renumbers.name_iff valid valid'
      (counts_of_mentions ⟨inst, member, Instruction.reads_subset_operands inst reading⟩)
      (RegisterFile.isRegister_iff.mpr (.inl rfl)))
  unfold Instruction.Uses
  rw [Instruction.reads_rename, Instruction.implicitReads_rename, Instruction.var_mem_map_rename,
    renumbers.implied_iff valid valid' (Instruction.implicitReads_allocatable accepted inst)]
  constructor
  · intro either
    rcases either with ⟨⟨x, reading, rfl⟩, apart⟩ | ⟨x, implied, rfl⟩
    · exact ⟨x, .inl ⟨reading, (pointer x reading).mp apart⟩, rfl⟩
    · exact ⟨x, .inr implied, rfl⟩
  · intro h
    obtain ⟨x, ⟨reading, apart⟩ | implied, rfl⟩ := h
    · exact .inl ⟨⟨x, reading, rfl⟩, (pointer x reading).mpr apart⟩
    · exact .inr ⟨x, implied, rfl⟩

theorem defines_iff (member : inst ∈ f.body) :
    (inst.rename φ).Defines rf f'.table y ↔ ∃ x, inst.Defines rf f.table x ∧ φ x = y := by
  have pointer : ∀ x, inst.destination? = some (.var x) →
      (f'.table.nameOf (φ x) ≠ rf.sp ↔ f.table.nameOf x ≠ rf.sp) :=
    fun x written => not_congr (renumbers.name_iff valid valid'
      (counts_of_mentions ⟨inst, member, Instruction.destination?_mem_operands written⟩)
      (RegisterFile.isRegister_iff.mpr (.inl rfl)))
  unfold Instruction.Defines
  rw [Instruction.destination?_rename_var, Instruction.implicitWrites_rename,
    renumbers.implied_iff valid valid' (Instruction.implicitWrites_allocatable accepted inst)]
  constructor
  · intro either
    rcases either with ⟨⟨x, written, rfl⟩, apart⟩ | ⟨x, implied, rfl⟩
    · exact ⟨x, .inl ⟨written, (pointer x written).mp apart⟩, rfl⟩
    · exact ⟨x, .inr implied, rfl⟩
  · intro h
    obtain ⟨x, ⟨written, apart⟩ | implied, rfl⟩ := h
    · exact .inl ⟨⟨x, written, rfl⟩, (pointer x written).mpr apart⟩
    · exact .inr ⟨x, implied, rfl⟩

end Renumbers

end Function

section Analyses

variable {rf : RegisterFile} {s s' : Sheet} {lv lv' : Liveness} {g g' : Graph} {x y : VarId}
  (accepted : rf.Accepted) (analyzed : s.Analyzed rf lv) (analyzed' : s'.Analyzed rf lv')
  (renumbers : s.function.Renumbers φ s'.function)

include accepted analyzed

theorem Sheet.Analyzed.counts (referenced : x ∈ s.referenced) : s.function.Counts x := by
  unfold Function.Counts
  cases register : s.function.table.isRegister x with
  | true => exact .inr rfl
  | false =>
    refine .inl (Function.mem_virtuals.mpr ⟨?_, register⟩)
    exact (analyzed.referenced_virtual accepted register).mp referenced

theorem Graph.Interferes.counts (interferes : Graph.Interferes rf s lv g) (node : x ∈ g.adj) :
    s.function.Counts x := by
  rcases (interferes.node x).mp node with allocatable | referenced
  · refine .inr ?_
    rw [VarTable.isRegister_eq analyzed.valid.sound analyzed.valid.convention allocatable.1]
    exact RegisterFile.isRegister_of_mem allocatable.2
  · exact analyzed.counts accepted referenced

theorem Graph.Interferes.mem_virtuals (interferes : Graph.Interferes rf s lv g)
    (node : x ∈ Coloring.virtualNodes g) : x ∈ s.function.virtuals := by
  obtain ⟨node, bare⟩ := Coloring.mem_virtualNodes.mp node
  have virtual := (interferes.color?_eq_none_iff accepted analyzed node).mp bare
  exact (interferes.counts accepted analyzed node).resolve_right (Bool.eq_false_iff.mp virtual)

include analyzed' renumbers

namespace Function.Renumbers

theorem live :
    (∀ i, ∀ x ∈ lv.liveIn i, φ x ∈ lv'.liveIn i) ∧ ∀ i, ∀ x ∈ lv.liveOut i, φ x ∈ lv'.liveOut i := by
  -- Both sets of live variables are least solutions, so that each is within what the other one comes to.
  have valid := analyzed.valid
  have valid' := analyzed'.valid
  suffices both : (∀ i, ∀ x ∈ lv.liveIn i, s.function.Counts x ∧ φ x ∈ lv'.liveIn i) ∧
      ∀ i, ∀ x ∈ lv.liveOut i, s.function.Counts x ∧ φ x ∈ lv'.liveOut i from
    ⟨fun i x member => (both.1 i x member).2, fun i x member => (both.2 i x member).2⟩
  refine analyzed.live.least (fun i x => s.function.Counts x ∧ φ x ∈ lv'.liveIn i)
    (fun i x => s.function.Counts x ∧ φ x ∈ lv'.liveOut i)
    ⟨fun i note noted x used => ?_, fun i note noted x out kept => ?_, fun i note noted j next x live => ?_⟩
  · obtain ⟨inst, here, described⟩ := analyzed.inst_of_note noted
    have member := List.mem_of_getElem? here
    have uses := (described.used x).mp used
    refine ⟨analyzed.counts accepted (analyzed.referenced_iff.mpr ⟨inst, member, .inl uses⟩), ?_⟩
    exact analyzed'.live_of_uses (renumbers.getElem? here)
      ((renumbers.uses_iff accepted valid valid' member).mpr ⟨x, uses, rfl⟩)
  · obtain ⟨inst, here, described⟩ := analyzed.inst_of_note noted
    have member := List.mem_of_getElem? here
    obtain ⟨counts, out⟩ := out
    refine ⟨counts, analyzed'.live_of_kept (renumbers.getElem? here) out fun defined => kept ?_⟩
    obtain ⟨d, defines, same⟩ := (renumbers.defines_iff accepted valid valid' member).mp defined
    have counts' := analyzed.counts accepted (analyzed.referenced_iff.mpr ⟨inst, member, .inr defines⟩)
    rw [described.defined, ← renumbers.injective valid counts' counts same]
    exact defines
  · obtain ⟨counts, live⟩ := live
    have edge := (analyzed.links i note noted j).mp next
    refine ⟨counts, analyzed'.live_of_edge ?_ live⟩
    rw [renumbers.body]
    exact Flow.edge_map_rename.mpr edge

theorem live_origin :
    (∀ i, ∀ y ∈ lv'.liveIn i, ∃ x ∈ lv.liveIn i, φ x = y) ∧
      ∀ i, ∀ y ∈ lv'.liveOut i, ∃ x ∈ lv.liveOut i, φ x = y := by
  have valid := analyzed.valid
  have valid' := analyzed'.valid
  refine analyzed'.live.least (fun i y => ∃ x ∈ lv.liveIn i, φ x = y) (fun i y => ∃ x ∈ lv.liveOut i, φ x = y)
    ⟨fun i note noted y used => ?_, fun i note noted y out kept => ?_, fun i note noted j next y live => ?_⟩
  · obtain ⟨other, here', described⟩ := analyzed'.inst_of_note noted
    obtain ⟨inst, here, rfl⟩ := renumbers.getElem?_origin here'
    obtain ⟨x, uses, rfl⟩ := (renumbers.uses_iff accepted valid valid' (List.mem_of_getElem? here)).mp
      ((described.used y).mp used)
    exact ⟨x, analyzed.live_of_uses here uses, rfl⟩
  · obtain ⟨other, here', described⟩ := analyzed'.inst_of_note noted
    obtain ⟨inst, here, rfl⟩ := renumbers.getElem?_origin here'
    obtain ⟨x, out, rfl⟩ := out
    refine ⟨x, analyzed.live_of_kept here out fun defines => kept ?_, rfl⟩
    exact (described.defined _).mpr ((renumbers.defines_iff accepted valid valid'
      (List.mem_of_getElem? here)).mpr ⟨x, defines, rfl⟩)
  · obtain ⟨x, live, rfl⟩ := live
    have edge := (analyzed'.links i note noted j).mp next
    rw [renumbers.body, Flow.edge_map_rename] at edge
    exact ⟨x, analyzed.live_of_edge edge live, rfl⟩

theorem referenced_iff : y ∈ s'.referenced ↔ ∃ x ∈ s.referenced, φ x = y := by
  have valid := analyzed.valid
  have valid' := analyzed'.valid
  rw [analyzed'.referenced_iff]
  constructor
  · intro h
    obtain ⟨other, member', touched⟩ := h
    rw [renumbers.body, List.mem_map] at member'
    obtain ⟨inst, member, rfl⟩ := member'
    rw [renumbers.uses_iff accepted valid valid' member,
      renumbers.defines_iff accepted valid valid' member] at touched
    rcases touched with ⟨x, uses, rfl⟩ | ⟨x, defines, rfl⟩
    · exact ⟨x, analyzed.referenced_iff.mpr ⟨inst, member, .inl uses⟩, rfl⟩
    · exact ⟨x, analyzed.referenced_iff.mpr ⟨inst, member, .inr defines⟩, rfl⟩
  · intro h
    obtain ⟨x, referenced, rfl⟩ := h
    obtain ⟨inst, member, touched⟩ := analyzed.referenced_iff.mp referenced
    refine ⟨inst.rename φ, by rw [renumbers.body]; exact List.mem_map_of_mem member, ?_⟩
    rw [renumbers.uses_iff accepted valid valid' member, renumbers.defines_iff accepted valid valid' member]
    exact touched.imp (fun uses => ⟨x, uses, rfl⟩) fun defines => ⟨x, defines, rfl⟩

theorem outlived_iff (left : s.function.Counts x) (right : s.function.Counts y) :
    Graph.Outlived rf s' lv' (φ x) (φ y) ↔ Graph.Outlived rf s lv x y := by
  have valid := analyzed.valid
  have valid' := analyzed'.valid
  constructor
  · intro h
    obtain ⟨i, other, here', defined, out⟩ := h
    obtain ⟨inst, here, rfl⟩ := renumbers.getElem?_origin here'
    have member := List.mem_of_getElem? here
    obtain ⟨d, defines, same⟩ := (renumbers.defines_iff accepted valid valid' member).mp defined
    obtain ⟨z, out, same'⟩ := (renumbers.live_origin accepted analyzed analyzed').2 i _ out
    have first := analyzed.counts accepted (analyzed.referenced_iff.mpr ⟨inst, member, .inr defines⟩)
    have second := analyzed.counts accepted (analyzed.live_referenced.2 i z out)
    rw [← renumbers.injective valid first left same, ← renumbers.injective valid second right same']
    exact ⟨i, inst, here, defines, out⟩
  · intro h
    obtain ⟨i, inst, here, defines, out⟩ := h
    exact ⟨i, inst.rename φ, renumbers.getElem? here,
      (renumbers.defines_iff accepted valid valid' (List.mem_of_getElem? here)).mpr ⟨x, defines, rfl⟩,
      (renumbers.live accepted analyzed analyzed').2 i y out⟩

variable (interferes : Graph.Interferes rf s lv g) (interferes' : Graph.Interferes rf s' lv' g')

omit accepted in
theorem allocatable_iff (counts : s.function.Counts x) :
    Graph.Allocatable rf s'.function.table (φ x) ↔ Graph.Allocatable rf s.function.table x := by
  have named : ∀ r ∈ rf.registers, (s'.function.table.nameOf (φ x) = r ↔ s.function.table.nameOf x = r) :=
    fun r register => renumbers.name_iff analyzed.valid analyzed'.valid counts
      (RegisterFile.isRegister_of_mem register)
  have known : x < s.function.table.size := by
    rcases counts with virtual | register
    · exact analyzed.valid.mentions_lt_size (Function.mem_virtuals.mp virtual).1
    · exact VarTable.lt_size_of_isRegister register
  have known' : φ x < s'.function.table.size := by
    rcases counts with virtual | register
    · exact analyzed'.valid.mentions_lt_size ((Function.mem_virtuals.mp virtual).1.renamed renumbers.body)
    · exact VarTable.lt_size_of_isRegister (renumbers.register x register).1
  constructor
  · intro h
    exact ⟨known, (named _ h.2).mp rfl ▸ h.2⟩
  · intro h
    exact ⟨known', (named _ h.2).mpr rfl ▸ h.2⟩

include interferes interferes'

theorem alike : Coloring.Alike φ g g' := by
  have valid := analyzed.valid
  have counts : ∀ x ∈ g.adj, s.function.Counts x := fun x => interferes.counts accepted analyzed
  have allocatable : ∀ x ∈ g.adj, _ := fun x node => renumbers.allocatable_iff analyzed analyzed' (counts x node)
  have stays : ∀ x ∈ g.adj, φ x ∈ g'.adj := by
    intro x node
    rw [interferes'.node, allocatable x node, renumbers.referenced_iff accepted analyzed analyzed']
    exact ((interferes.node x).mp node).imp_right fun referenced => ⟨x, referenced, rfl⟩
  refine ⟨⟨interferes.formed, interferes'.formed, fun _ node => node, fun y node => ?_,
    fun x y left right => renumbers.injective valid (counts x left) (counts y right),
    fun x node => iff_of_true (stays x node) node, fun x y left right => ?_⟩, fun x node => ?_,
    fun x left y right => ?_⟩
  · rcases (interferes'.node y).mp node with register | referenced
    · have isRegister' : s'.function.table.isRegister y = true := by
        rw [VarTable.isRegister_eq analyzed'.valid.sound analyzed'.valid.convention register.1]
        exact RegisterFile.isRegister_of_mem register.2
      obtain ⟨x, isRegister, rfl⟩ := renumbers.reached y isRegister'
      exact ⟨x, (interferes.node x).mpr
        (.inl ((renumbers.allocatable_iff analyzed analyzed' (.inr isRegister)).mp register)), rfl⟩
    · obtain ⟨x, old, rfl⟩ := (renumbers.referenced_iff accepted analyzed analyzed').mp referenced
      exact ⟨x, (interferes.node x).mpr (.inr old), rfl⟩
  · rw [interferes.edge, interferes'.edge, allocatable x left, allocatable y right,
      Graph.conflict_iff_outlived analyzed, Graph.conflict_iff_outlived analyzed',
      renumbers.outlived_iff accepted analyzed analyzed' (counts x left) (counts y right),
      renumbers.outlived_iff accepted analyzed analyzed' (counts y right) (counts x left)]
    refine and_congr_left fun _ => not_congr ⟨?_, congrArg φ⟩
    exact renumbers.injective valid (counts x left) (counts y right)
  · have named : ∀ r ∈ rf.registers, (s'.function.table.nameOf (φ x) = r ↔ s.function.table.nameOf x = r) :=
      fun r register => renumbers.name_iff valid analyzed'.valid (counts x node)
        (RegisterFile.isRegister_of_mem register)
    refine Option.ext fun c => ?_
    rw [interferes.color, interferes'.color]
    constructor
    · intro h
      have register := List.mem_of_getElem? h.2
      exact ⟨((allocatable x node).mp ⟨h.1, register⟩).1, (named _ register).mp rfl ▸ h.2⟩
    · intro h
      have register := List.mem_of_getElem? h.2
      exact ⟨((allocatable x node).mpr ⟨h.1, register⟩).1, (named _ register).mpr rfl ▸ h.2⟩
  · exact renumbers.order x (interferes.mem_virtuals accepted analyzed left) y
      (interferes.mem_virtuals accepted analyzed right)

end Function.Renumbers

end Analyses

end RegisterAllocation
