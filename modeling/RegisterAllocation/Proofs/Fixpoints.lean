import RegisterAllocation.Proofs.AllocatedFunctions
import RegisterAllocation.Proofs.Cores
import RegisterAllocation.Proofs.Interleavings
import RegisterAllocation.Proofs.RoundTrip

namespace RegisterAllocation

variable {rf : RegisterFile} {f g : Function} {ρ : VarId → VarId} {x : VarId}

namespace Instruction

variable {inst : Instruction} {t t' : VarTable}

theorem text_rename {σ : VarId → VarId}
    (named : ∀ x, .var x ∈ inst.operands → t'.nameOf (ρ x) = t.nameOf (σ x)) :
    (inst.rename ρ).text t' = (inst.rename σ).text t := by
  have operand : ∀ op ∈ inst.operands, (op.rename ρ).text t' = (op.rename σ).text t := by
    intro op member
    cases op with
    | var x => exact named x member
    | num _ | label _ | name _ => rfl
  cases inst <;> simp only [operands, List.forall_mem_cons] at operand <;>
    simp only [rename, mapOperands, text.eq_def, operand]

theorem instructionJson_rename (named : ∀ x, .var x ∈ inst.operands → t'.nameOf (ρ x) = t.nameOf x)
    (kept : ∀ x, .var x ∈ inst.operands → t'.isRegister (ρ x) = t.isRegister x) :
    Interchange.instructionJson t' (inst.rename ρ) = Interchange.instructionJson t inst := by
  have operand : ∀ op ∈ inst.operands,
      Interchange.operandJson t' (op.rename ρ) = Interchange.operandJson t op := by
    intro op member
    cases op with
    | var x => simp only [Operand.rename, Interchange.operandJson, named x member, kept x member]
    | num _ | label _ | name _ => rfl
  have fields : Interchange.instructionFields t' (inst.rename ρ) = Interchange.instructionFields t inst := by
    cases inst <;> simp only [operands, List.forall_mem_cons] at operand <;>
      simp only [rename, mapOperands, Interchange.instructionFields, operand]
  have kind : (inst.rename ρ).kind = inst.kind := kind_mapOperands _ inst
  rw [Interchange.instructionJson, fields, kind, Interchange.instructionJson]

theorem listed_rename (listed : inst.Listed) : (inst.rename ρ).Listed := by
  cases inst <;> exact listed

end Instruction

theorem Function.text_of_names {σ : VarId → VarId} {body : List Instruction} (name : g.name = f.name)
    (args : g.args = f.args) (locals : g.locals = f.locals) (old : f.body = body.map (·.rename σ))
    (new : g.body = body.map (·.rename ρ))
    (named : ∀ inst ∈ body, ∀ x, .var x ∈ inst.operands → g.table.nameOf (ρ x) = f.table.nameOf (σ x)) :
    g.text = f.text := by
  have lines : (g.body.map fun inst => "\t" ++ inst.text g.table ++ "\n") =
      f.body.map fun inst => "\t" ++ inst.text f.table ++ "\n" := by
    rw [old, new, List.map_map, List.map_map]
    refine List.map_congr_left fun inst member => ?_
    rw [Function.comp_apply, Function.comp_apply, Instruction.text_rename (named inst member)]
  simp only [Function.text, lines, name, args, locals]

structure Respelled (f : Function) (ρ : VarId → VarId) (g : Function) : Prop where
  name : g.name = f.name
  args : g.args = f.args
  locals : g.locals = f.locals
  spilled : g.spilled = f.spilled
  body : g.body = f.body.map (·.rename ρ)
  named : ∀ x, f.Mentions x → g.table.nameOf (ρ x) = f.table.nameOf x
  kept : ∀ x, f.Mentions x → g.table.isRegister (ρ x) = f.table.isRegister x

namespace Respelled

variable (respelled : Respelled f ρ g)
include respelled

theorem text_eq : g.text = f.text := by
  have same : f.body = f.body.map (·.rename id) := (Instruction.map_rename_id fun _ _ _ _ => rfl).symm
  exact Function.text_of_names respelled.name respelled.args respelled.locals same respelled.body
    fun inst member x operand => respelled.named x ⟨inst, member, operand⟩

theorem functionJson_eq : Interchange.functionJson g = Interchange.functionJson f := by
  have body : g.body.map (Interchange.instructionJson g.table) =
      f.body.map (Interchange.instructionJson f.table) := by
    rw [respelled.body, List.map_map]
    refine List.map_congr_left fun inst member => ?_
    exact Instruction.instructionJson_rename (fun x operand => respelled.named x ⟨inst, member, operand⟩)
      fun x operand => respelled.kept x ⟨inst, member, operand⟩
  simp only [Interchange.functionJson, body, respelled.name, respelled.args, respelled.locals,
    respelled.spilled]

theorem stays_valid (valid : f.Valid rf) (sound : g.table.Sound) (convention : g.convention = some rf) :
    g.Valid rf := by
  refine valid.renamed respelled.body sound convention fun x mentioned => ?_
  obtain ⟨inst, member, operand⟩ := mentioned
  have spelled := Validation.operands_spelled (valid.instructions inst member) _ operand
  have mentioned : f.Mentions x := ⟨inst, member, operand⟩
  simpa only [Validation.spelling, respelled.named x mentioned, respelled.kept x mentioned] using spelled

theorem physical (none : f.virtuals = []) : g.virtuals = [] := by
  refine List.eq_nil_iff_forall_not_mem.mpr fun y member => ?_
  obtain ⟨⟨inst, inside, operand⟩, virtual⟩ := Function.mem_virtuals.mp member
  rw [respelled.body, List.mem_map] at inside
  obtain ⟨old, inside, rfl⟩ := inside
  rw [Instruction.operands_rename, Instruction.var_mem_map_rename] at operand
  obtain ⟨x, operand, rfl⟩ := operand
  have mentioned : f.Mentions x := ⟨old, inside, operand⟩
  rw [respelled.kept x mentioned] at virtual
  have original : x ∈ f.virtuals := Function.mem_virtuals.mpr ⟨mentioned, virtual⟩
  rw [none] at original
  cases original

end Respelled

theorem Function.respelled_of_extends (known : ∀ x, f.Mentions x → x < f.table.size) {t : VarTable}
    (grown : f.table.Extends t) : Respelled f id { f with table := t } := by
  refine ⟨rfl, rfl, rfl, rfl, (Instruction.map_rename_id fun _ _ _ _ => rfl).symm, fun x mentioned => ?_,
    fun x mentioned => ?_⟩
  · exact grown.nameOf (known x mentioned)
  · exact grown.isRegister (known x mentioned)

theorem Function.Valid.respelled (valid : f.Valid rf) {t : VarTable} (grown : f.table.Extends t) :
    Respelled f id { f with table := t } :=
  Function.respelled_of_extends (fun _ mentioned => valid.mentions_lt_size mentioned) grown

theorem Function.Mentions.mem_names (mentioned : f.Mentions x) :
    f.table.nameOf x ∈ f.body.flatMap (·.names f.table) := by
  obtain ⟨inst, member, operand⟩ := mentioned
  refine List.mem_flatMap.mpr ⟨inst, member, List.mem_flatMap.mpr ⟨.var x, operand, ?_⟩⟩
  exact List.mem_singleton_self _

theorem Function.reread_sound (f : Function) (convention : Option RegisterFile) :
    (f.reread convention).table.Sound ∧ (f.reread convention).convention = convention :=
  ⟨VarTable.internAll_sound (VarTable.empty_sound convention) _, (VarTable.internAll_extends _ _).convention⟩

theorem Function.Valid.reread_respelled (valid : f.Valid rf) :
    Respelled f (f.table.renumber (f.reread (some rf)).table) (f.reread (some rf)) := by
  obtain ⟨sound, convention⟩ := f.reread_sound (some rf)
  have found : ∀ x, f.Mentions x →
      f.table.renumber (f.reread (some rf)).table x < (f.reread (some rf)).table.size ∧
        (f.reread (some rf)).table.nameOf (f.table.renumber (f.reread (some rf)).table x) =
          f.table.nameOf x := fun x mentioned =>
    VarTable.nameOf_renumber sound (VarTable.mem_names_internAll _ _ _ mentioned.mem_names)
  refine ⟨rfl, rfl, rfl, rfl, rfl, fun x mentioned => (found x mentioned).2, fun x mentioned => ?_⟩
  obtain ⟨known, named⟩ := found x mentioned
  rw [VarTable.isRegister_eq sound convention known, named,
    VarTable.isRegister_eq valid.sound valid.convention (valid.mentions_lt_size mentioned)]

namespace Allocation

variable {attempt : Coloring}

theorem assignRegisters_unchosen (none : chosen f.table rf attempt = []) :
    assignRegisters f rf attempt = (f, 0) := by
  have same : f.body.map (·.rename fun x => x) = f.body := Instruction.map_rename_id fun _ _ _ _ => rfl
  unfold chosen at none
  simp only [assignRegisters, none, registerMap]
  exact Prod.ext (congrArg (fun body => { f with body := body }) same) rfl

theorem allocate_registers (accepted : rf.Accepted) (valid : f.Valid rf) (none : f.virtuals = []) :
    ∃ t, f.table.Extends t ∧ (f.allocate rf).result = .ok { f with table := t } ∧
      (f.allocate rf).stats = { functions := 1, iterations := 1 } := by
  -- Where all the variables are registers, the first round colors the graph, and there is nothing to replace.
  obtain ⟨s₁, lv, f₁, sp, b, begun⟩ := start_begun accepted valid
  have ready := begun.ready fun _ x => x
  have physical : ∀ x ∈ b.graph.adj, b.state.table.isRegister x = true := by
    intro x node
    by_contra other
    have virtual := Bool.eq_false_iff.mpr other
    rcases virtual_node_cases accepted begun.valid begun.pointer ready node virtual with
      ⟨original, -⟩ | ⟨_, _, spilled, -⟩
    · rw [begun.sameVirtuals, none] at original
      cases original
    · cases spilled
  have colored : ∀ x ∈ Coloring.virtualNodes b.graph, b.graph.degree x < rf.k := by
    intro x member
    obtain ⟨node, plain⟩ := Coloring.mem_virtualNodes.mp member
    have virtual := (ready.interferes.color?_eq_none_iff accepted ready.analyzed node).mp plain
    exact absurd (physical x node) (Bool.eq_false_iff.mp virtual)
  obtain ⟨attempt, found, success⟩ :=
    Coloring.color_low accepted ready.analyzed ready.interferes b.state.temps colored
  obtain ⟨_, same, attempted, ended⟩ := conclude_cases accepted begun.valid begun.pointer ready
  cases found.symm.trans same
  have unchosen : chosen b.state.sheet.function.table rf attempt = [] := by
    refine List.eq_nil_iff_forall_not_mem.mpr fun pair member => ?_
    obtain ⟨virtual, c, color, -⟩ := mem_chosen.mp member
    have register := physical _ (attempted.bounded _ c color).2
    exact absurd register (Bool.eq_false_iff.mp virtual)
  rcases ended with ⟨-, s, sheet, stats, done⟩ | ⟨failure, -⟩ | ⟨ws, _, -, advanced⟩
  · have entered : entry rf 0 (start f rf) = some (start f rf) := rfl
    have assigned : assignRegisters s.sheet.function rf attempt = (f₁, 0) := by
      rw [sheet, ← begun.function]
      exact assignRegisters_unchosen unchosen
    have counted : s.stats = { functions := 1, iterations := 1 } := stats.trans begun.opened.stats
    rw [allocate_of_round accepted valid begun entered (begun.opened.shape.trans done)]
    refine ⟨f₁.table, begun.grown, ?_, ?_⟩
    · exact (congrArg (fun made => Except.ok made.1) assigned).trans (congrArg Except.ok begun.same)
    · exact congrArg₂ (fun (work : Stats) made => { work with replaced := work.replaced + Prod.snd made })
        counted assigned
  · rw [success] at failure
    cases failure
  · obtain ⟨v, member⟩ := List.exists_mem_of_ne_nil ws advanced.some_spilled
    have original := (advanced.left v member).1
    rw [begun.sameVirtuals, none] at original
    cases original

end Allocation

theorem Spill.listed_group {sp : VarId} {homes : List (VarId × Word)} {tmp : VarId → VarId}
    {inst other : Instruction} (listed : inst.Listed) (member : other ∈ group sp homes tmp inst) :
    other.Listed := by
  rcases List.mem_append.mp member with load | rest
  · obtain ⟨_, -, rfl⟩ := List.mem_map.mp load
    trivial
  · rcases List.mem_cons.mp rest with rfl | store
    · exact Instruction.listed_rename listed
    · unfold stores at store
      split at store
      · obtain ⟨_, -, rfl⟩ := Option.map_eq_some_iff.mp (Option.mem_toList.mp store)
        trivial
      · cases store

structure Allocated (rf : RegisterFile) (f g : Function) : Prop where
  valid : g.Valid rf
  physical : g.virtuals = []
  name : g.name = f.name
  args : g.args = f.args
  listed : (∀ inst ∈ f.body, inst.Listed) → ∀ inst ∈ g.body, inst.Listed

theorem allocated_of_result (accepted : rf.Accepted) (valid : f.Valid rf)
    (done : (f.allocate rf).result = .ok g) : Allocated rf f g := by
  obtain ⟨s₁, lv₀, f₁, sp, b₀, begun⟩ := Allocation.start_begun accepted valid
  obtain ⟨n, s, vs, tmp, sheet, lv, b, attempt, -, -, -, last⟩ :=
    Allocation.allocate_last accepted valid begun
  obtain ⟨ρ, registered⟩ := last.registered accepted done
  have expanded := last.ready.underway.expanded
  have valid' := last.ready.analyzed.valid
  refine ⟨registered.stays_valid accepted valid', ?_, ?_, ?_, fun listed inst member => ?_⟩
  · refine List.eq_nil_iff_forall_not_mem.mpr fun x member => ?_
    obtain ⟨⟨inst, inside, operand⟩, virtual⟩ := Function.mem_virtuals.mp member
    have register := registered.operands_registers accepted valid' inst inside x operand
    exact absurd register (Bool.eq_false_iff.mp virtual)
  · rw [registered.name, expanded.name, begun.same]
  · rw [registered.args, expanded.args, begun.same]
  · rw [registered.body, List.mem_map] at member
    obtain ⟨old, member, rfl⟩ := member
    rw [expanded.body, Spill.mem_expand] at member
    obtain ⟨i, original, here, inside⟩ := member
    have same : f₁.body = f.body := by rw [begun.same]
    rw [same] at here
    exact Instruction.listed_rename (Spill.listed_group (listed original (List.mem_of_getElem? here)) inside)

def Function.allocated (rf : RegisterFile) (f : Function) : Function :=
  (f.allocate rf).result.toOption.getD f

theorem Function.allocated_eq (done : (f.allocate rf).result = .ok g) : f.allocated rf = g := by
  rw [allocated, done]
  rfl

theorem mapM_id_eq_some {α : Type} {options : List (Option α)} {items : List α} :
    options.mapM id = some items ↔ options = items.map some := by
  induction options generalizing items with
  | nil => cases items <;> simp
  | cons first rest ih =>
    cases first with
    | none => cases items <;> simp
    | some a =>
      cases items with
      | nil => simp [Option.bind_eq_some_iff]
      | cons b others => simp [Option.bind_eq_some_iff, ih, and_comm]

namespace Settled

variable {p q : Program} {progress : Progress} (settled : Settled p rf progress)
include settled

theorem program?_eq (each : ∀ f ∈ p.functions, (f.allocate rf).result = .ok (f.allocated rf)) :
    progress.program? p = some { p with functions := p.functions.map (·.allocated rf) } := by
  have functions : progress.functions = (p.functions.map (·.allocated rf)).map some := by
    rw [settled.functions, List.map_map]
    refine List.map_congr_left fun f member => ?_
    rw [each f member]
    rfl
  rw [Progress.program?, mapM_id_eq_some.mpr functions]
  rfl

theorem of_program? (made : progress.program? p = some q) :
    (∀ f ∈ p.functions, (f.allocate rf).result = .ok (f.allocated rf)) ∧
      q = { p with functions := p.functions.map (·.allocated rf) } := by
  obtain ⟨functions, found, -⟩ := Option.map_eq_some_iff.mp made
  have each : ∀ f ∈ p.functions, (f.allocate rf).result = .ok (f.allocated rf) := by
    intro f member
    have listed : (f.allocate rf).result.toOption ∈ functions.map some := by
      rw [← mapM_id_eq_some.mp found, settled.functions]
      exact List.mem_map_of_mem member
    obtain ⟨g, -, same⟩ := List.mem_map.mp listed
    cases done : (f.allocate rf).result with
    | error e =>
      rw [done] at same
      cases same
    | ok g => rw [Function.allocated_eq done]
  refine ⟨each, ?_⟩
  rw [settled.program?_eq each] at made
  exact (Option.some.inj made).symm

end Settled

namespace Program

variable {p : Program} {alter : Function → Function}

theorem functionProblems_map {seen : List String} {functions : List Function}
    (clean : functionProblems seen functions = []) (names : ∀ f ∈ functions, (alter f).name = f.name)
    (each : ∀ f ∈ functions, (alter f).problems = []) : functionProblems seen (functions.map alter) = [] := by
  induction functions generalizing seen with
  | nil => rfl
  | cons f rest ih =>
    rw [List.forall_mem_cons] at names each
    rw [functionProblems, List.append_eq_nil_iff, List.append_eq_nil_iff] at clean
    rw [List.map_cons, functionProblems, names.1, clean.1.1, each.1, ih clean.2 names.2 each.2]
    rfl

theorem problems_map (clean : p.problems = []) (names : ∀ f ∈ p.functions, (alter f).name = f.name)
    (each : ∀ f ∈ p.functions, (alter f).problems = []) :
    problems { p with functions := p.functions.map alter } = [] := by
  obtain ⟨functions, entry⟩ := List.append_eq_nil_iff.mp clean
  refine List.append_eq_nil_iff.mpr ⟨functionProblems_map functions names each, ?_⟩
  have heads : (p.functions.map alter).map (·.name) = p.functions.map (·.name) := by
    rw [List.map_map]
    exact List.map_congr_left names
  have same : ((p.functions.map alter).any fun f => f.name == p.entry) =
      p.functions.any fun f => f.name == p.entry := by
    simpa only [List.any_map, Function.comp_def] using congrArg (List.any · (· == p.entry)) heads
  rwa [same]

theorem text_map (same : ∀ f ∈ p.functions, (alter f).text = f.text) :
    text { p with functions := p.functions.map alter } = p.text := by
  have lines : ((p.functions.map alter).map fun f => f.text ++ "\n") =
      p.functions.map fun f => f.text ++ "\n" := by
    rw [List.map_map]
    exact List.map_congr_left fun f member => by rw [Function.comp_apply, same f member]
  simp only [text, lines]

theorem encode_map
    (same : ∀ f ∈ p.functions, Interchange.functionJson (alter f) = Interchange.functionJson f) :
    Interchange.encode { p with functions := p.functions.map alter } = Interchange.encode p := by
  have functions : (p.functions.map alter).map Interchange.functionJson =
      p.functions.map Interchange.functionJson := by
    rw [List.map_map]
    exact List.map_congr_left same
  simp only [Interchange.encode, Interchange.programJson, functions]

-- Allocation leaves a program as it is. It takes one look at each function, and nothing is spilled, swept
-- or replaced.
structure Unmoved (rf : RegisterFile) (p : Program) (threads : Nat) : Prop where
  made : ∃ q, (p.allocate rf threads).progress.program? p = some q ∧ q.text = p.text ∧
    Interchange.encode q = Interchange.encode p
  errors : (p.allocate rf threads).progress.errors.combined = []
  stats : (p.allocate rf threads).progress.stats =
    { functions := p.functions.length, iterations := p.functions.length }
  each : ∀ f ∈ p.functions, (f.allocate rf).stats = { functions := 1, iterations := 1 }

theorem foldl_add_one (functions : List Function) {work : Function → Stats}
    (each : ∀ f ∈ functions, work f = { functions := 1, iterations := 1 }) (s : Stats) :
    (functions.map work).foldl Stats.add s =
      s.add { functions := functions.length, iterations := functions.length } := by
  induction functions generalizing s with
  | nil => rfl
  | cons f rest ih =>
    rw [List.forall_mem_cons] at each
    rw [List.map_cons, List.foldl_cons, ih each.2, each.1]
    simp [Stats.add]
    omega

structure Physical (rf : RegisterFile) (p : Program) : Prop where
  clean : p.problems = []
  valid : ∀ f ∈ p.functions, f.Valid rf
  registers : ∀ f ∈ p.functions, f.virtuals = []
  listed : ∀ f ∈ p.functions, ∀ inst ∈ f.body, inst.Listed

namespace Physical

variable (physical : p.Physical rf)
include physical

theorem unmoved (accepted : rf.Accepted) (threads : Nat) : p.Unmoved rf threads := by
  have settled := p.allocate_settled rf threads
  have again : ∀ f ∈ p.functions, ∃ t, f.table.Extends t ∧
      (f.allocate rf).result = .ok { f with table := t } ∧
        (f.allocate rf).stats = { functions := 1, iterations := 1 } := fun f member =>
    Allocation.allocate_registers accepted (physical.valid f member) (physical.registers f member)
  have results : ∀ f ∈ p.functions, (f.allocate rf).result = .ok (f.allocated rf) := by
    intro f member
    obtain ⟨t, -, done, -⟩ := again f member
    rw [Function.allocated_eq done, done]
  have stats : ∀ f ∈ p.functions, (f.allocate rf).stats = { functions := 1, iterations := 1 } := by
    intro f member
    obtain ⟨t, -, -, work⟩ := again f member
    exact work
  have respelled : ∀ f ∈ p.functions, Respelled f id (f.allocated rf) := by
    intro f member
    obtain ⟨t, grown, done, -⟩ := again f member
    rw [Function.allocated_eq done]
    exact (physical.valid f member).respelled grown
  refine ⟨⟨_, settled.program?_eq results, ?_, ?_⟩, ?_, ?_, stats⟩
  · exact text_map fun f member => (respelled f member).text_eq
  · exact encode_map fun f member => (respelled f member).functionJson_eq
  · refine settled.errors_eq_nil.mpr fun f member => ?_
    rw [results f member]
    rfl
  · rw [settled.stats, foldl_add_one p.functions stats]
    simp [Stats.add]

theorem reread : (p.reread (some rf)).Physical rf := by
  have respelled := fun f member => (physical.valid f member).reread_respelled
  have valid : ∀ f ∈ p.functions, (f.reread (some rf)).Valid rf := by
    intro f member
    obtain ⟨sound, convention⟩ := f.reread_sound (some rf)
    exact (respelled f member).stays_valid (physical.valid f member) sound convention
  refine ⟨?_, List.forall_mem_map.mpr valid, List.forall_mem_map.mpr fun f member => ?_,
    List.forall_mem_map.mpr fun f member => List.forall_mem_map.mpr fun inst inside => ?_⟩
  · refine problems_map physical.clean (fun f _ => rfl) fun f member => ?_
    have clean := functionProblems_eq_nil (List.append_eq_nil_iff.mp physical.clean).1 f member
    exact (valid f member).problems_eq_nil clean rfl rfl
  · exact (respelled f member).physical (physical.registers f member)
  · exact Instruction.listed_rename (physical.listed f member inst inside)

theorem text_reread : (p.reread (some rf)).text = p.text :=
  text_map fun f member => (physical.valid f member).reread_respelled.text_eq

theorem encode_reread : Interchange.encode (p.reread (some rf)) = Interchange.encode p :=
  encode_map fun f member => (physical.valid f member).reread_respelled.functionJson_eq

end Physical

theorem physical_of_program? (accepted : rf.Accepted) {text : String}
    (decoded : Interchange.decode text (some rf) = .ok p) {threads : Nat} {q : Program}
    (allocated : (p.allocate rf threads).progress.program? p = some q) : q.Physical rf := by
  obtain ⟨results, rfl⟩ := (p.allocate_settled rf threads).of_program? allocated
  have clean : ∀ f ∈ p.functions, f.problems = [] := fun f member =>
    (Interchange.decode_valid decoded member).2.2
  have made : ∀ f ∈ p.functions, Allocated rf f (f.allocated rf) := by
    intro f member
    obtain ⟨sound, convention, clean⟩ := Interchange.decode_valid decoded member
    exact allocated_of_result accepted (Function.valid_of_problems sound convention clean) (results f member)
  refine ⟨?_, List.forall_mem_map.mpr fun f member => (made f member).valid,
    List.forall_mem_map.mpr fun f member => (made f member).physical,
    List.forall_mem_map.mpr fun f member => ?_⟩
  · obtain ⟨_, -, all⟩ := Interchange.decode_ok decoded
    refine problems_map all (fun f member => (made f member).name) fun f member => ?_
    exact (made f member).valid.problems_eq_nil (clean f member) (made f member).name (made f member).args
  · exact (made f member).listed (Interchange.decode_listed decoded f member)

-- An allocated program is valid, it can be written and read again, and to allocate it once more
-- changes nothing.
theorem allocation_fixpoint {cfg : Config} (configured : RegisterFile.ofConfig cfg = .ok rf) {text : String}
    (decoded : Interchange.decode text (some rf) = .ok p) {threads : Nat} {q : Program}
    (allocated : (p.allocate rf threads).progress.program? p = some q) :
    q.problems = [] ∧ (∀ threads, q.Unmoved rf threads) ∧
      ∃ r, Interchange.decode (Interchange.encode q) (some rf) = .ok r ∧ r.text = q.text ∧
        Interchange.encode r = Interchange.encode q ∧ ∀ threads, r.Unmoved rf threads := by
  have accepted := RegisterFile.accepted_of_ofConfig configured
  have physical := physical_of_program? accepted decoded allocated
  have again := physical.reread
  refine ⟨physical.clean, physical.unmoved accepted, q.reread (some rf), ?_, physical.text_reread,
    physical.encode_reread, again.unmoved accepted⟩
  exact Interchange.decode_encode physical.listed again.clean

def acrossCallAlone : Program where
  entry := "@f"
  functions := [Allocation.acrossCall]

theorem allocation_fixpoint_acrossCall : ∃ p q r,
    Interchange.decode (Interchange.encode acrossCallAlone)
      (some (.draft Allocation.threeRegisters)) = .ok p ∧
    (p.allocate (.draft Allocation.threeRegisters) 1).progress.program? p = some q ∧
    (p.allocate (.draft Allocation.threeRegisters) 1).progress.stats.spills = 1 ∧ q.problems = [] ∧
    Interchange.decode (Interchange.encode q) (some (.draft Allocation.threeRegisters)) = .ok r ∧
    r.text = q.text ∧ q.Unmoved (.draft Allocation.threeRegisters) 1 ∧
    r.Unmoved (.draft Allocation.threeRegisters) 2 := by
  have listed : ∀ f ∈ acrossCallAlone.functions, ∀ inst ∈ f.body, inst.Listed := by
    simp [acrossCallAlone, Allocation.acrossCall, Instruction.Listed]
  have decoded : Interchange.decode (Interchange.encode acrossCallAlone)
      (some (.draft Allocation.threeRegisters)) =
        .ok (acrossCallAlone.reread (some (.draft Allocation.threeRegisters))) :=
    Interchange.decode_encode listed (by decide +kernel)
  have computed : (((acrossCallAlone.reread (some (.draft Allocation.threeRegisters))).allocate
        (.draft Allocation.threeRegisters) 1).progress.program?
          (acrossCallAlone.reread (some (.draft Allocation.threeRegisters)))).isSome = true ∧
      ((acrossCallAlone.reread (some (.draft Allocation.threeRegisters))).allocate
        (.draft Allocation.threeRegisters) 1).progress.stats.spills = 1 := by decide +kernel
  obtain ⟨q, allocated⟩ := Option.isSome_iff_exists.mp computed.1
  obtain ⟨problems, unmoved, r, again, text, -, unmoved'⟩ :=
    allocation_fixpoint Allocation.threeRegisters_configured decoded allocated
  exact ⟨_, q, r, decoded, allocated, computed.2, problems, again, text, unmoved 1, unmoved' 2⟩

end Program

end RegisterAllocation
