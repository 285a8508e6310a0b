import RegisterAllocation.Interchange.Decode
import RegisterAllocation.Proofs.Progress

namespace RegisterAllocation

namespace Interchange

namespace Reader

variable {α β : Type}

def Keeps (r : Reader α) : Prop :=
  ∀ s : Reading, s.table.Sound → s.table.Extends (r.run s).2.table ∧ (r.run s).2.table.Sound

theorem keeps_pure (a : α) : Keeps (pure a) := fun s sound => ⟨.refl s.table, sound⟩

theorem Keeps.bind {r : Reader α} {next : α → Reader β} (first : Keeps r) (rest : ∀ a, Keeps (next a)) :
    Keeps (r >>= next) := by
  intro s sound
  obtain ⟨grown, sound'⟩ := first s sound
  obtain ⟨more, sound''⟩ := rest (r.run s).1 (r.run s).2 sound'
  exact ⟨grown.trans more, sound''⟩

theorem keeps_flaw (e : Flaw) : Keeps (flaw e) := fun s sound => ⟨.refl s.table, sound⟩

theorem keeps_intern (name : String) : Keeps (intern name) := fun s sound =>
  ⟨VarTable.intern_extends s.table name, VarTable.intern_sound sound name⟩

theorem keeps_mapM_intern (name : Option String) : Keeps (name.mapM intern) := by
  cases name with
  | none => exact keeps_pure none
  | some name => exact (keeps_intern name).bind fun op => keeps_pure (some op)

theorem keeps_operand (role : Role) (d : Option OperandDraft) : Keeps (operand role d) := by
  cases d with
  | none => exact (keeps_flaw _).bind fun _ => keeps_pure _
  | some d =>
    refine (keeps_mapM_intern d.var).bind fun var => (keeps_mapM_intern d.reg).bind fun reg => ?_
    dsimp only
    split
    · exact keeps_pure _
    · exact (keeps_flaw _).bind fun _ => keeps_pure _

theorem keeps_arithOp (symbol : String) : Keeps (arithOp symbol) := by
  unfold arithOp
  split
  · exact keeps_pure _
  · exact (keeps_flaw _).bind fun _ => keeps_pure _

theorem keeps_relation (symbol : String) : Keeps (relation symbol) := by
  unfold relation
  split
  · exact keeps_pure _
  · exact (keeps_flaw _).bind fun _ => keeps_pure _

theorem keeps_ofKind (kind : InstructionKind) (d : InstructionDraft) : Keeps (ofKind kind d) := by
  have two : ∀ (r r' : Role) (a b : Option OperandDraft) (f : Operand → Operand → Instruction),
      Keeps (do return f (← operand r a) (← operand r' b)) := fun r r' a b f =>
    (keeps_operand r a).bind fun _ => (keeps_operand r' b).bind fun _ => keeps_pure _
  have one : ∀ (r : Role) (a : Option OperandDraft) (f : Operand → Instruction),
      Keeps (do return f (← operand r a)) := fun r a f => (keeps_operand r a).bind fun _ => keeps_pure _
  cases kind with
  | ret | label | goto | runtimeCall => exact keeps_pure _
  | assign | load | store => exact two _ _ _ _ _
  | call | increment | decrement | stackArg => exact one _ _ _
  | arith | loadArith | storeArith => exact (keeps_arithOp _).bind fun _ => two _ _ _ _ _
  | cjump => exact (keeps_relation _).bind fun _ => two _ _ _ _ _
  | compare => exact (keeps_relation _).bind fun _ => (keeps_operand _ _).bind fun _ => two _ _ _ _ _
  | lea => exact (keeps_operand _ _).bind fun _ => two _ _ _ _ _

theorem keeps_instruction (d : InstructionDraft) : Keeps (instruction d) := by
  unfold instruction
  split
  · exact (keeps_flaw _).bind fun _ => keeps_pure _
  · exact (keeps_ofKind _ _).bind fun _ => keeps_pure _

end Reader

theorem readBody_keeps (name : String) (t : VarTable) (i : Nat) (drafts : List InstructionDraft)
    (sound : t.Sound) :
    t.Extends (readBody name t i drafts).2.1 ∧ (readBody name t i drafts).2.1.Sound := by
  induction drafts generalizing t i with
  | nil => exact ⟨.refl t, sound⟩
  | cons d rest ih =>
    obtain ⟨grown, sound'⟩ := Reader.keeps_instruction d { table := t } sound
    obtain ⟨more, sound''⟩ := ih ((Reader.instruction d).run { table := t }).2.table (i + 1) sound'
    exact ⟨grown.trans more, sound''⟩

theorem readFunction_sound (convention : Option RegisterFile) (d : FunctionDraft) :
    (readFunction convention d).1.table.Sound ∧ (readFunction convention d).1.convention = convention := by
  obtain ⟨grown, sound⟩ := readBody_keeps d.name { convention := convention } 0 d.instructions.items
    (VarTable.empty_sound convention)
  exact ⟨sound, grown.convention⟩

theorem decode_ok {text : String} {convention : Option RegisterFile} {p : Program}
    (decoded : decode text convention = .ok p) :
    ∃ d, readProgram convention d = (p, []) ∧ p.problems = [] := by
  unfold decode at decoded
  split at decoded
  · cases decoded
  · rename_i d _
    unfold ofDraft at decoded
    split at decoded
    · rename_i q read
      split at decoded
      · rename_i clean
        cases decoded
        exact ⟨d, read, clean⟩
      · cases decoded
    · cases decoded

theorem mem_readProgram {convention : Option RegisterFile} {d : ProgramDraft} {p : Program}
    (read : readProgram convention d = (p, [])) {f : Function} (member : f ∈ p.functions) :
    ∃ draft, readFunction convention draft = (f, []) := by
  have functions : (d.functions.items.map (readFunction convention)).map Prod.fst = p.functions :=
    congrArg (fun r => r.1.functions) read
  have problems : ((d.functions.items.map (readFunction convention)).map Prod.snd).flatten = [] :=
    congrArg Prod.snd read
  rw [← functions, List.map_map] at member
  obtain ⟨draft, given, made⟩ := List.mem_map.mp member
  refine ⟨draft, Prod.ext made (List.flatten_eq_nil_iff.mp problems _ ?_)⟩
  exact List.mem_map_of_mem (List.mem_map_of_mem given)

end Interchange

theorem Program.functionProblems_eq_nil {seen : List String} {functions : List Function}
    (clean : functionProblems seen functions = []) : ∀ f ∈ functions, f.problems = [] := by
  induction functions generalizing seen with
  | nil => simp
  | cons first rest ih =>
    simp only [functionProblems, List.append_eq_nil_iff] at clean
    intro f member
    rcases List.mem_cons.mp member with rfl | later
    · exact clean.1.2
    · exact ih clean.2 f later

theorem Interchange.decode_valid {text : String} {rf : RegisterFile} {p : Program}
    (decoded : decode text (some rf) = .ok p) {f : Function} (member : f ∈ p.functions) :
    f.table.Sound ∧ f.convention = some rf ∧ f.problems = [] := by
  obtain ⟨d, read, clean⟩ := decode_ok decoded
  obtain ⟨draft, made⟩ := mem_readProgram read member
  have kept := readFunction_sound (some rf) draft
  rw [made] at kept
  exact ⟨kept.1, kept.2, Program.functionProblems_eq_nil (List.append_eq_nil_iff.mp clean).1 f member⟩

namespace Allocation

variable {rf : RegisterFile} {f : Function} {sp : VarId} {vs : List VarId} {tmp : Nat → VarId → VarId}
  {s : State} {sheet : Sheet} {b : Built} {lv : Liveness} {attempt : Coloring}

-- All that a round looks up is there: variables in their table, successors in the body, nodes in the
-- graph, colors in the register file.
structure InBounds (rf : RegisterFile) (s : State) (sheet : Sheet) (lv : Liveness) (attempt : Coloring) :
    Prop where
  analysis : s.sheet.analyze = (sheet, .ok lv)
  colored : Coloring.color (Graph.build sheet lv rf).1 (Graph.build sheet lv rf).2.function rf s.temps =
    .ok attempt
  operands : ∀ inst ∈ sheet.function.body, inst.Resolvable sheet.function.table
  sets : ∀ note ∈ sheet.notes, ∀ x, x ∈ note.used ∨ x ∈ note.defined → x < sheet.function.table.size
  links : ∀ note ∈ sheet.notes, ∀ j ∈ note.succ, j < sheet.notes.length
  nodes : ∀ x ∈ (Graph.build sheet lv rf).1.nodes, x < (Graph.build sheet lv rf).2.function.table.size
  colors : ∀ (x : VarId) (c : Nat), attempt.colors[x]? = some c →
    c < rf.k ∧ x ∈ (Graph.build sheet lv rf).1.nodes
  uncolored : ∀ x ∈ attempt.uncolored, x ∈ (Graph.build sheet lv rf).1.nodes

theorem Opened.inBounds (opened : Opened rf s sheet lv b) (ready : Ready rf f sp vs tmp lv b)
    (colored : Coloring.color b.graph b.state.sheet.function rf b.state.temps = .ok attempt)
    (attempted : Coloring.Attempted rf b.graph attempt) : InBounds rf s sheet lv attempt := by
  have interferes := ready.interferes
  have analyzed := ready.analyzed
  rw [opened.graph, opened.built, opened.temps] at colored
  rw [opened.graph] at attempted interferes
  rw [opened.built] at interferes analyzed
  refine ⟨opened.analysis, colored, opened.analyzed.valid.resolvable, fun note member x touched => ?_,
    fun note member j next => ?_, fun x node => ?_, fun x c found => ?_, fun x member => ?_⟩
  · exact opened.analyzed.referenced_lt_size (Sheet.mem_referenced.mpr ⟨note, member, touched⟩)
  · obtain ⟨i, here⟩ := List.mem_iff_getElem?.mp member
    rw [opened.analyzed.notes_length]
    exact ((opened.analyzed.links i note here j).mp next).lt_length
  · exact interferes.node_lt_size analyzed (Graph.mem_nodes.mp node)
  · obtain ⟨inside, node⟩ := attempted.bounded x c found
    exact ⟨inside, Graph.mem_nodes.mpr node⟩
  · exact Graph.mem_nodes.mpr (Coloring.mem_virtualNodes.mp (attempted.uncolored x member)).1

def Stuck (rf : RegisterFile) (s : State) : Prop :=
  ∃ sheet lv, s.sheet.analyze = (sheet, .ok lv) ∧ ∀ x ∈ (Graph.build sheet lv rf).1.nodes,
    State.spillable { s with sheet := (Graph.build sheet lv rf).2 } x = false

theorem Opened.stuck (accepted : rf.Accepted) (valid : f.Valid rf)
    (pointer : sp < f.table.size ∧ f.table.nameOf sp = rf.sp) (opened : Opened rf s sheet lv b)
    (ready : Ready rf f sp vs tmp lv b) (none : ∀ x, ¬Left f vs x) : Stuck rf s := by
  refine ⟨sheet, lv, opened.analysis, fun x node => ?_⟩
  rw [← opened.graph, Graph.mem_nodes] at node
  have same : State.spillable { s with sheet := (Graph.build sheet lv rf).2 } x = b.state.spillable x := by
    simp only [State.spillable, State.table, opened.built, opened.temps]
  rw [same, Bool.eq_false_iff]
  exact fun able => none x ((spillable_iff accepted valid pointer ready node).mp able)

-- A function of a decoded program is allocated, or the allocation fails at a sweep that finds nothing
-- to spill. No round on the way looks for something that is not there.
theorem decoded_function_allocates {cfg : Config} (configured : RegisterFile.ofConfig cfg = .ok rf)
    {text : String} {p : Program} (decoded : Interchange.decode text (some rf) = .ok p)
    (member : f ∈ p.functions) :
    ((∃ g, (f.allocate rf).result = .ok g) ∨
      ∃ uncolored n s, (f.allocate rf).result = .error (.nothingToSpill f.name uncolored) ∧
        entry rf n (start f rf) = some s ∧ round rf s = .error (f.allocate rf) ∧ Stuck rf s) ∧
    ∀ n s, entry rf n (start f rf) = some s → ∃ sheet lv attempt, InBounds rf s sheet lv attempt := by
  have accepted := RegisterFile.accepted_of_ofConfig configured
  obtain ⟨sound, convention, clean⟩ := Interchange.decode_valid decoded member
  have valid := Function.valid_of_problems sound convention clean
  obtain ⟨s₁, lv₀, f', sp, b₀, begun⟩ := start_begun accepted valid
  have sameName : f'.name = f.name := by rw [begun.same]
  refine ⟨?_, fun n s entered => ?_⟩
  · obtain ⟨n, s, _, _, _, _, _, _, entered, ended, -, last⟩ := allocate_last accepted valid begun
    rcases last.outcome with ⟨-, _, -, -, done⟩ | ⟨-, _, uncolored, none, -, done⟩
    · rw [done]
      exact .inl ⟨_, rfl⟩
    · refine .inr ⟨uncolored, n, s, ?_, entered, ended,
        last.opened.stuck accepted begun.valid begun.pointer last.ready none⟩
      rw [done, ← sameName]
      rfl
  · obtain ⟨vs, tmp, sheet, lv, b, -, opened, ready, -, -⟩ := entry_turn accepted valid begun entered
    obtain ⟨attempt, colored, attempted, -⟩ := conclude_cases accepted begun.valid begun.pointer ready
    exact ⟨sheet, lv, attempt, opened.inBounds ready colored attempted⟩

def countUp : String :=
  "\x7b\"entry\":\"@f\",\"functions\":[\x7b\"name\":\"@f\",\"instructions\":[" ++
    "\x7b\"op\":\"increment\",\"dst\":\x7b\"var\":\"%a\"\x7d\x7d," ++
    "\x7b\"op\":\"return\"\x7d]\x7d]\x7d"

theorem decoded_function_allocates_countUp :
    ∃ p f, Interchange.decode countUp (some (.draft threeRegisters)) = .ok p ∧ p.functions = [f] ∧
      ((∃ g, (f.allocate (.draft threeRegisters)).result = .ok g) ∨
        ∃ uncolored, (f.allocate (.draft threeRegisters)).result =
          .error (.nothingToSpill f.name uncolored)) := by
  have single : (Interchange.decode countUp (some (.draft threeRegisters))).toOption.map
      (·.functions.length) = some 1 := by decide +kernel
  cases decoded : Interchange.decode countUp (some (.draft threeRegisters)) with
  | error e => simp [decoded, Except.toOption] at single
  | ok p =>
    obtain ⟨f, only⟩ : ∃ f, p.functions = [f] := by
      simpa [decoded, Except.toOption, List.length_eq_one_iff] using single
    refine ⟨p, f, rfl, only, ?_⟩
    have member : f ∈ p.functions := by simp [only]
    obtain ⟨done | ⟨uncolored, _, _, failed, -⟩, -⟩ := decoded_function_allocates threeRegisters_configured
      decoded member
    · exact .inl done
    · exact .inr ⟨uncolored, failed⟩

end Allocation

end RegisterAllocation
