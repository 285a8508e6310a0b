import RegisterAllocation.Proofs.Derivations
import RegisterAllocation.Proofs.Fixpoints

namespace RegisterAllocation

namespace VarTable

variable {t t' t'' : VarTable} {name : String} {names more : List String}

structure Bijective (t : VarTable) : Prop where
  named : ∀ id < t.size, t.id? (t.nameOf id) = some id
  numbered : ∀ name id, t.id? name = some id → id < t.size ∧ t.nameOf id = name

theorem bijective_iff : t.Bijective ↔ t.names.Nodup := by
  refine ⟨fun bijective => ?_, fun distinct => ⟨fun _ => id?_nameOf_of_nodup distinct, fun _ _ => id?_eq_some⟩⟩
  rw [List.nodup_iff_getElem?_ne_getElem?]
  intro i j order bound same
  rw [names_length] at bound
  have known : i < t.size := Nat.lt_trans order bound
  rw [names_getElem? known, names_getElem? bound, Option.some_inj] at same
  have number := bijective.named i known
  rw [same, bijective.named j bound] at number
  exact Nat.ne_of_gt order (Option.some.inj number)

structure Gains (t : VarTable) (names : List String) (t' : VarTable) : Prop where
  convention : t'.convention = t.convention
  vars : ∃ added, t'.vars = t.vars ++ added ∧ ∀ v ∈ added, v.name ∈ names ∧ v.kind = t.kindOf v.name
  bijective : t.Bijective → t'.Bijective

theorem Gains.refl (t : VarTable) (names : List String) : t.Gains names t :=
  ⟨rfl, ⟨[], by simp, by simp⟩, id⟩

theorem Gains.mono (gains : t.Gains names t') (subset : names ⊆ more) : t.Gains more t' := by
  obtain ⟨added, split, listed⟩ := gains.vars
  refine ⟨gains.convention, ⟨added, split, fun v member => ?_⟩, gains.bijective⟩
  exact ⟨subset (listed v member).1, (listed v member).2⟩

theorem Gains.trans (first : t.Gains names t') (second : t'.Gains names t'') : t.Gains names t'' := by
  obtain ⟨added, split, listed⟩ := first.vars
  obtain ⟨added', split', listed'⟩ := second.vars
  have kinds : t'.kindOf = t.kindOf := by
    funext name
    simp only [kindOf, first.convention]
  refine ⟨second.convention.trans first.convention, ⟨added ++ added', ?_, ?_⟩,
    fun bijective => second.bijective (first.bijective bijective)⟩
  · rw [split', split, List.append_assoc]
  · rw [List.forall_mem_append]
    rw [kinds] at listed'
    exact ⟨listed, listed'⟩

theorem Gains.append (first : t.Gains names t') (second : t'.Gains more t'') : t.Gains (names ++ more) t'' :=
  (first.mono (List.subset_append_left _ _)).trans (second.mono (List.subset_append_right _ _))

theorem Gains.extends (gains : t.Gains names t') : t.Extends t' := by
  obtain ⟨added, split, -⟩ := gains.vars
  exact ⟨gains.convention, added, split.symm⟩

theorem Gains.sound (gains : t.Gains names t') (sound : t.Sound) : t'.Sound := by
  obtain ⟨added, split, listed⟩ := gains.vars
  refine ⟨bijective_iff.mp (gains.bijective (bijective_iff.mpr sound.distinct)), ?_⟩
  have kinds : t'.kindOf = t.kindOf := by
    funext name
    simp only [kindOf, gains.convention]
  rw [split, kinds, List.forall_mem_append]
  exact ⟨sound.kinds, fun v member => (listed v member).2⟩

theorem intern_gains (t : VarTable) (listed : name ∈ names) : t.Gains names (t.intern name).2 := by
  refine ⟨(intern_extends t name).convention, ?_, fun bijective =>
    bijective_iff.mpr (intern_nodup (bijective_iff.mp bijective) name)⟩
  cases found : t.id? name with
  | some id => exact ⟨[], by simp [intern_known found], by simp⟩
  | none => exact ⟨[⟨name, t.kindOf name⟩], by simp [intern_new found], by simpa using listed⟩

theorem internAll_gains (t : VarTable) (listed : more ⊆ names) : t.Gains names (t.internAll more).2 := by
  induction more generalizing t with
  | nil => exact .refl t names
  | cons name rest ih =>
    obtain ⟨here, later⟩ := List.cons_subset.mp listed
    exact (t.intern_gains here).trans (ih _ later)

end VarTable

def RegisterFile.implied (rf : RegisterFile) : List String :=
  rf.sp :: rf.result :: (rf.args ++ rf.callerSaved ++ rf.calleeSaved)

def VarTable.implied (t : VarTable) : List String := (t.convention.map RegisterFile.implied).getD []

theorem VarTable.implied_eq {t : VarTable} {rf : RegisterFile} (convention : t.convention = some rf) :
    t.implied = rf.implied := by
  rw [implied, convention, Option.map_some, Option.getD_some]

theorem RegisterFile.Accepted.implied_registers {rf : RegisterFile} (accepted : rf.Accepted) :
    ∀ name ∈ rf.implied, rf.isRegister name = true := by
  intro name member
  simp only [implied, List.mem_cons, List.mem_append] at member
  rw [isRegister_iff]
  rcases member with pointer | rfl | (argument | saved) | saved
  · exact .inl pointer
  · exact .inr accepted.result
  · exact .inr (accepted.args name argument)
  · exact .inr (accepted.callerSaved name saved)
  · exact .inr (accepted.calleeSaved name saved)

namespace UseDef

variable {sp : Option VarId} {t t' : VarTable} {set : UseDef} {inst : Instruction}

theorem ofCall_gains {used : VarSet} {arity : Word} (found : ofCall sp t used arity = .ok (set, t')) :
    t.Gains t.implied t' := by
  unfold ofCall at found
  split at found
  · cases found
    exact .refl t _
  · rename_i rf convention
    split at found
    · cases found
    · cases found
      rw [VarTable.implied_eq convention]
      refine (t.internAll_gains fun name member => ?_).trans (VarTable.internAll_gains _ fun name member => ?_)
      · have argument := List.mem_of_mem_take (List.mem_filter.mp member).1
        simp [RegisterFile.implied, argument]
      · simp [RegisterFile.implied, member]

theorem ofReturn_gains (sp : Option VarId) (t : VarTable) : t.Gains t.implied (ofReturn sp t).2 := by
  unfold ofReturn
  split
  · exact .refl t _
  · rename_i rf convention
    rw [VarTable.implied_eq convention]
    refine t.internAll_gains fun name member => ?_
    rcases List.mem_cons.mp (List.mem_filter.mp member).1 with rfl | saved
    · simp [RegisterFile.implied]
    · simp [RegisterFile.implied, saved]

theorem ofInstruction_gains (found : ofInstruction sp t inst = .ok (set, t')) : t.Gains t.implied t' := by
  by_cases isReturn : inst = .ret
  · subst isReturn
    have returned : ofReturn sp t = (set, t') := Except.ok.inj found
    have gains := ofReturn_gains sp t
    rwa [returned] at gains
  · cases call : inst.arity? with
    | some n =>
      rw [ofInstruction_call _ _ call] at found
      exact ofCall_gains found
    | none =>
      cases written : inst.destination? with
      | none =>
        rw [ofInstruction_reading _ _ written call isReturn] at found
        cases found
        exact .refl t _
      | some op =>
        rw [ofInstruction_writing _ _ written] at found
        cases op with
        | var d =>
          cases found
          exact .refl t _
        | num _ | label _ | name _ => cases found

-- Also what is cut short by a fault has gained no other names.
theorem ofBody_gains (sp : Option VarId) (t : VarTable) (body : List Instruction) :
    t.Gains t.implied (ofBody sp t body).2.1 := by
  induction body generalizing t with
  | nil => exact .refl t _
  | cons inst rest ih =>
    unfold ofBody
    split
    · exact .refl t _
    · rename_i set t' found
      have first := ofInstruction_gains found
      have second := ih t'
      rw [VarTable.implied, first.convention] at second
      exact first.trans second

theorem internStackPointer_gains (t : VarTable) : t.Gains t.implied (internStackPointer t).2 := by
  unfold internStackPointer
  split
  · exact .refl t _
  · rename_i rf convention
    split
    · exact .refl t _
    · rw [VarTable.implied_eq convention]
      exact t.intern_gains List.mem_cons_self

end UseDef

theorem Function.useDefs_gains (f : Function) : f.table.Gains f.table.implied f.useDefs.2.1 := by
  have first := UseDef.internStackPointer_gains f.table
  have second := UseDef.ofBody_gains (UseDef.internStackPointer f.table).1
    (UseDef.internStackPointer f.table).2 f.body
  rw [VarTable.implied, first.convention] at second
  exact first.trans second

-- All that a pass may do to a function that it reads: variables join the end of its table. They are
-- registers that the calling convention implies, or those listed.
structure Extended (f : Function) (registers : List String) (g : Function) : Prop where
  name : g.name = f.name
  args : g.args = f.args
  locals : g.locals = f.locals
  spilled : g.spilled = f.spilled
  body : g.body = f.body
  table : f.table.Gains (f.table.implied ++ registers) g.table

namespace Extended

variable {f g h : Function} {registers more : List String}

theorem refl (f : Function) : Extended f [] f :=
  ⟨rfl, rfl, rfl, rfl, rfl, .refl _ _⟩

theorem mono (extended : Extended f registers g) (subset : registers ⊆ more) : Extended f more g :=
  { extended with table := extended.table.mono (List.append_subset.mpr
      ⟨List.subset_append_left _ _, List.subset_append_of_subset_right _ subset⟩) }

theorem trans (first : Extended f registers g) (second : Extended g more h) : Extended f (registers ++ more) h := by
  refine ⟨second.name.trans first.name, second.args.trans first.args, second.locals.trans first.locals,
    second.spilled.trans first.spilled, second.body.trans first.body, ?_⟩
  have earlier := (first.mono (List.subset_append_left registers more)).table
  have later := (second.mono (List.subset_append_right registers more)).table
  rw [VarTable.implied, earlier.convention] at later
  exact earlier.trans later

theorem eq_withTable (extended : Extended f registers g) : g = { f with table := g.table } := by
  obtain ⟨name, args, locals, body, table, spilled⟩ := g
  obtain ⟨rfl, rfl, rfl, rfl, rfl, -⟩ := extended
  rfl

theorem respelled (extended : Extended f registers g) (known : ∀ x, f.Mentions x → x < f.table.size) :
    Respelled f id g := by
  rw [extended.eq_withTable]
  exact Function.respelled_of_extends known extended.table.extends

end Extended

namespace Sheet

variable (s : Sheet)

theorem resolve_extended : Extended s.function [] s.resolve.1.function :=
  ⟨rfl, rfl, rfl, rfl, rfl, s.function.useDefs_gains.mono (List.subset_append_left _ _)⟩

theorem analyze_extended : Extended s.function [] s.analyze.1.function := by
  rcases s.analyze_function with same | resolved
  · rw [same]
    exact .refl _
  · rw [resolved]
    exact s.resolve_extended

theorem build_extended (lv : Liveness) (rf : RegisterFile) :
    Extended s.function rf.registers (Graph.build s lv rf).2.function :=
  ⟨rfl, rfl, rfl, rfl, rfl, s.function.table.internAll_gains (List.subset_append_right _ _)⟩

theorem spill_extended (id : Int) (names : NameSequence) :
    Extended s.function [] (s.spill id names).1.function := by
  rcases s.spill_cases id names with ⟨e, refused⟩ | ⟨fault, ended⟩ | ⟨v, sp, -, -, moved⟩
  · rw [refused]
    exact .refl _
  · rw [ended]
    exact s.resolve_extended
  · rw [moved]
    exact s.resolve_extended

theorem allocate_extended (rf : RegisterFile) : Extended s.function rf.registers (s.allocate rf).1.function := by
  -- Only the first round works on the function itself, all later ones on functions derived from it.
  have first := s.analyze_extended
  cases analyzed : s.analyze with
  | mk after result =>
    rw [analyzed] at first
    cases result with
    | error e =>
      have same : (s.allocate rf).1 = after := by
        simp only [allocate, Allocation.analyze, analyzed, Allocation.State.enter, Allocation.State.report]
      rw [same]
      exact first.mono (List.nil_subset _)
    | ok lv =>
      have same : (s.allocate rf).1 = (Graph.build after lv rf).2 := by
        simp only [allocate, Allocation.analyze, analyzed, Allocation.State.enter, Allocation.State.report,
          Allocation.build]
      rw [same]
      exact first.trans (after.build_extended lv rf)

end Sheet

theorem Allocation.registerMap_gains (t : VarTable) (pairs : List (VarId × String)) :
    t.Gains (pairs.map Prod.snd) (registerMap t pairs).2 := by
  induction pairs generalizing t with
  | nil => exact .refl t _
  | cons pair rest ih =>
    exact (t.intern_gains List.mem_cons_self).trans ((ih _).mono (List.subset_cons_self _ _))

theorem Derived.gains {f g : Function} {slots : List Word} (derived : Derived f slots g) :
    ∃ names, f.table.Gains names g.table := by
  induction derived with
  | self => exact ⟨[], .refl _ _⟩
  | @analyzed slots s _ ih =>
    obtain ⟨names, gains⟩ := ih
    exact ⟨_, gains.append s.analyze_extended.table⟩
  | @built slots s lv rf _ ih =>
    obtain ⟨names, gains⟩ := ih
    exact ⟨_, gains.append (s.build_extended lv rf).table⟩
  | @spilled slots s id seq m _ done ih =>
    obtain ⟨names, gains⟩ := ih
    obtain ⟨v, sp, -, rfl⟩ := Sheet.spill_ok done
    have pointer := (gains.append s.resolve_extended.table).append
      (s.resolve.1.function.table.intern_gains (List.mem_singleton_self sp))
    rw [Spill.move_table]
    exact ⟨_, pointer.append (VarTable.internAll_gains _ (List.Subset.refl _))⟩
  | @assigned slots g rf attempt _ ih =>
    obtain ⟨names, gains⟩ := ih
    rw [Allocation.assignRegisters_eq]
    exact ⟨_, gains.append (Allocation.registerMap_gains _ _)⟩

inductive Request where
  | analyze
  | build (lv : Liveness) (rf : RegisterFile)
  | spill (id : Int) (names : NameSequence)
  | allocate (rf : RegisterFile)

namespace Request

def after (s : Sheet) : Request → Sheet
  | .analyze => s.analyze.1
  | .build lv rf => (Graph.build s lv rf).2
  | .spill id names => (s.spill id names).1
  | .allocate rf => (s.allocate rf).1

def made? (s : Sheet) : Request → Option Function
  | .analyze | .build .. => none
  | .spill id names => (s.spill id names).2.2.toOption.map Spilled.function
  | .allocate rf => (s.allocate rf).2.result.toOption

def registers : Request → List String
  | .analyze | .spill .. => []
  | .build _ rf | .allocate rf => rf.registers

theorem after_extended (s : Sheet) (r : Request) : Extended s.function r.registers (r.after s).function := by
  cases r with
  | analyze => exact s.analyze_extended
  | build lv rf => exact s.build_extended lv rf
  | spill id names => exact s.spill_extended id names
  | allocate rf => exact s.allocate_extended rf

theorem foldl_extended (s : Sheet) (requests : List Request) :
    Extended s.function (requests.flatMap registers) (requests.foldl after s).function := by
  induction requests generalizing s with
  | nil => exact .refl _
  | cons r rest ih => exact (r.after_extended s).trans (ih _)

theorem made_derived {s : Sheet} {r : Request} {g : Function} (made : r.made? s = some g) :
    ∃ slots, Derived s.function slots g := by
  cases r with
  | analyze | build lv rf => cases made
  | spill id names =>
    cases done : (s.spill id names).2.2 with
    | error e =>
      rw [made?, done] at made
      cases made
    | ok m =>
      rw [made?, done] at made
      cases made
      exact ⟨_, Derived.spilled .self done⟩
  | allocate rf =>
    cases result : (s.allocate rf).2.result with
    | error e =>
      rw [made?, result] at made
      cases made
    | ok g =>
      rw [made?, result] at made
      cases made
      obtain ⟨slots, derived, -⟩ := Sheet.allocate_derived result
      exact ⟨slots, derived⟩

end Request

-- Whatever is asked about a function, and whether it succeeds or not, only the table of the
-- function grows: the function reads the same, old numbers keep their names and kinds, and what is
-- added are registers. All functions made on the way are derived from it, and no table ever has a
-- name twice.
theorem requests_only_extend (s : Sheet) (requests : List Request) :
    let f := s.function
    let s' := requests.foldl Request.after s
    Extended f (requests.flatMap Request.registers) s'.function ∧
      (∀ rf, f.convention = some rf → rf.Accepted → ∀ name ∈ f.table.implied, rf.isRegister name = true) ∧
      ((∀ x, f.Mentions x → x < f.table.size) → s'.function.text = f.text ∧
        Interchange.functionJson s'.function = Interchange.functionJson f) ∧
      (∀ r g, Request.made? s' r = some g → ∃ slots, Derived s'.function slots g) ∧
      ∀ slots g, Derived s'.function slots g → f.table.Extends g.table ∧
        (f.table.Bijective → g.table.Bijective) := by
  intro f s'
  have extended : Extended f (requests.flatMap Request.registers) s'.function := Request.foldl_extended s requests
  refine ⟨extended, fun rf convention accepted => ?_, fun known => ?_, fun r g => Request.made_derived,
    fun slots g derived => ?_⟩
  · rw [VarTable.implied_eq convention]
    exact accepted.implied_registers
  · have respelled := extended.respelled known
    exact ⟨respelled.text_eq, respelled.functionJson_eq⟩
  · obtain ⟨names, gains⟩ := derived.gains
    have grown := extended.table.append gains
    exact ⟨grown.extends, grown.bijective⟩

theorem requests_only_extend_acrossCall :
    let s := Sheet.ofFunction Allocation.acrossCall
    let s' := [Request.spill 0 { stem := "%s" }, .allocate (.draft Allocation.threeRegisters)].foldl
      Request.after s
    s'.function.text = s.function.text ∧ s.function.table.size < s'.function.table.size ∧
      ∃ g, Request.made? s' (.allocate (.draft Allocation.threeRegisters)) = some g ∧ g.table.Bijective := by
  intro s s'
  obtain ⟨-, -, reads, made, derived⟩ := requests_only_extend s
    [.spill 0 { stem := "%s" }, .allocate (.draft Allocation.threeRegisters)]
  have valid : Allocation.acrossCall.Valid (.draft Allocation.threeRegisters) :=
    Function.valid_of_problems Allocation.acrossCall_sound rfl Allocation.acrossCall_problems
  have computed : s.function.table.size < s'.function.table.size ∧
      (Request.made? s' (.allocate (.draft Allocation.threeRegisters))).isSome = true := by decide +kernel
  obtain ⟨g, allocated⟩ := Option.isSome_iff_exists.mp computed.2
  obtain ⟨slots, from_s'⟩ := made _ g allocated
  refine ⟨(reads fun x mentioned => valid.mentions_lt_size mentioned).1, computed.1, g, allocated, ?_⟩
  exact (derived slots g from_s').2 (VarTable.bijective_iff.mpr Allocation.acrossCall_sound.distinct)

end RegisterAllocation
