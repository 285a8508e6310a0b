import RegisterAllocation.Coloring
import RegisterAllocation.Proofs.RegisterFiles

namespace RegisterAllocation

namespace Config

def colorNames (cfg : Config) : List String :=
  if cfg.allocatable.getD [] = [] then cfg.callerSaved.getD [] ++ cfg.calleeSaved.getD []
  else cfg.allocatable.getD []

structure Consistent (cfg : Config) : Prop where
  some_color : cfg.colorNames ≠ []
  distinct : cfg.colorNames.Nodup
  spelled : ∀ r ∈ cfg.colorNames, r ≠ "" ∧ isVirtualName r = false
  saved_once : ∀ r ∈ cfg.calleeSaved.getD [], r ∉ cfg.callerSaved.getD []
  sp_named : cfg.sp ≠ ""
  sp_apart : cfg.sp ∉ cfg.colorNames
  result : cfg.result ∈ cfg.colorNames
  args : ∀ r ∈ cfg.args.getD [], r ∈ cfg.colorNames
  callerSaved : ∀ r ∈ cfg.callerSaved.getD [], r ∈ cfg.colorNames
  calleeSaved : ∀ r ∈ cfg.calleeSaved.getD [], r ∈ cfg.colorNames
  tempPrefix : cfg.tempPrefix = "" ∨ isVirtualName cfg.tempPrefix = true

-- A register file answers every question as the settings have it. A color is the place of its name, and
-- there are no registers but the colors and the stack pointer.
structure AnsweredBy (cfg : Config) (rf : RegisterFile) : Prop where
  k : rf.k = cfg.colorNames.length
  some_color : 1 ≤ rf.k
  retry : 1 ≤ rf.retry
  get : ∀ (i : Nat) name, cfg.colorNames[i]? = some name → rf.get i = .ok name ∧
    rf.color? name = some i ∧ (rf.isCallerSaved name = true ↔ name ∈ cfg.callerSaved.getD [])
  range : ∀ i : Int, (∃ name, rf.get i = .ok name) ↔ 0 ≤ i ∧ i < rf.k
  color : ∀ name i, rf.color? name = some i ↔ cfg.colorNames[i]? = some name
  register : ∀ name, rf.isRegister name = true ↔ name = cfg.sp ∨ name ∈ cfg.colorNames
  convention : rf.args = cfg.args.getD [] ∧ rf.callerSaved = cfg.callerSaved.getD [] ∧
    rf.calleeSaved = cfg.calleeSaved.getD [] ∧ rf.result = cfg.result ∧ rf.sp = cfg.sp

end Config

namespace RegisterFile

variable {rf : RegisterFile} {cfg : Config} {accepted names : List String}

theorem candidates_eq (cfg : Config) : candidates cfg = cfg.colorNames := by
  unfold candidates Config.colorNames
  split
  · rename_i none
    rw [if_pos none]
  · rename_i some
    rw [if_neg some]

theorem colorFlaws_eq_nil_iff : colorFlaws accepted names = [] ↔
    (∀ r ∈ names, r ≠ "" ∧ isVirtualName r = false) ∧ names.Nodup ∧ ∀ r ∈ names, r ∉ accepted := by
  induction names generalizing accepted with
  | nil => simp [colorFlaws]
  | cons name rest ih =>
    rw [colorFlaws]
    split
    · rename_i improper
      simp only [reduceCtorEq, false_iff]
      intro h
      have proper := h.1 name List.mem_cons_self
      simp [proper.1, proper.2] at improper
    · rename_i proper
      split
      · rename_i known
        simp only [reduceCtorEq, false_iff]
        intro h
        exact h.2.2 name List.mem_cons_self (List.contains_iff_mem.mp known)
      · rename_i new
        simp only [Bool.or_eq_true, String.isEmpty_iff, not_or, Bool.not_eq_true] at proper
        rw [List.contains_iff_mem] at new
        simp only [ih, List.forall_mem_cons, List.nodup_cons, List.mem_append, List.mem_singleton, not_or]
        constructor
        · intro h
          obtain ⟨spelled, distinct, apart⟩ := h
          exact ⟨⟨proper, spelled⟩, ⟨fun again => (apart name again).2 rfl, distinct⟩, new,
            fun r member => (apart r member).1⟩
        · intro h
          obtain ⟨⟨-, spelled⟩, ⟨once, distinct⟩, -, apart⟩ := h
          refine ⟨spelled, distinct, fun r member => ⟨apart r member, ?_⟩⟩
          intro same
          exact once (same ▸ member)

theorem colors_of_clean (clean : colorFlaws accepted names = []) :
    colors accepted names = accepted ++ names := by
  induction names generalizing accepted with
  | nil => simp [colors]
  | cons name rest ih =>
    obtain ⟨spelled, -, apart⟩ := colorFlaws_eq_nil_iff.mp clean
    have proper := spelled name List.mem_cons_self
    have new : accepted.contains name = false := by simpa using apart name List.mem_cons_self
    have kept : (name.isEmpty || isVirtualName name) = false := by simp [proper.1, proper.2]
    simp only [colorFlaws, kept, new, Bool.false_eq_true, if_false] at clean
    simp only [colors, kept, new, Bool.or_false, Bool.false_eq_true, if_false, ih clean, List.append_assoc,
      List.singleton_append]

theorem tempPrefix_draft_iff (cfg : Config) : isVirtualName (draft cfg).tempPrefix = true ↔
    cfg.tempPrefix = "" ∨ isVirtualName cfg.tempPrefix = true := by
  simp only [draft, Config.nonEmptyOr]
  split
  · rename_i empty
    rw [String.isEmpty_iff] at empty
    simp only [empty, true_or, iff_true]
    decide +kernel
  · rename_i given
    rw [String.isEmpty_iff] at given
    simp [given]

theorem registers_draft (clean : colorFlaws [] cfg.colorNames = []) :
    (draft cfg).registers = cfg.colorNames := by
  rw [draft, candidates_eq, colors_of_clean clean, List.nil_append]

theorem colorFlaws_of_consistent (consistent : cfg.Consistent) : colorFlaws [] cfg.colorNames = [] :=
  colorFlaws_eq_nil_iff.mpr ⟨consistent.spelled, consistent.distinct, by simp⟩

theorem flaws_eq_nil_iff : flaws cfg = [] ↔ cfg.Consistent := by
  simp only [flaws, List.append_eq_nil_iff, List.map_eq_nil_iff, List.filter_eq_nil_iff, candidates_eq,
    List.contains_iff_mem, spFlaws_eq_nil_iff, resultFlaws_eq_nil_iff]
  constructor
  · intro h
    obtain ⟨⟨⟨⟨⟨⟨saved, clean⟩, count⟩, sp⟩, result⟩, members⟩, stem⟩ := h
    obtain ⟨spelled, distinct, -⟩ := colorFlaws_eq_nil_iff.mp clean
    rw [registers_draft clean] at count sp result members
    have listed : ∀ r ∈ (draft cfg).args ++ (draft cfg).callerSaved ++ (draft cfg).calleeSaved,
        r ∈ cfg.colorNames := fun r member => by simpa using members r member
    refine ⟨?_, distinct, spelled, saved, sp.1, sp.2, result.2, fun r member => listed r ?_,
      fun r member => listed r ?_, fun r member => listed r ?_, (tempPrefix_draft_iff cfg).mp ?_⟩
    · intro none
      simp [none] at count
    · simp [draft, member]
    · simp [draft, member]
    · simp [draft, member]
    · by_contra wrong
      simp [wrong] at stem
  · intro consistent
    have clean := colorFlaws_of_consistent consistent
    rw [registers_draft clean]
    have named : cfg.result ≠ "" := (consistent.spelled _ consistent.result).1
    refine ⟨⟨⟨⟨⟨⟨consistent.saved_once, clean⟩, ?_⟩, consistent.sp_named, consistent.sp_apart⟩, named,
      consistent.result⟩, fun r member => ?_⟩, ?_⟩
    · simp [consistent.some_color]
    · have listed : r ∈ cfg.colorNames := by
        simp only [draft, List.mem_append] at member
        rcases member with (arg | caller) | callee
        · exact consistent.args r arg
        · exact consistent.callerSaved r caller
        · exact consistent.calleeSaved r callee
      simp [listed]
    · simp [(tempPrefix_draft_iff cfg).mpr consistent.tempPrefix]

theorem retry_draft_pos (cfg : Config) : 1 ≤ (draft cfg).retry := by
  simp only [draft]
  split
  · decide
  · rename_i enough
    rw [Int64.lt_iff_toInt_lt] at enough
    have one : (1 : Word).toInt = 1 := rfl
    rw [one] at enough
    rw [Int64.toNatClampNeg]
    omega

theorem get_eq_ok_iff {i : Int} {name : String} :
    rf.get i = .ok name ↔ 0 ≤ i ∧ rf.registers[i.toNat]? = some name := by
  cases i with
  | negSucc n => simp [get]
  | ofNat n =>
    have place : (Int.ofNat n).toNat = n := rfl
    rw [place]
    cases found : rf.registers[n]? <;> simp [get, found]

theorem exists_get_iff {i : Int} : (∃ name, rf.get i = .ok name) ↔ 0 ≤ i ∧ i < rf.k := by
  simp only [get_eq_ok_iff, k]
  constructor
  · intro h
    obtain ⟨name, low, found⟩ := h
    have inside := (List.getElem?_eq_some_iff.mp found).1
    omega
  · intro h
    have inside : i.toNat < rf.registers.length := by omega
    exact ⟨_, h.1, List.getElem?_eq_getElem inside⟩

theorem answeredBy_of_ofConfig (made : ofConfig cfg = .ok rf) : cfg.AnsweredBy rf := by
  have accepted := accepted_of_ofConfig made
  obtain ⟨none, rfl⟩ := flaws_nil_of_ofConfig made
  have registers := registers_draft (colorFlaws_of_consistent (flaws_eq_nil_iff.mp none))
  have color : ∀ name i, (draft cfg).color? name = some i ↔ cfg.colorNames[i]? = some name := by
    intro name i
    rw [color?_eq_some_iff accepted, registers]
  refine ⟨by rw [k, registers], accepted.some_register, retry_draft_pos cfg, fun i name here => ?_,
    fun i => exists_get_iff, color, fun name => ?_, rfl, rfl, rfl, rfl, rfl⟩
  · refine ⟨get_eq_ok_iff.mpr ⟨Int.natCast_nonneg i, by rwa [registers, Int.toNat_natCast]⟩,
      (color name i).mpr here, List.contains_iff_mem⟩
  · rw [isRegister_iff, registers]
    rfl

-- Just the consistent settings are accepted, and the register file made from them is theirs.
theorem ofConfig_exact (cfg : Config) :
    ((∃ rf, ofConfig cfg = .ok rf) ↔ cfg.Consistent) ∧ ∀ rf, ofConfig cfg = .ok rf → cfg.AnsweredBy rf := by
  refine ⟨?_, fun rf => answeredBy_of_ofConfig⟩
  rw [← flaws_eq_nil_iff]
  constructor
  · intro h
    obtain ⟨rf, made⟩ := h
    exact (flaws_nil_of_ofConfig made).1
  · intro clean
    exact ⟨draft cfg, by simp only [ofConfig, clean]⟩

theorem ofConfig_exact_x8664 : ∃ rf, ofConfig .x8664 = .ok rf ∧ rf.k = 15 ∧ rf.color? "rcx" = some 5 ∧
    rf.get 5 = .ok "rcx" ∧ rf.isRegister "rsp" = true := by
  have answered := (ofConfig_exact .x8664).2 _ x8664_configured
  have rcx := answered.get 5 "rcx" (by decide)
  exact ⟨_, x8664_configured, answered.k, rcx.2.1, rcx.1, (answered.register "rsp").mpr (.inl rfl)⟩

end RegisterFile

end RegisterAllocation
