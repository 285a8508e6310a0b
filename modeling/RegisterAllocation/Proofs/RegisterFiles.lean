import Mathlib.Data.List.Nodup
import RegisterAllocation.RegisterFile

namespace RegisterAllocation

theorem exists_of_isOk {α ε : Type} {x : Except ε α} (ok : x.isOk = true) : ∃ a, x = .ok a := by
  cases x with
  | error e => cases ok
  | ok a => exact ⟨a, rfl⟩

structure RegisterFile.Accepted (rf : RegisterFile) : Prop where
  distinct : rf.registers.Nodup
  spelled : ∀ r ∈ rf.registers, r.isEmpty = false ∧ isVirtualName r = false
  some_register : 0 < rf.k
  sp_named : rf.sp.isEmpty = false
  sp_apart : rf.sp ∉ rf.registers
  result : rf.result ∈ rf.registers
  args : ∀ r ∈ rf.args, r ∈ rf.registers
  callerSaved : ∀ r ∈ rf.callerSaved, r ∈ rf.registers
  calleeSaved : ∀ r ∈ rf.calleeSaved, r ∈ rf.registers
  tempPrefix : isVirtualName rf.tempPrefix = true

namespace RegisterFile

variable {rf : RegisterFile} {cfg : Config} {name : String}

theorem colors_nodup (accepted names : List String) (distinct : accepted.Nodup) :
    (colors accepted names).Nodup := by
  induction names generalizing accepted with
  | nil => exact distinct
  | cons name rest ih =>
    unfold colors
    split
    · exact ih accepted distinct
    · rename_i kept
      have fresh : name ∉ accepted := by
        simp only [Bool.or_eq_true, not_or, List.contains_iff_mem] at kept
        exact kept.2
      exact ih _ (distinct.append (List.nodup_singleton _) (by simpa using fresh))

theorem colors_spelled (accepted names : List String)
    (spelled : ∀ r ∈ accepted, r.isEmpty = false ∧ isVirtualName r = false) :
    ∀ r ∈ colors accepted names, r.isEmpty = false ∧ isVirtualName r = false := by
  induction names generalizing accepted with
  | nil => exact spelled
  | cons name rest ih =>
    unfold colors
    split
    · exact ih accepted spelled
    · rename_i kept
      refine ih _ ?_
      intro r member
      rcases List.mem_append.mp member with old | new
      · exact spelled r old
      · cases List.mem_singleton.mp new
        simp only [Bool.or_eq_true, not_or, Bool.not_eq_true] at kept
        exact kept.1

theorem flaws_nil_of_ofConfig (made : ofConfig cfg = .ok rf) : flaws cfg = [] ∧ rf = draft cfg := by
  unfold ofConfig at made
  split at made
  · rename_i clean
    exact ⟨clean, (Except.ok.inj made).symm⟩
  · cases made

theorem x8664_configured : ofConfig .x8664 = .ok (draft .x8664) := by decide +kernel

theorem spFlaws_eq_nil_iff : rf.spFlaws = [] ↔ rf.sp ≠ "" ∧ rf.sp ∉ rf.registers := by
  unfold spFlaws
  split
  · simp_all
  · split <;> simp_all

theorem resultFlaws_eq_nil_iff : rf.resultFlaws = [] ↔ rf.result ≠ "" ∧ rf.result ∈ rf.registers := by
  unfold resultFlaws
  split
  · simp_all
  · split <;> simp_all

theorem accepted_of_ofConfig (made : ofConfig cfg = .ok rf) : rf.Accepted := by
  obtain ⟨clean, rfl⟩ := flaws_nil_of_ofConfig made
  simp only [flaws, List.append_eq_nil_iff, List.map_eq_nil_iff, List.filter_eq_nil_iff] at clean
  obtain ⟨⟨⟨⟨⟨⟨-, -⟩, count⟩, sp⟩, result⟩, members⟩, stem⟩ := clean
  have listed : ∀ r ∈ (draft cfg).args ++ (draft cfg).callerSaved ++ (draft cfg).calleeSaved,
      r ∈ (draft cfg).registers := by
    intro r member
    simpa using members r member
  have spFacts := spFlaws_eq_nil_iff.mp sp
  have spNamed : (draft cfg).sp.isEmpty = false := by simpa using spFacts.1
  refine ⟨colors_nodup _ _ List.nodup_nil, colors_spelled _ _ (by simp), ?_, spNamed, spFacts.2,
    (resultFlaws_eq_nil_iff.mp result).2, ?_, ?_, ?_, ?_⟩
  · rw [k, List.length_pos_iff]
    intro empty
    simp [empty] at count
  · exact fun r member => listed r (by simp [member])
  · exact fun r member => listed r (by simp [member])
  · exact fun r member => listed r (by simp [member])
  · by_contra wrong
    simp [wrong] at stem

theorem isRegister_iff : rf.isRegister name = true ↔ name = rf.sp ∨ name ∈ rf.registers := by
  simp [isRegister]

theorem isRegister_of_mem (member : name ∈ rf.registers) : rf.isRegister name = true :=
  isRegister_iff.mpr (.inr member)

theorem Accepted.not_virtual (accepted : rf.Accepted) (member : name ∈ rf.registers) :
    isVirtualName name = false :=
  (accepted.spelled name member).2

theorem Accepted.ne_sp (accepted : rf.Accepted) (member : name ∈ rf.registers) : name ≠ rf.sp := by
  intro same
  subst same
  exact accepted.sp_apart member

theorem color?_eq_some_iff (accepted : rf.Accepted) {c : Nat} :
    rf.color? name = some c ↔ rf.registers[c]? = some name := by
  unfold color?
  rw [List.idxOf?_eq_some_iff, List.getElem?_eq_some_iff]
  constructor
  · intro h
    obtain ⟨bound, hit, -⟩ := h
    exact ⟨bound, hit⟩
  · intro h
    obtain ⟨bound, hit⟩ := h
    refine ⟨bound, hit, ?_⟩
    intro j earlier same
    have equal := (List.Nodup.getElem_inj_iff accepted.distinct).mp (same.trans hit.symm)
    omega

end RegisterFile

end RegisterAllocation
