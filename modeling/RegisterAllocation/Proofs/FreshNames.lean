import Mathlib.Data.List.Nodup
import Mathlib.Data.List.Perm.Subperm
import RegisterAllocation.NameSequence
import RegisterAllocation.RegisterFile
import Std.Data.String.ToNat

namespace RegisterAllocation.NameSequence

variable {stem : String} {blocked used : List String}

theorem nameAt_injective {m n : Nat} (same : nameAt stem m = nameAt stem n) : m = n := by
  apply Nat.repr_injective
  have lists := congrArg String.toList same
  simp only [nameAt, String.toList_append, List.append_cancel_left_eq] at lists
  exact String.toList_inj.mp lists

theorem isVirtualName_nameAt (virtual : isVirtualName stem = true) (n : Nat) :
    isVirtualName (nameAt stem n) = true := by
  rw [isVirtualName, String.startsWith_string_iff] at virtual ⊢
  rw [nameAt, String.toList_append]
  exact virtual.trans (List.prefix_append _ _)

theorem firstFree_passes (stem : String) (blocked : List String) (tries n : Nat) :
    ∃ passed ≤ tries, firstFree stem blocked tries n = n + passed ∧
      (∀ m < passed, nameAt stem (n + m) ∈ blocked) ∧
      (passed < tries → nameAt stem (n + passed) ∉ blocked) := by
  induction tries generalizing n with
  | zero => exact ⟨0, Nat.le_refl _, rfl, by simp, by simp⟩
  | succ tries ih =>
    unfold firstFree
    split
    · rename_i hit
      obtain ⟨passed, bound, stop, behind, free⟩ := ih (n + 1)
      refine ⟨passed + 1, by omega, by rw [stop]; omega, ?_, ?_⟩
      · intro m early
        cases m with
        | zero => simpa using hit
        | succ m =>
          have past := behind m (by omega)
          rwa [Nat.add_right_comm, Nat.add_assoc] at past
      · intro early
        have last := free (by omega)
        rwa [Nat.add_right_comm, Nat.add_assoc] at last
    · rename_i miss
      exact ⟨0, by omega, rfl, by simp, fun _ => by simpa using miss⟩

theorem nameAt_firstFree_not_mem (stem : String) (blocked : List String) (n : Nat) :
    nameAt stem (firstFree stem blocked blocked.length n) ∉ blocked := by
  -- More numbers than blocked names cannot all be blocked, as different numbers give different names.
  obtain ⟨passed, bound, stop, behind, free⟩ := firstFree_passes stem blocked blocked.length n
  rw [stop]
  by_cases early : passed < blocked.length
  · exact free early
  · intro last
    have full : passed = blocked.length := by omega
    have distinct : ((List.range (passed + 1)).map fun m => nameAt stem (n + m)).Nodup := by
      refine List.Nodup.map_on ?_ List.nodup_range
      intro i _ j _ same
      have equal := nameAt_injective same
      omega
    have inside : ((List.range (passed + 1)).map fun m => nameAt stem (n + m)) ⊆ blocked := by
      intro name member
      obtain ⟨m, range, rfl⟩ := List.mem_map.mp member
      rcases Nat.lt_succ_iff_lt_or_eq.mp (List.mem_range.mp range) with before | rfl
      · exact behind m before
      · exact last
    have count := (List.subperm_of_subset distinct inside).length_le
    simp only [List.length_map, List.length_range] at count
    omega

theorem draw_name (s : NameSequence) (used : List String) :
    ∃ n, s.next ≤ n ∧ (s.draw used).1 = nameAt s.stem n ∧ (s.draw used).2.next = n + 1 := by
  obtain ⟨passed, -, stop, -⟩ :=
    firstFree_passes s.stem (s.taken ++ used) (s.taken ++ used).length s.next
  exact ⟨s.next + passed, by omega, by rw [draw, stop], by rw [draw, stop]⟩

theorem draw_not_used (s : NameSequence) (used : List String) : (s.draw used).1 ∉ used := by
  have free := nameAt_firstFree_not_mem s.stem (s.taken ++ used) s.next
  intro member
  exact free (List.mem_append_right _ member)

inductive Next (stem : String) (taken : List String) : Nat → Nat → Prop
  | free {n : Nat} (free : nameAt stem n ∉ taken) : Next stem taken n n
  | skip {n m : Nat} (busy : nameAt stem n ∈ taken) (later : Next stem taken (n + 1) m) : Next stem taken n m

inductive Fresh (stem : String) (taken used : List String) : Nat → Nat → Prop
  | unused {n m : Nat} (next : Next stem taken n m) (new : nameAt stem m ∉ used) : Fresh stem taken used n m
  | again {n m k : Nat} (next : Next stem taken n m) (old : nameAt stem m ∈ used)
      (later : Fresh stem taken used (m + 1) k) : Fresh stem taken used n k

inductive Draws (stem : String) (taken : List String) : List String → Nat → List String → Nat → Prop
  | nil {used : List String} {n : Nat} : Draws stem taken used n [] n
  | cons {used rest : List String} {n m k : Nat} (fresh : Fresh stem taken used n m)
      (later : Draws stem taken (used ++ [nameAt stem m]) (m + 1) rest k) :
      Draws stem taken used n (nameAt stem m :: rest) k

variable {taken names : List String} {n m k : Nat}

theorem Next.found (next : Next stem taken n m) : n ≤ m ∧ nameAt stem m ∉ taken := by
  induction next with
  | free free => exact ⟨Nat.le_refl _, free⟩
  | skip _ _ ih => exact ⟨Nat.le_of_succ_le ih.1, ih.2⟩

theorem Fresh.found (fresh : Fresh stem taken used n m) :
    n ≤ m ∧ nameAt stem m ∉ taken ∧ nameAt stem m ∉ used := by
  induction fresh with
  | unused next new => exact ⟨next.found.1, next.found.2, new⟩
  | again next _ _ ih => exact ⟨Nat.le_trans next.found.1 (Nat.le_of_succ_le ih.1), ih.2⟩

theorem Fresh.skip (busy : nameAt stem n ∈ taken) (fresh : Fresh stem taken used (n + 1) m) :
    Fresh stem taken used n m := by
  cases fresh with
  | unused next new => exact .unused (.skip busy next) new
  | again next old later => exact .again (.skip busy next) old later

theorem fresh_of_passes (passed : Nat) (behind : ∀ m < passed, nameAt stem (n + m) ∈ taken ++ used)
    (stop : nameAt stem (n + passed) ∉ taken ++ used) : Fresh stem taken used n (n + passed) := by
  -- The two loops end where one search over all blocked names does.
  induction passed generalizing n with
  | zero =>
    rw [List.mem_append, not_or] at stop
    exact .unused (.free stop.1) stop.2
  | succ passed ih =>
    rw [show n + (passed + 1) = n + 1 + passed by omega] at stop ⊢
    have later : Fresh stem taken used (n + 1) (n + 1 + passed) := by
      refine ih (fun m early => ?_) stop
      rw [show n + 1 + m = n + (m + 1) by omega]
      exact behind (m + 1) (Nat.succ_lt_succ early)
    by_cases busy : nameAt stem n ∈ taken
    · exact later.skip busy
    · have old : nameAt stem n ∈ used :=
        (List.mem_append.mp (behind 0 (Nat.succ_pos _))).resolve_left busy
      exact .again (.free busy) old later

theorem draw_fresh (s : NameSequence) (used : List String) :
    ∃ n, Fresh s.stem s.taken used s.next n ∧ s.draw used = (nameAt s.stem n, { s with next := n + 1 }) := by
  obtain ⟨passed, -, stop, behind, -⟩ :=
    firstFree_passes s.stem (s.taken ++ used) (s.taken ++ used).length s.next
  have free := nameAt_firstFree_not_mem s.stem (s.taken ++ used) s.next
  rw [stop] at free
  exact ⟨s.next + passed, fresh_of_passes passed behind free, by rw [draw, stop]⟩

namespace Draws

theorem numbered (draws : Draws stem taken used n names k) :
    n ≤ k ∧ ∀ name ∈ names, ∃ j, n ≤ j ∧ j < k ∧ name = nameAt stem j := by
  induction draws with
  | nil => exact ⟨Nat.le_refl _, by simp⟩
  | @cons used rest n m k fresh later ih =>
    obtain ⟨bound, numbers⟩ := ih
    have first := fresh.found.1
    refine ⟨by omega, fun name member => ?_⟩
    rcases List.mem_cons.mp member with rfl | member
    · exact ⟨m, first, bound, rfl⟩
    · obtain ⟨j, low, high, named⟩ := numbers name member
      exact ⟨j, by omega, high, named⟩

theorem not_taken (draws : Draws stem taken used n names k) : ∀ name ∈ names, name ∉ taken := by
  induction draws with
  | nil => simp
  | cons fresh _ ih => exact List.forall_mem_cons.mpr ⟨fresh.found.2.1, ih⟩

theorem not_used (draws : Draws stem taken used n names k) : ∀ name ∈ names, name ∉ used := by
  induction draws with
  | nil => simp
  | cons fresh _ ih =>
    refine List.forall_mem_cons.mpr ⟨fresh.found.2.2, fun name member old => ?_⟩
    exact ih name member (List.mem_append_left _ old)

theorem nodup (draws : Draws stem taken used n names k) : names.Nodup := by
  induction draws with
  | nil => exact List.nodup_nil
  | cons _ later ih =>
    refine List.nodup_cons.mpr ⟨fun again => ?_, ih⟩
    exact later.not_used _ again (List.mem_append_right _ List.mem_cons_self)

end Draws

end RegisterAllocation.NameSequence
