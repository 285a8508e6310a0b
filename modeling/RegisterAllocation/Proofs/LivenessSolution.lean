import Mathlib.Algebra.BigOperators.Group.Finset.Basic
import Mathlib.Algebra.Order.BigOperators.Group.Finset
import Mathlib.Data.List.Perm.Subperm
import RegisterAllocation.Analysis.Liveness

namespace RegisterAllocation

namespace VarSet

theorem mem_insert_iff {s : VarSet} {x y : VarId} : x ∈ s.insert y ↔ x = y ∨ x ∈ s := by
  rw [Std.ExtTreeSet.mem_insert, Std.LawfulEqOrd.compare_eq_iff_eq, @eq_comm _ y x]

theorem mem_erase_iff {s : VarSet} {x y : VarId} : x ∈ s.erase y ↔ x ∈ s ∧ x ≠ y := by
  rw [Std.ExtTreeSet.mem_erase, ne_eq, Std.LawfulEqOrd.compare_eq_iff_eq, @eq_comm _ y x, and_comm]

theorem nodup_toList (s : VarSet) : s.toList.Nodup := by
  have distinct := Std.ExtTreeSet.distinct_toList (t := s)
  exact distinct.imp fun apart same => apart (Std.LawfulEqOrd.compare_eq_iff_eq.mpr same)

theorem size_le_of_subset {s s' : VarSet} (inside : ∀ x ∈ s, x ∈ s') : s.size ≤ s'.size := by
  rw [← Std.ExtTreeSet.length_toList, ← Std.ExtTreeSet.length_toList]
  refine (List.subperm_of_subset (nodup_toList s) ?_).length_le
  intro x member
  exact Std.ExtTreeSet.mem_toList.mpr (inside x (Std.ExtTreeSet.mem_toList.mp member))

theorem size_lt_of_subset {s s' : VarSet} {x : VarId} (inside : ∀ x ∈ s, x ∈ s') (new : x ∈ s')
    (absent : x ∉ s) : s.size < s'.size := by
  have grown : ∀ y ∈ s.insert x, y ∈ s' := by
    intro y member
    rcases mem_insert_iff.mp member with rfl | old
    · exact new
    · exact inside y old
  have count := size_le_of_subset grown
  rw [Std.ExtTreeSet.size_insert, if_neg (by simpa using absent)] at count
  omega

theorem size_le_of_lt {s : VarSet} {bound : Nat} (below : ∀ x ∈ s, x < bound) : s.size ≤ bound := by
  rw [← Std.ExtTreeSet.length_toList, ← List.length_range (n := bound)]
  refine (List.subperm_of_subset (nodup_toList s) ?_).length_le
  intro x member
  exact List.mem_range.mpr (below x (Std.ExtTreeSet.mem_toList.mp member))

end VarSet

namespace Liveness

variable {notes : List Note} {note : Note} {lv lv' : Liveness} {i : Nat} {x : VarId}

def liveIn (lv : Liveness) (i : Nat) : VarSet := lv.ins.getD i ∅

def liveOut (lv : Liveness) (i : Nat) : VarSet := lv.outs.getD i ∅

theorem lt_size_of_mem {sets : Array VarSet} (member : x ∈ sets.getD i ∅) : i < sets.size := by
  by_contra beyond
  rw [Array.getD_eq_getD_getElem?, Array.getElem?_eq_none (Nat.le_of_not_lt beyond)] at member
  simp at member

-- Families of sets that take in all that flows into them.
structure Closed (notes : List Note) (ins outs : Nat → VarId → Prop) : Prop where
  used : ∀ i note, notes[i]? = some note → ∀ x ∈ note.used, ins i x
  kept : ∀ i note, notes[i]? = some note → ∀ x, outs i x → x ∉ note.defined → ins i x
  flows : ∀ i note, notes[i]? = some note → ∀ s ∈ note.succ, ∀ x, ins s x → outs i x

structure Solves (notes : List Note) (lv : Liveness) : Prop where
  ins_size : lv.ins.size = notes.length
  outs_size : lv.outs.size = notes.length
  mem_in : ∀ i note, notes[i]? = some note → ∀ x,
    x ∈ lv.liveIn i ↔ x ∈ note.used ∨ (x ∈ lv.liveOut i ∧ x ∉ note.defined)
  mem_out : ∀ i note, notes[i]? = some note → ∀ x,
    x ∈ lv.liveOut i ↔ ∃ s ∈ note.succ, x ∈ lv.liveIn s
  least : ∀ ins outs, Closed notes ins outs →
    (∀ i, ∀ x ∈ lv.liveIn i, ins i x) ∧ (∀ i, ∀ x ∈ lv.liveOut i, outs i x)

theorem mem_outOf {ins : Array VarSet} : x ∈ outOf ins note ↔ ∃ s ∈ note.succ, x ∈ ins.getD s ∅ := by
  have general : ∀ (succ : List Nat) (start : VarSet),
      x ∈ succ.foldl (fun out s => out ∪ ins.getD s ∅) start ↔
        x ∈ start ∨ ∃ s ∈ succ, x ∈ ins.getD s ∅ := by
    intro succ
    induction succ with
    | nil => simp
    | cons s rest ih =>
      intro start
      rw [List.foldl_cons, ih, Std.ExtTreeSet.mem_union_iff, or_assoc]
      simp
  rw [outOf, general]
  simp

theorem mem_inOf {out : VarSet} : x ∈ inOf note out ↔ x ∈ note.used ∨ (x ∈ out ∧ x ∉ note.defined) := by
  rw [inOf, Std.ExtTreeSet.mem_union_iff, Std.ExtTreeSet.mem_diff_iff]

def Grows (lv lv' : Liveness) : Prop :=
  (∀ i, ∀ x ∈ lv.liveIn i, x ∈ lv'.liveIn i) ∧ (∀ i, ∀ x ∈ lv.liveOut i, x ∈ lv'.liveOut i)

theorem Grows.refl (lv : Liveness) : lv.Grows lv := ⟨fun _ _ h => h, fun _ _ h => h⟩

theorem Grows.trans {lv'' : Liveness} (first : lv.Grows lv') (second : lv'.Grows lv'') :
    lv.Grows lv'' :=
  ⟨fun i x member => second.1 i x (first.1 i x member),
    fun i x member => second.2 i x (first.2 i x member)⟩

theorem Grows.outOf (grows : lv.Grows lv') (member : x ∈ outOf lv.ins note) :
    x ∈ Liveness.outOf lv'.ins note := by
  rw [mem_outOf] at member ⊢
  obtain ⟨s, edge, live⟩ := member
  exact ⟨s, edge, grows.1 s x live⟩

theorem inOf_mono {out out' : VarSet} (inside : ∀ x ∈ out, x ∈ out') (member : x ∈ inOf note out) :
    x ∈ inOf note out' := by
  rw [mem_inOf] at member ⊢
  exact member.imp_right fun kept => ⟨inside x kept.1, kept.2⟩

-- No set has more than its equation gives it. Updates keep this and so only add to sets.
structure Rising (notes : List Note) (lv : Liveness) : Prop where
  ins_size : lv.ins.size = notes.length
  outs_size : lv.outs.size = notes.length
  liveIn : ∀ i note, notes[i]? = some note → ∀ x ∈ lv.liveIn i, x ∈ inOf note (outOf lv.ins note)
  liveOut : ∀ i note, notes[i]? = some note → ∀ x ∈ lv.liveOut i, x ∈ outOf lv.ins note

def updated (note : Note) (i : Nat) (lv : Liveness) : Liveness :=
  { lv with
    ins := lv.ins.setIfInBounds i (inOf note (outOf lv.ins note))
    outs := lv.outs.setIfInBounds i (outOf lv.ins note) }

theorem liveIn_updated (inside : i < lv.ins.size) (j : Nat) :
    (updated note i lv).liveIn j =
      if j = i then inOf note (outOf lv.ins note) else lv.liveIn j := by
  simp only [updated, Liveness.liveIn, Array.getD_eq_getD_getElem?, Array.getElem?_setIfInBounds]
  by_cases same : i = j
  · subst same; simp [inside]
  · simp [same, Ne.symm same]

theorem liveOut_updated (inside : i < lv.outs.size) (j : Nat) :
    (updated note i lv).liveOut j = if j = i then outOf lv.ins note else lv.liveOut j := by
  simp only [updated, Liveness.liveOut, Array.getD_eq_getD_getElem?, Array.getElem?_setIfInBounds]
  by_cases same : i = j
  · subst same; simp [inside]
  · simp [same, Ne.symm same]

theorem update_eq (note : Note) (i : Nat) (lv : Liveness) (changed : Bool) :
    update note i (lv, changed) = (updated note i lv,
      changed || !(inOf note (outOf lv.ins note) == lv.liveIn i && outOf lv.ins note == lv.liveOut i)) :=
  rfl

theorem Rising.lt_size (rising : Rising notes lv) (here : notes[i]? = some note) :
    i < lv.ins.size ∧ i < lv.outs.size := by
  have inside : i < notes.length := (List.getElem?_eq_some_iff.mp here).1
  rw [rising.ins_size, rising.outs_size]
  exact ⟨inside, inside⟩

theorem Rising.grows_updated (rising : Rising notes lv) (here : notes[i]? = some note) :
    lv.Grows (updated note i lv) := by
  obtain ⟨insideIn, insideOut⟩ := rising.lt_size here
  refine ⟨fun j x member => ?_, fun j x member => ?_⟩
  · rw [liveIn_updated insideIn]
    split
    · rename_i same; subst same; exact rising.liveIn j note here x member
    · exact member
  · rw [liveOut_updated insideOut]
    split
    · rename_i same; subst same; exact rising.liveOut j note here x member
    · exact member

theorem Rising.updated (rising : Rising notes lv) (here : notes[i]? = some note) :
    Rising notes (updated note i lv) := by
  obtain ⟨insideIn, insideOut⟩ := rising.lt_size here
  have grows := rising.grows_updated here
  refine ⟨by simp [Liveness.updated, rising.ins_size], by simp [Liveness.updated, rising.outs_size],
    fun j other there x member => ?_, fun j other there x member => ?_⟩
  · refine inOf_mono (fun y out => grows.outOf out) ?_
    rw [liveIn_updated insideIn] at member
    split at member
    · rename_i same; subst same
      cases Option.some.inj (here.symm.trans there)
      exact member
    · exact rising.liveIn j other there x member
  · refine grows.outOf ?_
    rw [liveOut_updated insideOut] at member
    split at member
    · rename_i same; subst same
      cases Option.some.inj (here.symm.trans there)
      exact member
    · exact rising.liveOut j other there x member

-- A family of bounds that is closed holds every set ever reached.
def Bounded (ins outs : Nat → VarId → Prop) (lv : Liveness) : Prop :=
  (∀ i, ∀ x ∈ lv.liveIn i, ins i x) ∧ (∀ i, ∀ x ∈ lv.liveOut i, outs i x)

theorem Bounded.updated {ins outs : Nat → VarId → Prop} (bounded : Bounded ins outs lv)
    (closed : Closed notes ins outs) (rising : Rising notes lv) (here : notes[i]? = some note) :
    Bounded ins outs (updated note i lv) := by
  obtain ⟨insideIn, insideOut⟩ := rising.lt_size here
  have flowing : ∀ x ∈ outOf lv.ins note, outs i x := by
    intro x member
    obtain ⟨s, edge, live⟩ := mem_outOf.mp member
    exact closed.flows i note here s edge x (bounded.1 s x live)
  refine ⟨fun j x member => ?_, fun j x member => ?_⟩
  · rw [liveIn_updated insideIn] at member
    split at member
    · rename_i same; subst same
      rcases mem_inOf.mp member with used | ⟨out, kept⟩
      · exact closed.used j note here x used
      · exact closed.kept j note here x (flowing x out) kept
    · exact bounded.1 j x member
  · rw [liveOut_updated insideOut] at member
    split at member
    · rename_i same; subst same; exact flowing x member
    · exact bounded.2 j x member

theorem updated_eq_self (sameIn : inOf note (outOf lv.ins note) = lv.liveIn i)
    (sameOut : outOf lv.ins note = lv.liveOut i) : updated note i lv = lv := by
  have unchanged : ∀ sets : Array VarSet, sets.setIfInBounds i (sets.getD i ∅) = sets := by
    intro sets
    apply Array.ext_getElem?
    intro j
    rw [Array.getElem?_setIfInBounds, Array.getD_eq_getD_getElem?]
    by_cases same : i = j
    · subst same
      by_cases inside : i < sets.size <;> simp [inside]
    · simp [same]
  unfold updated
  rw [sameIn, sameOut, liveIn, liveOut, unchanged, unchanged]

-- What a part of a pass does: sets only grow, and it reports a change exactly if one grew.
structure Swept (notes : List Note) (entries : List (Note × Nat)) (lv lv' : Liveness)
    (changed : Bool) : Prop where
  rising : Rising notes lv'
  grows : lv.Grows lv'
  passes : lv'.passes = lv.passes
  bounded : ∀ ins outs, Closed notes ins outs → Bounded ins outs lv → Bounded ins outs lv'
  still : changed = false → lv' = lv ∧ ∀ entry ∈ entries,
    inOf entry.1 (outOf lv.ins entry.1) = lv.liveIn entry.2 ∧
      outOf lv.ins entry.1 = lv.liveOut entry.2
  moved : changed = true → ∃ i < notes.length, ∃ x,
    (x ∈ lv'.liveIn i ∧ x ∉ lv.liveIn i) ∨ (x ∈ lv'.liveOut i ∧ x ∉ lv.liveOut i)

theorem exists_new {s s' : VarSet} (inside : ∀ x ∈ s, x ∈ s') (differ : s' ≠ s) :
    ∃ x, x ∈ s' ∧ x ∉ s := by
  by_contra none
  apply differ
  apply Std.ExtTreeSet.ext_mem
  intro x
  refine ⟨fun member => ?_, inside x⟩
  by_contra absent
  exact none ⟨x, member, absent⟩

theorem Rising.update_moved (rising : Rising notes lv) (here : notes[i]? = some note)
    (differ : ¬(inOf note (outOf lv.ins note) = lv.liveIn i ∧ outOf lv.ins note = lv.liveOut i)) :
    ∃ x, (x ∈ (Liveness.updated note i lv).liveIn i ∧ x ∉ lv.liveIn i) ∨
      (x ∈ (Liveness.updated note i lv).liveOut i ∧ x ∉ lv.liveOut i) := by
  obtain ⟨insideIn, insideOut⟩ := rising.lt_size here
  rw [liveIn_updated insideIn, liveOut_updated insideOut, if_pos rfl, if_pos rfl]
  by_cases sameIn : inOf note (outOf lv.ins note) = lv.liveIn i
  · obtain ⟨x, new, absent⟩ :=
      exists_new (rising.liveOut i note here) (fun sameOut => differ ⟨sameIn, sameOut⟩)
    exact ⟨x, .inr ⟨new, absent⟩⟩
  · obtain ⟨x, new, absent⟩ := exists_new (rising.liveIn i note here) sameIn
    exact ⟨x, .inl ⟨new, absent⟩⟩

theorem sweep_entries (entries : List (Note × Nat))
    (listed : ∀ entry ∈ entries, notes[entry.2]? = some entry.1) (rising : Rising notes lv) :
    ∃ lv' changed,
      entries.foldr (fun entry state => update entry.1 entry.2 state) (lv, false) = (lv', changed) ∧
        Swept notes entries lv lv' changed := by
  induction entries with
  | nil =>
    exact ⟨lv, false, rfl, rising, .refl lv, rfl, fun _ _ _ h => h, fun _ => ⟨rfl, by simp⟩,
      fun wrong => by cases wrong⟩
  | cons entry rest ih =>
    obtain ⟨note, i⟩ := entry
    have here : notes[i]? = some note := listed _ List.mem_cons_self
    obtain ⟨mid, before, run, swept⟩ := ih fun other member =>
      listed other (List.mem_cons_of_mem _ member)
    have step := swept.rising.grows_updated here
    refine ⟨_, _, by rw [List.foldr_cons, run, update_eq], swept.rising.updated here,
      swept.grows.trans step, swept.passes, ?_, ?_, ?_⟩
    · intro ins outs closed start
      exact (swept.bounded ins outs closed start).updated closed swept.rising here
    · intro still
      simp only [Bool.or_eq_false_iff, Bool.not_eq_false', Bool.and_eq_true, beq_iff_eq] at still
      obtain ⟨quiet, sameIn, sameOut⟩ := still
      obtain ⟨rfl, rows⟩ := swept.still quiet
      refine ⟨updated_eq_self sameIn sameOut, ?_⟩
      intro other member
      rcases List.mem_cons.mp member with rfl | later
      · exact ⟨sameIn, sameOut⟩
      · exact rows other later
    · intro moved
      cases quiet : before with
      | true =>
        obtain ⟨j, inside, x, new⟩ := swept.moved quiet
        refine ⟨j, inside, x, ?_⟩
        exact new.imp (fun both => ⟨step.1 j x both.1, both.2⟩) (fun both => ⟨step.2 j x both.1, both.2⟩)
      | false =>
        obtain ⟨rfl, -⟩ := swept.still quiet
        simp only [quiet, Bool.false_or, Bool.not_eq_true', Bool.and_eq_false_iff, beq_eq_false_iff_ne,
          ne_eq] at moved
        obtain ⟨x, new⟩ := swept.rising.update_moved here (by tauto)
        exact ⟨i, (List.getElem?_eq_some_iff.mp here).1, x, new⟩

def sweep (entries : List (Note × Nat)) (lv : Liveness) : Liveness × Bool :=
  entries.foldr (fun entry state => update entry.1 entry.2 state)
    ({ lv with passes := lv.passes + 1 }, false)

def Sweeps (notes : List Note) (visit : Liveness → Liveness × Bool) : Prop :=
  ∀ lv, Rising notes lv → ∃ lv' changed, visit lv = (lv', changed) ∧
    Swept notes notes.zipIdx { lv with passes := lv.passes + 1 } lv' changed

-- The order in which a pass visits the instructions may depend on what was found before.
theorem sweep_sweeps (order : Liveness → List (Note × Nat)) (every : ∀ lv, (order lv).Perm notes.zipIdx) :
    Sweeps notes fun lv => sweep (order lv) lv := by
  intro lv rising
  have counted : Rising notes { lv with passes := lv.passes + 1 } :=
    ⟨rising.ins_size, rising.outs_size, rising.liveIn, rising.liveOut⟩
  obtain ⟨lv', changed, run, swept⟩ := sweep_entries (order lv)
    (fun entry member => List.mem_zipIdx_iff_getElem?.mp ((every lv).mem_iff.mp member)) counted
  refine ⟨lv', changed, run, swept.rising, swept.grows, swept.passes, swept.bounded, fun quiet => ?_,
    swept.moved⟩
  obtain ⟨same, rows⟩ := swept.still quiet
  exact ⟨same, fun entry member => rows entry ((every lv).mem_iff.mpr member)⟩

theorem pass_sweeps (notes : List Note) : Sweeps notes (pass notes) :=
  sweep_sweeps (fun _ => notes.zipIdx) fun _ => .rfl

inductive Settles (visit : Liveness → Liveness × Bool) : Liveness → Liveness → Prop
  | still {lv lv' : Liveness} (run : visit lv = (lv', false)) : Settles visit lv lv'
  | moved {lv mid lv' : Liveness} (run : visit lv = (mid, true)) (rest : Settles visit mid lv') :
      Settles visit lv lv'

section Settling

variable {visit : Liveness → Liveness × Bool}

theorem Settles.solves (settles : Settles visit lv lv') (sweeps : Sweeps notes visit)
    (rising : Rising notes lv) (bounded : ∀ ins outs, Closed notes ins outs → Bounded ins outs lv) :
    Solves notes lv' := by
  induction settles with
  | moved run _ ih =>
    obtain ⟨next, changed, again, swept⟩ := sweeps _ rising
    cases run.symm.trans again
    exact ih swept.rising fun ins outs closed => swept.bounded ins outs closed (bounded ins outs closed)
  | @still lv lv' run =>
    obtain ⟨next, changed, again, swept⟩ := sweeps _ rising
    cases run.symm.trans again
    obtain ⟨rfl, rows⟩ := swept.still rfl
    have row : ∀ i note, notes[i]? = some note →
        inOf note (outOf lv.ins note) = lv.liveIn i ∧ outOf lv.ins note = lv.liveOut i :=
      fun i note here => rows (note, i) (List.mem_zipIdx_iff_getElem?.mpr here)
    refine ⟨rising.ins_size, rising.outs_size, fun i note here x => ?_, fun i note here x => ?_, bounded⟩
    · change x ∈ lv.liveIn i ↔ x ∈ note.used ∨ (x ∈ lv.liveOut i ∧ x ∉ note.defined)
      rw [← (row i note here).1, mem_inOf, (row i note here).2]
    · change x ∈ lv.liveOut i ↔ ∃ s ∈ note.succ, x ∈ lv.liveIn s
      rw [← (row i note here).2, mem_outOf]
      rfl

end Settling

def weight (count : Nat) (lv : Liveness) : Nat :=
  ∑ i ∈ Finset.range count, ((lv.liveIn i).size + (lv.liveOut i).size)

theorem weight_le {vars : Nat} (below : Bounded (fun _ x => x < vars) (fun _ x => x < vars) lv)
    (count : Nat) : weight count lv ≤ vars * 2 * count := by
  have each : ∀ i ∈ Finset.range count, (lv.liveIn i).size + (lv.liveOut i).size ≤ vars * 2 := by
    intro i _
    have left := VarSet.size_le_of_lt (below.1 i)
    have right := VarSet.size_le_of_lt (below.2 i)
    omega
  calc weight count lv ≤ ∑ _i ∈ Finset.range count, vars * 2 := Finset.sum_le_sum each
    _ = vars * 2 * count := by simp [Nat.mul_comm]

theorem weight_lt {count : Nat} (grows : lv.Grows lv') (inside : i < count)
    (new : (x ∈ lv'.liveIn i ∧ x ∉ lv.liveIn i) ∨ (x ∈ lv'.liveOut i ∧ x ∉ lv.liveOut i)) :
    weight count lv < weight count lv' := by
  have sizeIn := fun j => VarSet.size_le_of_subset (grows.1 j)
  have sizeOut := fun j => VarSet.size_le_of_subset (grows.2 j)
  refine Finset.sum_lt_sum (fun j _ => Nat.add_le_add (sizeIn j) (sizeOut j))
    ⟨i, Finset.mem_range.mpr inside, ?_⟩
  rcases new with ⟨member, absent⟩ | ⟨member, absent⟩
  · exact Nat.add_lt_add_of_lt_of_le (VarSet.size_lt_of_subset (grows.1 i) member absent) (sizeOut i)
  · exact Nat.add_lt_add_of_le_of_lt (sizeIn i) (VarSet.size_lt_of_subset (grows.2 i) member absent)

theorem exists_settles {visit : Liveness → Liveness × Bool} {vars : Nat} (sweeps : Sweeps notes visit)
    (closed : Closed notes (fun _ x => x < vars) (fun _ x => x < vars)) (rising : Rising notes lv)
    (below : Bounded (fun _ x => x < vars) (fun _ x => x < vars) lv) :
    ∃ lv', Settles visit lv lv' ∧
      lv'.passes + weight notes.length lv ≤ lv.passes + vars * 2 * notes.length + 1 := by
  -- Every pass but the last adds to the weight, which the number of variables bounds.
  obtain ⟨room, enough⟩ : ∃ room, vars * 2 * notes.length < weight notes.length lv + room :=
    ⟨vars * 2 * notes.length + 1, by omega⟩
  induction room generalizing lv with
  | zero => exact absurd (weight_le below notes.length) (by omega)
  | succ room ih =>
    obtain ⟨next, changed, run, swept⟩ := sweeps lv rising
    have passes : next.passes = lv.passes + 1 := swept.passes
    have limit := weight_le below notes.length
    cases changed with
    | false => exact ⟨next, .still run, by omega⟩
    | true =>
      obtain ⟨i, inside, x, new⟩ := swept.moved rfl
      have heavier : weight notes.length lv < weight notes.length next :=
        weight_lt swept.grows inside new
      obtain ⟨last, settles, count⟩ := ih swept.rising (swept.bounded _ _ closed below) (by omega)
      exact ⟨last, .moved run settles, by omega⟩

theorem passes_of_pass {changed : Bool} (run : pass notes lv = (lv', changed)) :
    lv'.passes = lv.passes + 1 := by
  have kept : ∀ (entries : List (Note × Nat)) (state : Liveness × Bool),
      (entries.foldr (fun entry state => update entry.1 entry.2 state) state).1.passes = state.1.passes := by
    intro entries state
    induction entries with
    | nil => rfl
    | cons entry rest ih => exact ih
  rw [show lv' = (pass notes lv).1 by rw [run]]
  exact kept _ _

theorem Settles.passes_lt (settles : Settles (pass notes) lv lv') : lv.passes < lv'.passes := by
  induction settles with
  | still run =>
    have count := passes_of_pass run
    omega
  | moved run _ ih =>
    have count := passes_of_pass run
    omega

theorem Settles.iterate {allowed : Nat} (settles : Settles (pass notes) lv lv')
    (enough : lv'.passes ≤ lv.passes + allowed) : Liveness.iterate notes allowed lv = .ok lv' := by
  have more := settles.passes_lt
  obtain ⟨allowed, rfl⟩ : ∃ fewer, allowed = fewer + 1 := ⟨allowed - 1, by omega⟩
  induction settles generalizing allowed with
  | still run => rw [Liveness.iterate, run]
  | moved run rest ih =>
    have count := passes_of_pass run
    have later := rest.passes_lt
    obtain ⟨fewer, rfl⟩ : ∃ fewer, allowed = fewer + 1 := ⟨allowed - 1, by omega⟩
    rw [Liveness.iterate, run]
    exact ih later fewer (by omega)

theorem settles_of_iterate {allowed : Nat} (found : iterate notes allowed lv = .ok lv') :
    Settles (pass notes) lv lv' := by
  induction allowed generalizing lv with
  | zero => cases found
  | succ allowed ih =>
    rw [iterate] at found
    split at found
    · rename_i run
      exact .moved run (ih found)
    · rename_i run
      cases found
      exact .still run

theorem not_mem_start (count i : Nat) (x : VarId) :
    x ∉ (start count).liveIn i ∧ x ∉ (start count).liveOut i := by
  have empty : (Array.replicate count (∅ : VarSet)).getD i ∅ = ∅ := by
    rw [Array.getD_eq_getD_getElem?, Array.getElem?_replicate]
    split <;> rfl
  simp [liveIn, liveOut, start, empty]

theorem start_rising (notes : List Note) : Rising notes (start notes.length) :=
  ⟨by simp [start], by simp [start],
    fun i _ _ x member => absurd member (not_mem_start notes.length i x).1,
    fun i _ _ x member => absurd member (not_mem_start notes.length i x).2⟩

theorem start_bounded (count : Nat) (ins outs : Nat → VarId → Prop) :
    Bounded ins outs (start count) :=
  ⟨fun i x member => absurd member (not_mem_start count i x).1,
    fun i x member => absurd member (not_mem_start count i x).2⟩

theorem Settles.solves_start {visit : Liveness → Liveness × Bool}
    (settles : Settles visit (start notes.length) lv) (sweeps : Sweeps notes visit) : Solves notes lv :=
  settles.solves sweeps (start_rising notes) fun ins outs _ => start_bounded notes.length ins outs

theorem start_settles {visit : Liveness → Liveness × Bool} {vars : Nat} (sweeps : Sweeps notes visit)
    (known : ∀ note ∈ notes, ∀ x ∈ note.used, x < vars) :
    ∃ lv, Settles visit (start notes.length) lv ∧ lv.passes ≤ passLimit vars notes.length := by
  have closed : Closed notes (fun _ x => x < vars) (fun _ x => x < vars) :=
    ⟨fun i note here x used => known note (List.mem_of_getElem? here) x used,
      fun _ _ _ _ out _ => out, fun _ _ _ _ _ _ live => live⟩
  obtain ⟨lv, settles, count⟩ := exists_settles sweeps closed (start_rising notes) (start_bounded _ _ _)
  have fresh : (start notes.length).passes = 0 := rfl
  refine ⟨lv, settles, ?_⟩
  simp only [passLimit]
  omega

theorem solve_solves {vars : Nat} (found : solve vars notes = .ok lv) : Solves notes lv :=
  (settles_of_iterate found).solves_start (pass_sweeps notes)

theorem solve_ends {vars : Nat} (known : ∀ note ∈ notes, ∀ x ∈ note.used, x < vars) :
    ∃ lv, Settles (pass notes) (start notes.length) lv ∧ solve vars notes = .ok lv ∧
      lv.passes ≤ passLimit vars notes.length := by
  obtain ⟨lv, settles, count⟩ := start_settles (pass_sweeps notes) known
  have fresh : (start notes.length).passes = 0 := rfl
  exact ⟨lv, settles, settles.iterate (by omega), count⟩

end Liveness

end RegisterAllocation
