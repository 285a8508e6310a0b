import RegisterAllocation.Proofs.Analyses

namespace RegisterAllocation

namespace Liveness

variable {notes : List Note} {note : Note} {lv lv' : Liveness} {i : Nat} {x : VarId} {place : Nat → Nat}
  {length : Nat}

-- Some steps along the links that end at an instruction which reads the variable, while no instruction
-- on the way writes it.
structure UsePath (notes : List Note) (x : VarId) (place : Nat → Nat) (length : Nat) : Prop where
  edge : ∀ r < length, place (r + 1) ∈ (notes.getD (place r) {}).succ
  used : x ∈ (notes.getD (place length) {}).used
  kept : ∀ r < length, x ∉ (notes.getD (place r) {}).defined

def prepend (i : Nat) (place : Nat → Nat) : Nat → Nat
  | 0 => i
  | r + 1 => place r

theorem UsePath.tail (path : UsePath notes x place (length + 1)) :
    UsePath notes x (fun r => place (r + 1)) length :=
  ⟨fun r inside => path.edge (r + 1) (by omega), path.used, fun r inside => path.kept (r + 1) (by omega)⟩

theorem UsePath.prepend (path : UsePath notes x place length) (edge : place 0 ∈ (notes.getD i {}).succ)
    (kept : x ∉ (notes.getD i {}).defined) : UsePath notes x (prepend i place) (length + 1) := by
  refine ⟨fun r inside => ?_, path.used, fun r inside => ?_⟩
  · cases r with
    | zero => exact edge
    | succ r => exact path.edge r (by omega)
  · cases r with
    | zero => exact kept
    | succ r => exact path.kept r (by omega)

theorem getD_of_getElem? (here : notes[i]? = some note) : notes.getD i {} = note := by
  rw [List.getD_eq_getElem?_getD, here]
  rfl

theorem exists_note {P : Note → Prop} (nothing : ¬P {}) (holds : P (notes.getD i {})) :
    ∃ note, notes[i]? = some note ∧ P note := by
  rw [List.getD_eq_getElem?_getD] at holds
  cases here : notes[i]? with
  | some note => exact ⟨note, rfl, by simpa [here] using holds⟩
  | none =>
    simp only [here, Option.getD_none] at holds
    exact absurd holds nothing

theorem Solves.live_of_path (solved : Solves notes lv) (path : UsePath notes x place length) :
    x ∈ lv.liveIn (place 0) := by
  induction length generalizing place with
  | zero =>
    obtain ⟨note, here, used⟩ := exists_note (P := (x ∈ ·.used)) (by simp) path.used
    exact (solved.mem_in _ note here x).mpr (.inl used)
  | succ length ih =>
    have next := ih path.tail
    obtain ⟨note, here, edge⟩ := exists_note (P := (place 1 ∈ ·.succ)) (by simp) (path.edge 0 (by omega))
    have kept := path.kept 0 (by omega)
    rw [getD_of_getElem? here] at kept
    exact (solved.mem_in _ note here x).mpr (.inr ⟨(solved.mem_out _ note here x).mpr ⟨_, edge, next⟩, kept⟩)

theorem Solves.path_of_live (solved : Solves notes lv) (live : x ∈ lv.liveIn i) :
    ∃ place length, place 0 = i ∧ UsePath notes x place length := by
  -- The families of all starts of such paths are closed, and so hold the least solution.
  refine (solved.least (fun i x => ∃ place length, place 0 = i ∧ UsePath notes x place length)
    (fun i x => ∃ k ∈ (notes.getD i {}).succ, ∃ place length, place 0 = k ∧ UsePath notes x place length)
    ⟨fun i note here x used => ?_, fun i note here x out kept => ?_, fun i note here k edge x path => ?_⟩).1
    i x live
  · refine ⟨fun _ => i, 0, rfl, by simp, ?_, by simp⟩
    rwa [getD_of_getElem? here]
  · obtain ⟨k, edge, place, length, rfl, path⟩ := out
    refine ⟨Liveness.prepend i place, length + 1, rfl, path.prepend edge ?_⟩
    rwa [getD_of_getElem? here]
  · rw [getD_of_getElem? here]
    exact ⟨k, edge, path⟩

theorem Solves.closed (solved : Solves notes lv) :
    Closed notes (fun i x => x ∈ lv.liveIn i) (fun i x => x ∈ lv.liveOut i) :=
  ⟨fun i note here x used => (solved.mem_in i note here x).mpr (.inl used),
    fun i note here x out kept => (solved.mem_in i note here x).mpr (.inr ⟨out, kept⟩),
    fun i note here s edge x live => (solved.mem_out i note here x).mpr ⟨s, edge, live⟩⟩

theorem eq_of_getD {sets sets' : Array VarSet} (size : sets.size = sets'.size)
    (same : ∀ i x, x ∈ sets.getD i ∅ ↔ x ∈ sets'.getD i ∅) : sets = sets' := by
  refine Array.ext size fun i left right => ?_
  apply Std.ExtTreeSet.ext_mem
  intro x
  simpa [Array.getD_eq_getD_getElem?, left, right] using same i x

theorem Solves.unique (first : Solves notes lv) (second : Solves notes lv') :
    lv'.ins = lv.ins ∧ lv'.outs = lv.outs := by
  obtain ⟨insBelow, outsBelow⟩ := second.least _ _ first.closed
  obtain ⟨insAbove, outsAbove⟩ := first.least _ _ second.closed
  exact ⟨eq_of_getD (second.ins_size.trans first.ins_size.symm) fun i x => ⟨insBelow i x, insAbove i x⟩,
    eq_of_getD (second.outs_size.trans first.outs_size.symm) fun i x => ⟨outsBelow i x, outsAbove i x⟩⟩

theorem exists_bound (notes : List Note) : ∃ vars, ∀ note ∈ notes, ∀ x ∈ note.used, x < vars := by
  obtain ⟨vars, inside⟩ := Finset.exists_nat_subset_range (notes.flatMap (·.used.toList)).toFinset
  refine ⟨vars, fun note member x used => Finset.mem_range.mp (inside ?_)⟩
  rw [List.mem_toFinset, List.mem_flatMap]
  exact ⟨note, member, Std.ExtTreeSet.mem_toList.mpr used⟩

theorem Solves.any_order (solved : Solves notes lv) {order : Liveness → List (Note × Nat)}
    (every : ∀ lv, (order lv).Perm notes.zipIdx) :
    (∃ lv', Settles (fun lv => sweep (order lv) lv) (start notes.length) lv') ∧
      ∀ lv', Settles (fun lv => sweep (order lv) lv) (start notes.length) lv' →
        lv'.ins = lv.ins ∧ lv'.outs = lv.outs := by
  have sweeps := sweep_sweeps order every
  obtain ⟨vars, known⟩ := exists_bound notes
  obtain ⟨lv', settles, -⟩ := start_settles sweeps known
  exact ⟨⟨lv', settles⟩, fun lv' settles => solved.unique (settles.solves_start sweeps)⟩

end Liveness

namespace Sheet

variable {s s' : Sheet} {lv : Liveness}

-- Whatever an analysis that succeeds finds is exact: a variable is live where it may still be read, and
-- nowhere else. The sets are the least solution of their equations, and so the same for any order in
-- which the passes visit the instructions.
theorem liveness_exact (noted : s.notes.length = s.function.body.length)
    (analysis : s.analyze = (s', .ok lv)) :
    s'.notes.length = s.function.body.length ∧
      (∀ i note, s'.notes[i]? = some note → ∀ j, j ∈ note.succ ↔ Flow.Edge s.function.body i j) ∧
      (∀ i < s.function.body.length, ∀ x,
        (x ∈ lv.liveIn i ↔ ∃ place length, place 0 = i ∧ Liveness.UsePath s'.notes x place length) ∧
          (x ∈ lv.liveOut i ↔ ∃ k ∈ (s'.notes.getD i {}).succ, x ∈ lv.liveIn k)) ∧
      lv.Solves s'.notes ∧
      ∀ order : Liveness → List (Note × Nat), (∀ lv, (order lv).Perm s'.notes.zipIdx) →
        (∃ lv', Liveness.Settles (fun lv => Liveness.sweep (order lv) lv) (.start s'.notes.length) lv') ∧
          ∀ lv', Liveness.Settles (fun lv => Liveness.sweep (order lv) lv) (.start s'.notes.length) lv' →
            lv'.ins = lv.ins ∧ lv'.outs = lv.outs := by
  have solved := solves_of_analyze analysis
  obtain ⟨count, links, -⟩ := analyze_resolves noted analysis
  refine ⟨count, links, fun i inside x => ⟨⟨solved.path_of_live, ?_⟩, ?_⟩, solved,
    fun order every => solved.any_order every⟩
  · intro h
    obtain ⟨place, length, rfl, path⟩ := h
    exact solved.live_of_path path
  · have here : s'.notes[i]? = some (s'.notes[i]) := List.getElem?_eq_getElem (by omega)
    rw [Liveness.getD_of_getElem? here]
    exact solved.mem_out i _ here x

def countDown : Function where
  name := "@f"
  table := (VarTable.internAll {} ["%n"]).2
  body := [.assign (.var 0) (.num 3), .label ":loop", .decrement (.var 0),
    .cjump .less (.num 0) (.var 0) ":loop", .ret]

theorem liveness_exact_countDown :
    ∃ s' lv lv', (Sheet.ofFunction countDown).analyze = (s', .ok lv) ∧ 0 ∈ lv.liveOut 3 ∧
      (∃ place length, place 0 = 3 ∧ Liveness.UsePath s'.notes 0 place length) ∧
      (¬∃ place length, place 0 = 0 ∧ Liveness.UsePath s'.notes 0 place length) ∧
      Liveness.Settles (Liveness.sweep s'.notes.zipIdx.reverse) (.start s'.notes.length) lv' ∧
      lv'.ins = lv.ins ∧ lv'.outs = lv.outs := by
  have found : ((Sheet.ofFunction countDown).analyze.2.toOption.any fun lv => decide
      (0 ∈ lv.liveOut 3 ∧ 0 ∈ lv.liveIn 3 ∧ 0 ∉ lv.liveIn 0)) = true := by decide +kernel
  cases analysis : (Sheet.ofFunction countDown).analyze with
  | mk s' result =>
    rw [analysis] at found
    cases result with
    | error e => cases found
    | ok lv =>
      obtain ⟨after, before, unread⟩ := of_decide_eq_true found
      obtain ⟨-, -, rows, -, orders⟩ := liveness_exact (by decide +kernel) analysis
      obtain ⟨⟨lv', settles⟩, same⟩ := orders (fun _ => s'.notes.zipIdx.reverse) fun _ => List.reverse_perm _
      exact ⟨s', lv, lv', rfl, after, (rows 3 (by decide) 0).1.mp before,
        fun path => unread ((rows 0 (by decide) 0).1.mpr path), settles, same lv' settles⟩

-- The operands of a function refer to its own table. Then the passes end without a limit on their
-- number, and the limit that is set is never reached, whatever links the notes hold.
theorem liveness_settles
    (operands : ∀ inst ∈ s.function.body, ∀ x, .var x ∈ inst.operands → x < s.function.table.size)
    (noted : s.notes.length = s.function.body.length) (resolved : s.resolve = (s', none)) :
    ∃ lv, Liveness.Settles (Liveness.pass s'.notes) (.start s.function.body.length) lv ∧
      lv.passes ≤ 2 * s'.function.table.size * s.function.body.length + 1 ∧ s'.live = .ok lv := by
  obtain ⟨-, sp, resolves⟩ := resolve_resolves noted resolved
  have count : s'.notes.length = s.function.body.length := resolves.sets.length_eq.symm
  have known : ∀ note ∈ s'.notes, ∀ x ∈ note.used, x < s'.function.table.size := by
    intro note member x used
    obtain ⟨inst, inside, sourced⟩ := resolves.mem_notes member
    rcases (sourced.used x used).2 with operand | known
    · exact Nat.lt_of_lt_of_le (operands inst inside x operand) resolves.grown.size_le
    · exact known
  obtain ⟨lv, settles, solved, passes⟩ := Liveness.solve_ends known
  rw [count] at settles passes
  refine ⟨lv, settles, ?_, by rw [Sheet.live, solved]⟩
  rwa [Liveness.passLimit, Nat.mul_comm s'.function.table.size 2] at passes

theorem countDown_operands :
    ∀ inst ∈ countDown.body, ∀ x, .var x ∈ inst.operands → x < countDown.table.size := by
  have listed : ∀ inst ∈ countDown.body, ∀ op ∈ inst.operands, op = .var 0 ∨ op.isVar = false := by decide
  intro inst member x operand
  rcases listed inst member _ operand with same | number
  · cases same
    decide
  · cases number

theorem liveness_settles_countDown :
    ∃ s' lv, (Sheet.ofFunction countDown).link.1.resolve = (s', none) ∧
      Liveness.Settles (Liveness.pass s'.notes) (.start countDown.body.length) lv ∧ lv.passes = 3 ∧
      lv.passes ≤ 2 * s'.function.table.size * countDown.body.length + 1 ∧ s'.live = .ok lv := by
  have found : (Sheet.ofFunction countDown).link.1.resolve.2 = none ∧
      (Sheet.ofFunction countDown).link.1.resolve.1.live.toOption.any (·.passes == 3) = true := by
    decide +kernel
  cases resolved : (Sheet.ofFunction countDown).link.1.resolve with
  | mk s' fault =>
    rw [resolved] at found
    obtain ⟨rfl, passes⟩ := found
    obtain ⟨lv, settles, bound, live⟩ := liveness_settles (s := (Sheet.ofFunction countDown).link.1)
      countDown_operands (by decide +kernel) resolved
    rw [live] at passes
    exact ⟨s', lv, rfl, settles, eq_of_beq passes, bound, live⟩

end Sheet

end RegisterAllocation
