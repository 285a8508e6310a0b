import RegisterAllocation.Proofs.Rounds
import RegisterAllocation.Proofs.ValidFunctions

namespace RegisterAllocation

theorem Sheet.analyze_function (s : Sheet) :
    s.analyze.1.function = s.function ∨ s.analyze.1.function = s.function.resolved := by
  unfold analyze
  split
  · rename_i linked e link
    exact .inl (congrArg (·.1.function) link).symm
  · rename_i linked link
    have same : linked.function = s.function := (congrArg (·.1.function) link).symm
    rw [← same]
    split
    · rename_i resolve
      exact .inr (congrArg (·.1.function) resolve).symm
    · rename_i resolve
      exact .inr (congrArg (·.1.function) resolve).symm

-- All that a spill can do: it is refused at once, or a fault ends the writing of the sets, or the variable
-- is moved to its slot.
theorem Sheet.spill_cases (s : Sheet) (id : Int) (names : NameSequence) :
    (∃ e, s.spill id names = (s, names, .error e)) ∨
      (∃ fault, s.spill id names = (s.resolve.1, names, .error (.fault fault))) ∨
      ∃ v sp, s.function.table.get id = .ok v ∧ Spill.check s.function v = .ok sp ∧
        s.spill id names = (s.resolve.1, (Spill.move s.resolve.1 id.toNat v.name sp names).2,
          .ok (Spill.move s.resolve.1 id.toNat v.name sp names).1) := by
  cases found : s.function.table.get id with
  | error fault => exact .inl ⟨.fault fault, by simp only [spill, found]⟩
  | ok v =>
    cases checked : Spill.check s.function v with
    | error e => exact .inl ⟨e, by simp only [spill, found, checked]⟩
    | ok sp =>
      cases resolved : s.resolve with
      | mk after fault =>
        cases fault with
        | some fault => exact .inr (.inl ⟨fault, by simp only [spill, found, checked, resolved]⟩)
        | none => exact .inr (.inr ⟨v, sp, rfl, checked, by simp only [spill, found, checked, resolved]⟩)

theorem Sheet.spill_moved {s : Sheet} {id : Int} {names : NameSequence} {m : Spilled}
    (done : (s.spill id names).2.2 = .ok m) :
    ∃ v sp, s.function.table.get id = .ok v ∧ Spill.check s.function v = .ok sp ∧
      m = (Spill.move s.resolve.1 id.toNat v.name sp names).1 ∧
      s.spill id names = (s.resolve.1, (Spill.move s.resolve.1 id.toNat v.name sp names).2, .ok m) := by
  rcases s.spill_cases id names with ⟨e, refused⟩ | ⟨fault, ended⟩ | ⟨v, sp, got, checked, moved⟩
  · rw [refused] at done
    cases done
  · rw [ended] at done
    cases done
  · rw [moved] at done
    have same := Except.ok.inj done
    exact ⟨v, sp, got, checked, same.symm, same ▸ moved⟩

theorem Sheet.spill_ok {s : Sheet} {id : Int} {names : NameSequence} {m : Spilled}
    (done : (s.spill id names).2.2 = .ok m) :
    ∃ v sp, Spill.check s.function v = .ok sp ∧
      m = (Spill.move s.resolve.1 id.toNat v.name sp names).1 := by
  obtain ⟨v, sp, -, checked, same, -⟩ := spill_moved done
  exact ⟨v, sp, checked, same⟩

theorem Spill.moveOut_table (v : VarId) (slot : Slot) (t : VarTable) (names : NameSequence)
    (pairs : List (Instruction × UseDef)) :
    (moveOut v slot t names pairs).table = (t.internAll (moveOut v slot t names pairs).temps).2 := by
  induction pairs generalizing t names with
  | nil => rfl
  | cons pair rest ih =>
    unfold moveOut
    dsimp only
    split
    · exact ih t names
    · exact ih _ _

theorem Spill.move_table (s : Sheet) (v : VarId) (name sp : String) (names : NameSequence) :
    (move s v name sp names).1.function.table =
      ((s.function.table.intern sp).2.internAll (move s v name sp names).1.temps).2 :=
  moveOut_table _ _ _ _ _

-- A function made from another one, pass by pass. Analyses and graphs add names to the table, every
-- spill hands out a slot and rebuilds the body, and at the end registers replace the variables. The
-- offsets of the slots are listed in the order they were handed out.
inductive Derived (f : Function) : List Word → Function → Prop where
  | self : Derived f [] f
  | analyzed {slots : List Word} {s : Sheet} : Derived f slots s.function →
      Derived f slots s.analyze.1.function
  | built {slots : List Word} {s : Sheet} (lv : Liveness) (rf : RegisterFile) :
      Derived f slots s.function → Derived f slots (Graph.build s lv rf).2.function
  | spilled {slots : List Word} {s : Sheet} {id : Int} {names : NameSequence} {m : Spilled} :
      Derived f slots s.function → (s.spill id names).2.2 = .ok m →
      Derived f (slots ++ [s.function.allocSlot.1]) m.function
  | assigned {slots : List Word} {g : Function} (rf : RegisterFile) (attempt : Coloring) :
      Derived f slots g → Derived f slots (Allocation.assignRegisters g rf attempt).1

namespace Allocation

variable {rf : RegisterFile} {f : Function} {s : State} {b : Built}

def State.Tracked (f : Function) (s : State) : Prop :=
  ∃ slots, Derived f slots s.sheet.function ∧ slots.length = s.stats.spills

def Outcome.Tracked (f : Function) (outcome : Outcome) : Prop :=
  ∀ g, outcome.result = .ok g → ∃ slots, Derived f slots g ∧ slots.length = outcome.stats.spills

def Tracks (f : Function) : Except Outcome State → Prop
  | .error outcome => outcome.Tracked f
  | .ok s => s.Tracked f

theorem fail_tracked (f : Function) (s : State) (e : AllocationError) : (s.fail e).Tracked f := by
  intro g done
  cases done

theorem spillEach_tracked (victims : List VarId) (tracked : s.Tracked f) :
    (spillEach s victims).1.Tracked f := by
  induction victims generalizing s with
  | nil => exact tracked
  | cons v rest ih =>
    rw [spillEach]
    split
    · exact tracked
    · rename_i names m spilled
      obtain ⟨slots, derived, count⟩ := tracked
      refine ih ⟨_, derived.spilled (congrArg (·.2.2) spilled), ?_⟩
      simp [count]

theorem spillAll_tracks (victims : List VarId) (tracked : s.Tracked f) : Tracks f (spillAll s victims) := by
  have after := spillEach_tracked victims tracked
  unfold spillAll
  split
  · exact fail_tracked f _ _
  · rename_i s' ended
    rw [ended] at after
    exact after

theorem sweep_tracks (tracked : b.state.Tracked f) (attempt : Coloring) : Tracks f (sweep b attempt) := by
  cases victims : b.graph.nodes.filter b.state.spillable with
  | nil =>
    rw [sweep_nil victims]
    exact fail_tracked f _ _
  | cons first rest =>
    rw [sweep_cons victims]
    exact spillAll_tracks _ tracked

theorem spill_tracks (tracked : b.state.Tracked f) (attempt : Coloring) : Tracks f (spill b attempt) := by
  cases victims : attempt.uncolored.filter b.state.spillable with
  | nil =>
    rw [spill_nil victims]
    exact sweep_tracks (b := { b with state := b.state.enter .spill }) tracked attempt
  | cons first rest =>
    rw [spill_cons victims]
    exact spillAll_tracks _ tracked

theorem finish_tracked (tracked : s.Tracked f) (rf : RegisterFile) (attempt : Coloring) :
    (finish s rf attempt).Tracked f := by
  obtain ⟨slots, derived, count⟩ := tracked
  intro g done
  cases done
  exact ⟨slots, derived.assigned rf attempt, count⟩

theorem conclude_tracks (rf : RegisterFile) (tracked : b.state.Tracked f) : Tracks f (conclude rf b) := by
  cases colored : Coloring.color b.graph b.state.sheet.function rf b.state.temps with
  | error e =>
    have entered : Coloring.color b.graph (b.state.enter .color).sheet.function rf
        (b.state.enter .color).temps = .error e := colored
    simp only [conclude, entered]
    exact fail_tracked f _ _
  | ok attempt =>
    have after : (State.colored b attempt).Tracked f := tracked
    rw [conclude_eq colored]
    split
    · exact finish_tracked after rf attempt
    · split
      · exact sweep_tracks (b := { b with state := .colored b attempt }) after attempt
      · exact spill_tracks (b := { b with state := .colored b attempt }) after attempt

theorem analyze_tracked (tracked : s.Tracked f) : (analyze s).1.Tracked f := by
  obtain ⟨slots, derived, count⟩ := tracked
  exact ⟨slots, derived.analyzed, count⟩

theorem build_tracked (tracked : s.Tracked f) (lv : Liveness) : (build s lv rf).state.Tracked f := by
  obtain ⟨slots, derived, count⟩ := tracked
  exact ⟨slots, derived.built lv rf, count⟩

theorem refine_tracked {bound left : Nat} (tracked : b.state.Tracked f) :
    (refine rf bound left b).Tracked f := by
  induction left generalizing b with
  | zero =>
    have led := conclude_tracks rf tracked
    rw [refine_eq]
    cases concluded : conclude rf b with
    | error outcome =>
      rw [concluded] at led
      exact led
    | ok s =>
      dsimp only
      split <;> exact fail_tracked f _ _
  | succ left ih =>
    have led := conclude_tracks rf tracked
    rw [refine_eq]
    cases concluded : conclude rf b with
    | error outcome =>
      rw [concluded] at led
      exact led
    | ok s =>
      rw [concluded] at led
      have after := analyze_tracked led
      dsimp only
      split
      · exact fail_tracked f _ _
      · rename_i lv analyzed
        rw [analyzed] at after
        exact ih (build_tracked after lv)

end Allocation

theorem Sheet.allocate_derived {s : Sheet} {rf : RegisterFile} {g : Function}
    (allocated : (s.allocate rf).2.result = .ok g) :
    ∃ slots, Derived s.function slots g ∧ slots.length = (s.allocate rf).2.stats.spills := by
  have start : Allocation.State.Tracked s.function { sheet := s, names := { stem := rf.tempPrefix } } :=
    ⟨[], .self, rfl⟩
  have after := Allocation.analyze_tracked start
  have tracked : (s.allocate rf).2.Tracked s.function := by
    rw [Sheet.allocate]
    split
    · exact Allocation.fail_tracked _ _ _
    · rename_i state lv analyzed
      rw [analyzed] at after
      exact Allocation.refine_tracked (Allocation.build_tracked after lv)
  exact tracked g allocated

end RegisterAllocation
