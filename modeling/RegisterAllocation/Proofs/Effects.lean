import Mathlib.Data.List.Perm.Basic
import RegisterAllocation.Allocation.Pool

namespace RegisterAllocation

namespace Stats

instance : RightCommutative add := ⟨fun a b c => by simp [add]; omega⟩

theorem foldl_parts (s work : Stats) : work.parts.foldl add s = s.add work := by
  simp [parts, add]

end Stats

namespace Effect

def work : Effect → Stats
  | .count work => work
  | .keep _ _ | .report _ => {}

def error? : Effect → Option AllocationError
  | .report e => some e
  | .count _ | .keep _ _ => none

end Effect

namespace Allocation.Outcome

variable {outcome : Outcome} {i j : Nat} {f : Function}

def error? (outcome : Outcome) : Option AllocationError :=
  match outcome.result with
  | .ok _ => none
  | .error e => some e

theorem effects_cases (i : Nat) (outcome : Outcome) :
    (∃ f, outcome.result = .ok f ∧ outcome.effects i = outcome.stats.parts.map .count ++ [.keep i f]) ∨
      ∃ e, outcome.result = .error e ∧
        outcome.effects i = outcome.stats.parts.map .count ++ [.report e] := by
  unfold effects
  cases result : outcome.result with
  | ok f => exact .inl ⟨f, rfl, rfl⟩
  | error e => exact .inr ⟨e, rfl, rfl⟩

theorem keep_mem_effects : .keep j f ∈ outcome.effects i ↔ j = i ∧ outcome.result = .ok f := by
  rcases effects_cases i outcome with ⟨g, result, effects⟩ | ⟨e, result, effects⟩
  · simp [effects, result, @eq_comm _ f]
  · simp [effects, result]

theorem filterMap_error?_effects : (outcome.effects i).filterMap Effect.error? = outcome.error?.toList := by
  have quiet : (outcome.stats.parts.map Effect.count).filterMap Effect.error? = [] := by
    simp [List.filterMap_map, Effect.error?]
  unfold effects error?
  rw [List.filterMap_append, quiet]
  cases outcome.result <;> rfl

theorem map_work_effects : (outcome.effects i).map Effect.work = outcome.stats.parts ++ [({} : Stats)] := by
  have counted : (outcome.stats.parts.map Effect.count).map Effect.work = outcome.stats.parts := by
    simp [Function.comp_def, Effect.work]
  unfold effects
  rw [List.map_append, counted]
  cases outcome.result <;> rfl

end Allocation.Outcome

namespace Progress

variable {g : Progress} {effects : List Effect} {i : Nat} {f : Function}

theorem performAll_cons (g : Progress) (effect : Effect) (effects : List Effect) :
    g.performAll (effect :: effects) = (g.perform effect).performAll effects := rfl

theorem performAll_append (g : Progress) (effects more : List Effect) :
    g.performAll (effects ++ more) = (g.performAll effects).performAll more :=
  List.foldl_append

theorem stats_performAll (g : Progress) (effects : List Effect) :
    (g.performAll effects).stats = (effects.map Effect.work).foldl Stats.add g.stats := by
  induction effects generalizing g with
  | nil => rfl
  | cons effect rest ih =>
    have first : (g.perform effect).stats = g.stats.add effect.work := by cases effect <;> rfl
    rw [List.map_cons, List.foldl_cons, ← first]
    exact ih _

theorem errors_performAll (g : Progress) (effects : List Effect) :
    (g.performAll effects).errors.combined = g.errors.combined ++ effects.filterMap Effect.error? := by
  induction effects generalizing g with
  | nil => simp [performAll]
  | cons effect rest ih =>
    have later := ih (g.perform effect)
    cases effect with
    | count work => exact later
    | keep i f => exact later
    | report e =>
      rw [performAll_cons, later, perform, Collector.combined_append, List.append_assoc]
      rfl

theorem length_perform (g : Progress) (effect : Effect) :
    (g.perform effect).functions.length = g.functions.length := by
  cases effect <;> simp [perform]

theorem length_performAll (g : Progress) (effects : List Effect) :
    (g.performAll effects).functions.length = g.functions.length := by
  induction effects generalizing g with
  | nil => rfl
  | cons effect rest ih => exact (ih _).trans (g.length_perform effect)

theorem functions_performAll_of_not_mem (none : ∀ f, .keep i f ∉ effects) :
    (g.performAll effects).functions[i]? = g.functions[i]? := by
  induction effects generalizing g with
  | nil => rfl
  | cons effect rest ih =>
    refine (ih fun f member => none f (List.mem_cons_of_mem _ member)).trans ?_
    cases effect with
    | count work => rfl
    | report e => rfl
    | keep j h =>
      have other : j ≠ i := by
        intro same
        exact none h (same ▸ List.mem_cons_self)
      exact List.getElem?_set_ne other

theorem functions_performAll_of_mem (inside : i < g.functions.length) (kept : .keep i f ∈ effects)
    (once : ∀ h, .keep i h ∈ effects → h = f) : (g.performAll effects).functions[i]? = some (some f) := by
  -- Where all that is kept of a function is the same, it does not matter when it is kept.
  induction effects generalizing g with
  | nil => cases kept
  | cons effect rest ih =>
    by_cases later : .keep i f ∈ rest
    · have bound : i < (g.perform effect).functions.length := by rwa [length_perform]
      exact ih bound later fun h member => once h (List.mem_cons_of_mem _ member)
    · obtain rfl := (List.mem_cons.mp kept).resolve_right later
      have last : ∀ h, .keep i h ∉ rest := by
        intro h member
        obtain rfl := once h (List.mem_cons_of_mem _ member)
        exact later member
      exact (functions_performAll_of_not_mem last).trans (List.getElem?_set_self inside)

end Progress

def Program.effects (p : Program) (rf : RegisterFile) (i : Nat) : List Effect :=
  (p.functions[i]?).elim [] fun f => (f.allocate rf).effects i

def Program.allEffects (p : Program) (rf : RegisterFile) : List Effect :=
  (List.range p.functions.length).flatMap (p.effects rf)

-- What is known of a program when all its functions have been seen to, in whatever order.
structure Settled (p : Program) (rf : RegisterFile) (g : Progress) : Prop where
  functions : g.functions = p.functions.map fun f => (f.allocate rf).result.toOption
  stats : g.stats = (p.functions.map fun f => (f.allocate rf).stats).foldl Stats.add {}
  errors : g.errors.combined.Perm (p.functions.filterMap fun f => (f.allocate rf).error?)

theorem Settled.errors_eq_nil {p : Program} {rf : RegisterFile} {g : Progress} (settled : Settled p rf g) :
    g.errors.combined = [] ↔ ∀ f ∈ p.functions, (f.allocate rf).result.isOk = true := by
  have each : ∀ outcome : Allocation.Outcome, outcome.error? = none ↔ outcome.result.isOk = true := by
    intro outcome
    unfold Allocation.Outcome.error?
    cases outcome.result <;> simp [Except.isOk, Except.toBool]
  rw [← List.length_eq_zero_iff, settled.errors.length_eq, List.length_eq_zero_iff,
    List.filterMap_eq_nil_iff]
  exact forall₂_congr fun f _ => each _

namespace Program

variable {p : Program} {rf : RegisterFile} {i : Nat} {f : Function} {effects : List Effect}

theorem effects_of_getElem? (here : p.functions[i]? = some f) : p.effects rf i = (f.allocate rf).effects i := by
  rw [Program.effects, here]
  rfl

theorem keep_mem_allEffects : .keep i f ∈ p.allEffects rf ↔
    ∃ h, p.functions[i]? = some h ∧ (h.allocate rf).result = .ok f := by
  simp only [allEffects, List.mem_flatMap, List.mem_range]
  constructor
  · intro h
    obtain ⟨j, inside, member⟩ := h
    have here := List.getElem?_eq_getElem inside
    rw [effects_of_getElem? here, Allocation.Outcome.keep_mem_effects] at member
    obtain ⟨rfl, result⟩ := member
    exact ⟨_, here, result⟩
  · intro h
    obtain ⟨h, here, result⟩ := h
    refine ⟨i, (List.getElem?_eq_some_iff.mp here).1, ?_⟩
    rw [effects_of_getElem? here, Allocation.Outcome.keep_mem_effects]
    exact ⟨rfl, result⟩

theorem flatMap_range_getElem? {α β : Type} (xs : List α) (h : α → List β) :
    ((List.range xs.length).flatMap fun i => (xs[i]?).elim [] h) = xs.flatMap h := by
  induction xs with
  | nil => rfl
  | cons x rest ih =>
    rw [List.length_cons, List.range_succ_eq_map, List.flatMap_cons, List.flatMap_map, List.flatMap_cons, ← ih]
    rfl

theorem errors_allEffects (p : Program) (rf : RegisterFile) :
    (p.allEffects rf).filterMap Effect.error? = p.functions.filterMap fun f => (f.allocate rf).error? := by
  have each : ∀ i, (p.effects rf i).filterMap Effect.error? =
      (p.functions[i]?).elim [] fun f => (f.allocate rf).error?.toList := by
    intro i
    cases here : p.functions[i]? with
    | none => simp [Program.effects, here]
    | some f => rw [effects_of_getElem? here, Allocation.Outcome.filterMap_error?_effects, Option.elim_some]
  rw [allEffects, List.filterMap_flatMap, funext each, flatMap_range_getElem?]
  exact (List.filterMap_eq_flatMap_toList _ _).symm

theorem stats_allEffects (p : Program) (rf : RegisterFile) :
    ((p.allEffects rf).map Effect.work).foldl Stats.add {} =
      (p.functions.map fun f => (f.allocate rf).stats).foldl Stats.add {} := by
  have each : ∀ i, (p.effects rf i).map Effect.work =
      (p.functions[i]?).elim [] fun f => (f.allocate rf).stats.parts ++ [({} : Stats)] := by
    intro i
    cases here : p.functions[i]? with
    | none => simp [Program.effects, here]
    | some f => rw [effects_of_getElem? here, Allocation.Outcome.map_work_effects, Option.elim_some]
  have one : ∀ (s : Stats) (f : Function),
      ((f.allocate rf).stats.parts ++ [({} : Stats)]).foldl Stats.add s = s.add (f.allocate rf).stats := by
    intro s f
    rw [List.foldl_append, Stats.foldl_parts]
    rfl
  rw [allEffects, List.map_flatMap, funext each, flatMap_range_getElem?, List.foldl_flatMap, List.foldl_map]
  simp only [one]

theorem settled_of_perm (perm : effects.Perm (p.allEffects rf)) :
    Settled p rf ((Progress.start p).performAll effects) := by
  refine ⟨List.ext_getElem? fun i => ?_, ?_, ?_⟩
  · rw [List.getElem?_map]
    cases here : p.functions[i]? with
    | none =>
      have beyond : p.functions.length ≤ i := List.getElem?_eq_none_iff.mp here
      refine List.getElem?_eq_none ?_
      rw [Progress.length_performAll]
      simpa [Progress.start] using beyond
    | some f =>
      have inside : i < (Progress.start p).functions.length := by
        simpa [Progress.start] using (List.getElem?_eq_some_iff.mp here).1
      have kept : ∀ h, .keep i h ∈ effects ↔ (f.allocate rf).result = .ok h := by
        intro h
        rw [perm.mem_iff, keep_mem_allEffects]
        simp [here]
      cases result : (f.allocate rf).result with
      | ok g =>
        rw [Progress.functions_performAll_of_mem inside ((kept g).mpr result) fun h member =>
          Except.ok.inj (((kept h).mp member).symm.trans result)]
        simp [result, Except.toOption]
      | error e =>
        have unkept : ∀ h, .keep i h ∉ effects := by
          intro h member
          have wrong := (kept h).mp member
          rw [result] at wrong
          cases wrong
        have start : (Progress.start p).functions[i]? = some none := by
          rw [Progress.start, List.getElem?_map, here]
          rfl
        rw [Progress.functions_performAll_of_not_mem unkept, start]
        simp [result, Except.toOption]
  · rw [Progress.stats_performAll, (perm.map Effect.work).foldl_eq]
    exact stats_allEffects p rf
  · rw [Progress.errors_performAll, ← errors_allEffects p rf]
    exact perm.filterMap _

-- One function after the other is one of these orders, the one by index.
theorem allocateInOrder_progress {g : Progress} {rest : List Function} (left : p.functions.drop i = rest) :
    (allocateInOrder rf g i rest).progress =
      g.performAll ((List.range' i rest.length).flatMap (p.effects rf)) := by
  induction rest generalizing g i with
  | nil => rfl
  | cons f rest ih =>
    have here : p.functions[i]? = some f := by
      rw [← Nat.add_zero i, ← List.getElem?_drop, left]
      rfl
    have next : p.functions.drop (i + 1) = rest := by
      rw [← List.drop_drop, left]
      rfl
    rw [List.length_cons, List.range'_succ, List.flatMap_cons, Progress.performAll_append,
      effects_of_getElem? here, ← ih next]
    rfl

theorem allocateInOrder_eq (p : Program) (rf : RegisterFile) :
    (allocateInOrder rf (Progress.start p) 0 p.functions).progress =
      (Progress.start p).performAll (p.allEffects rf) := by
  rw [allocateInOrder_progress (List.drop_zero), allEffects, List.range_eq_range']

end Program

end RegisterAllocation
