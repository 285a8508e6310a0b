import RegisterAllocation.Allocation

namespace RegisterAllocation.Allocation

variable {rf : RegisterFile} {bound left n : Nat} {b : Built} {s s' : State} {outcome : Outcome}

-- Coloring a graph and what follows from it: the end, or the state in which the analysis starts again.
def conclude (rf : RegisterFile) (b : Built) : Except Outcome State :=
  let s := b.state.enter .color
  match Coloring.color b.graph s.sheet.function rf s.temps with
  | .error e => .error (s.fail (.coloring e))
  | .ok attempt =>
    let s := s.report (.color s.stats.iterations b.graph.size attempt.optimistic attempt.bigFail
      (attempt.uncolored.map s.table.nameOf))
    if attempt.success then .error (finish s rf attempt)
    else if attempt.bigFail then sweep { b with state := s } attempt
    else spill { b with state := s } attempt

def round (rf : RegisterFile) (s : State) : Except Outcome State :=
  match analyze s with
  | (s, .error e) => .error (s.fail (.analysis s.sheet.function.name e))
  | (s, .ok lv) => conclude rf (build s lv rf)

def entry (rf : RegisterFile) : Nat → State → Option State
  | 0, s => some s
  | n + 1, s =>
    match round rf s with
    | .ok s => entry rf n s
    | .error _ => none

def start (f : Function) (rf : RegisterFile) : State where
  sheet := Sheet.ofFunction f
  names := { stem := rf.tempPrefix }

theorem refine_eq : refine rf bound left b =
    match conclude rf b with
    | .error outcome => outcome
    | .ok s =>
      match analyze s with
      | (s, .error e) => s.fail (.analysis s.sheet.function.name e)
      | (s, .ok lv) =>
        match left with
        | 0 => s.fail (.tooManyIterations s.sheet.function.name bound)
        | left + 1 => refine rf bound left (build s lv rf) := by
  rw [refine, conclude]
  cases Coloring.color b.graph (b.state.enter .color).sheet.function rf (b.state.enter .color).temps with
  | error e => rfl
  | ok attempt =>
    dsimp only
    cases attempt.success with
    | false => rfl
    | true => rfl

def State.colored (b : Built) (attempt : Coloring) : State :=
  (b.state.enter .color).report (.color b.state.stats.iterations b.graph.size attempt.optimistic attempt.bigFail
    (attempt.uncolored.map b.state.table.nameOf))

def State.sweeping (s : State) (victims : List VarId) : State :=
  ({ s.enter .sweep with stats := { s.stats with sweeps := s.stats.sweeps + 1 } } : State).report
    (.sweep (victims.map s.table.nameOf))

theorem conclude_eq {attempt : Coloring}
    (found : Coloring.color b.graph b.state.sheet.function rf b.state.temps = .ok attempt) :
    conclude rf b =
      if attempt.success then .error (finish (.colored b attempt) rf attempt)
      else if attempt.bigFail then sweep { b with state := .colored b attempt } attempt
      else spill { b with state := .colored b attempt } attempt := by
  have entered : Coloring.color b.graph (b.state.enter .color).sheet.function rf
      (b.state.enter .color).temps = .ok attempt := found
  simp only [conclude, entered]
  rfl

theorem sweep_nil {attempt : Coloring} (none : b.graph.nodes.filter b.state.spillable = []) :
    sweep b attempt = .error ((b.state.enter .sweep).fail
      (.nothingToSpill b.state.sheet.function.name (attempt.uncolored.map b.state.table.nameOf))) := by
  have same : b.graph.nodes.filter (b.state.enter .sweep).spillable = [] := none
  simp only [sweep, same]
  rfl

theorem sweep_cons {attempt : Coloring} {first : VarId} {rest : List VarId}
    (some : b.graph.nodes.filter b.state.spillable = first :: rest) :
    sweep b attempt = spillAll (b.state.sweeping (first :: rest)) (first :: rest) := by
  have same : b.graph.nodes.filter (b.state.enter .sweep).spillable = first :: rest := some
  simp only [sweep, same]
  rfl

theorem spill_nil {attempt : Coloring} (none : attempt.uncolored.filter b.state.spillable = []) :
    spill b attempt = sweep { b with state := b.state.enter .spill } attempt := by
  have same : attempt.uncolored.filter (b.state.enter .spill).spillable = [] := none
  simp only [spill, same]

theorem spill_cons {attempt : Coloring} {first : VarId} {rest : List VarId}
    (some : attempt.uncolored.filter b.state.spillable = first :: rest) :
    spill b attempt = spillAll (b.state.enter .spill) (first :: rest) := by
  have same : attempt.uncolored.filter (b.state.enter .spill).spillable = first :: rest := some
  simp only [spill, same]

theorem entry_succ : entry rf (n + 1) s = some s' ↔
    ∃ before, entry rf n s = some before ∧ round rf before = .ok s' := by
  induction n generalizing s with
  | zero =>
    cases ended : round rf s <;> simp [entry, ended]
  | succ n ih =>
    rw [entry, entry]
    cases ended : round rf s with
    | error outcome => simp
    | ok next => exact ih

theorem refine_of_entry (going : conclude rf b = .ok s) (entered : entry rf n s = some s')
    (ended : round rf s' = .error outcome) (early : n < left) : refine rf bound left b = outcome := by
  induction n generalizing b s left with
  | zero =>
    cases entered
    obtain ⟨left, rfl⟩ := Nat.exists_eq_succ_of_ne_zero (Nat.ne_of_gt early)
    rw [refine_eq, going]
    rw [round] at ended
    split at ended
    · rename_i failed
      simp only [failed]
      exact Except.error.inj ended
    · rename_i analyzed
      simp only [analyzed]
      rw [refine_eq, ended]
  | succ n ih =>
    obtain ⟨left, rfl⟩ := Nat.exists_eq_succ_of_ne_zero (Nat.ne_of_gt (Nat.lt_of_le_of_lt (Nat.zero_le _) early))
    rw [entry] at entered
    cases next : round rf s with
    | error outcome => simp [next] at entered
    | ok after =>
      rw [next] at entered
      rw [refine_eq, going]
      rw [round] at next
      split at next
      · cases next
      · rename_i analyzed
        simp only [analyzed]
        exact ih next entered (Nat.lt_of_succ_lt_succ early)

theorem allocate_eq (f : Function) (rf : RegisterFile) : f.allocate rf =
    match analyze (start f rf) with
    | (s, .error e) => s.fail (.analysis s.sheet.function.name e)
    | (s, .ok lv) => refine rf (virtuals s.sheet + 2) (virtuals s.sheet + 1) (build s lv rf) := by
  cases analyzed : analyze (start f rf) with
  | mk after result =>
    have same : analyze { sheet := Sheet.ofFunction f, names := { stem := rf.tempPrefix } } =
      (after, result) := analyzed
    rw [Function.allocate, Sheet.allocate, same]
    cases result <;> rfl

theorem allocate_of_entry {f : Function} (entered : entry rf n (start f rf) = some s)
    (ended : round rf s = .error outcome)
    (early : n ≤ virtuals (analyze (start f rf)).1.sheet + 1) : f.allocate rf = outcome := by
  cases n with
  | zero =>
    cases entered
    rw [round] at ended
    split at ended
    · rename_i failed
      rw [allocate_eq, failed]
      exact Except.error.inj ended
    · rename_i analyzed
      rw [allocate_eq, analyzed]
      simp only
      rw [refine_eq, ended]
  | succ n =>
    rw [entry] at entered
    cases next : round rf (start f rf) with
    | error outcome => simp [next] at entered
    | ok after =>
      rw [next] at entered
      rw [round] at next
      split at next
      · cases next
      · rename_i analyzed
        rw [analyzed] at early
        rw [allocate_eq, analyzed]
        exact refine_of_entry next entered ended early

end RegisterAllocation.Allocation
