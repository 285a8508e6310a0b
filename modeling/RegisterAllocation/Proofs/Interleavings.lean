import Mathlib.Algebra.BigOperators.Ring.List
import Mathlib.Algebra.Ring.Nat
import RegisterAllocation.Proofs.Effects
import RegisterAllocation.Proofs.Progress

namespace RegisterAllocation

namespace Pool

section Ranges

variable {count workers threads first : Nat} {sizes : List Nat} {r : Nat × Nat}

theorem sum_shares (size more workers : Nat) :
    ((List.range workers).map fun w => if w < more then size + 1 else size).sum =
      workers * size + min more workers := by
  induction workers with
  | zero => simp
  | succ k ih =>
    rw [List.range_succ, List.map_append, List.sum_append, ih, List.map_singleton, List.sum_singleton,
      Nat.succ_mul]
    split <;> omega

theorem shares_sum (some_worker : 0 < workers) : (shares count workers).sum = count := by
  have few : count % workers ≤ workers := Nat.le_of_lt (Nat.mod_lt _ some_worker)
  rw [shares, sum_shares, Nat.min_eq_left few, Nat.div_add_mod]

theorem length_rangesFrom (first : Nat) (sizes : List Nat) :
    (rangesFrom first sizes).length = sizes.length := by
  induction sizes generalizing first with
  | nil => rfl
  | cons size rest ih => simp [rangesFrom, ih]

theorem mem_rangesFrom (member : r ∈ rangesFrom first sizes) : ∃ size ∈ sizes, r.2 = r.1 + size := by
  induction sizes generalizing first with
  | nil => cases member
  | cons size rest ih =>
    rcases List.mem_cons.mp member with rfl | later
    · exact ⟨size, List.mem_cons_self, rfl⟩
    · obtain ⟨size, member, same⟩ := ih later
      exact ⟨size, List.mem_cons_of_mem _ member, same⟩

def indices (r : Nat × Nat) : List Nat := List.range' r.1 (r.2 - r.1)

theorem flatMap_rangesFrom (first : Nat) (sizes : List Nat) :
    (rangesFrom first sizes).flatMap indices = List.range' first sizes.sum := by
  induction sizes generalizing first with
  | nil => rfl
  | cons size rest ih =>
    rw [rangesFrom, List.flatMap_cons, ih, indices, Nat.add_sub_cancel_left, List.sum_cons,
      List.range'_append_1]

theorem ranges_partition (count : Nat) (some_thread : 0 < threads) :
    (ranges count threads).length = min threads count ∧ (∀ r ∈ ranges count threads, r.1 < r.2) ∧
      (ranges count threads).flatMap indices = List.range count := by
  refine ⟨?_, fun r member => ?_, ?_⟩
  · rw [ranges, length_rangesFrom, shares, List.length_map, List.length_range]
  · obtain ⟨size, listed, same⟩ := mem_rangesFrom member
    simp only [shares, List.mem_map, List.mem_range] at listed
    obtain ⟨w, below, rfl⟩ := listed
    have positive : 0 < count / min threads count :=
      Nat.div_pos (Nat.min_le_right _ _) (Nat.zero_lt_of_lt below)
    rw [same]
    split <;> omega
  · rw [ranges, flatMap_rangesFrom, List.range_eq_range']
    rcases Nat.eq_zero_or_pos count with rfl | some_function
    · rw [Nat.min_zero]
      rfl
    · rw [shares_sum (Nat.lt_min.mpr ⟨some_thread, some_function⟩)]

theorem range_le (member : r ∈ ranges count threads) : r.2 ≤ r.1 + (count / min threads count + 1) := by
  obtain ⟨size, listed, same⟩ := mem_rangesFrom member
  simp only [shares, List.mem_map, List.mem_range] at listed
  obtain ⟨w, -, rfl⟩ := listed
  rw [same]
  split <;> omega

theorem le_of_mem_ranges (some_thread : 0 < threads) (member : r ∈ ranges count threads) : r.2 ≤ count := by
  obtain ⟨-, nonempty, all⟩ := ranges_partition count some_thread
  have last : r.2 - 1 ∈ (ranges count threads).flatMap indices := by
    refine List.mem_flatMap.mpr ⟨r, member, ?_⟩
    have order := nonempty r member
    simp only [indices, List.mem_range'_1]
    omega
  rw [all, List.mem_range] at last
  omega

end Ranges

inductive Moved (p : Program) (rf : RegisterFile) (s : State) : Move → State → Prop where
  | allocate {w : Nat} {worker : Worker} {f : Function} (here : s.workers[w]? = some worker)
      (idle : worker.pending = []) (left : worker.next < worker.stop)
      (found : p.functions[worker.next]? = some f) :
      Moved p rf s (.allocate w) { s with
        workers := s.workers.set w { worker with
          next := worker.next + 1
          pending := (f.allocate rf).effects worker.next } }
  | perform {w : Nat} {worker : Worker} {effect : Effect} {rest : List Effect}
      (here : s.workers[w]? = some worker) (pending : worker.pending = effect :: rest)
      (quiet : effect.error? = none) :
      Moved p rf s (.act w) { s with
        workers := s.workers.set w { worker with pending := rest }
        progress := s.progress.perform effect }
  | hand {w : Nat} {worker : Worker} {e : AllocationError} {rest : List Effect}
      (here : s.workers[w]? = some worker) (pending : worker.pending = .report e :: rest)
      (waiting : s.listener = .waiting) :
      Moved p rf s (.act w) { s with
        workers := s.workers.set w { worker with pending := rest }
        listener := .holding e }
  | buffer {e : AllocationError} (holding : s.listener = .holding e) :
      Moved p rf s .buffer { s with listener := .waiting, progress := s.progress.perform (.report e) }
  | stop (listening : s.stopping = false) (done : ∀ w ∈ s.workers, w.finished = true) :
      Moved p rf s .stop { s with stopping := true }
  | quit (waiting : s.listener = .waiting) (told : s.stopping = true) :
      Moved p rf s .quit { s with listener := .stopped }

variable {p : Program} {rf : RegisterFile} {s next : State} {move : Move} {n w : Nat} {worker : Worker}
  {effect : Effect} {rest : List Effect} {f : Function} {e : AllocationError}

theorem step_sound (possible : step p rf s move = some next) : Moved p rf s move next := by
  cases move with
  | allocate w =>
    simp only [step, Option.bind_eq_bind, Option.bind_eq_some_iff] at possible
    obtain ⟨worker, here, possible⟩ := possible
    split at possible
    · cases possible
    · rename_i free
      obtain ⟨f, found, same⟩ := Option.bind_eq_some_iff.mp possible
      simp only [Bool.or_eq_true, Bool.not_eq_true', decide_eq_true_eq, not_or, Bool.not_eq_false,
        List.isEmpty_iff, Nat.not_le] at free
      cases same
      exact .allocate here free.1 free.2 found
  | act w =>
    simp only [step, Option.bind_eq_bind, Option.bind_eq_some_iff] at possible
    obtain ⟨worker, here, possible⟩ := possible
    cases pending : worker.pending with
    | nil => simp [pending] at possible
    | cons effect rest =>
      simp only [pending, Option.bind_eq_some_iff] at possible
      obtain ⟨seen, saw, same⟩ := possible
      cases same
      cases effect with
      | count work =>
        cases saw
        exact .perform here pending rfl
      | keep i f =>
        cases saw
        exact .perform here pending rfl
      | report e =>
        cases listener : s.listener with
        | waiting =>
          simp only [State.see, listener] at saw
          cases saw
          exact .hand here pending listener
        | holding _ => simp [State.see, listener] at saw
        | stopped => simp [State.see, listener] at saw
  | buffer =>
    cases listener : s.listener with
    | holding e =>
      simp only [step, listener] at possible
      cases possible
      exact .buffer listener
    | waiting => simp [step, listener] at possible
    | stopped => simp [step, listener] at possible
  | stop =>
    simp only [step] at possible
    split at possible
    · cases possible
    · rename_i ready
      simp only [Bool.or_eq_true, Bool.not_eq_true', not_or, Bool.not_eq_true, Bool.not_eq_false,
        List.all_eq_true] at ready
      cases possible
      exact .stop ready.1 ready.2
  | quit =>
    simp only [step] at possible
    split at possible
    · rename_i waiting told
      cases possible
      exact .quit waiting told
    · cases possible

theorem step_complete (moved : Moved p rf s move next) : step p rf s move = some next := by
  cases moved with
  | allocate here idle left found =>
    simp [step, here, idle, left, found]
  | perform here pending quiet =>
    rename_i effect _
    cases effect with
    | count work => simp [step, here, pending, State.see]
    | keep i f => simp [step, here, pending, State.see]
    | report e => cases quiet
  | hand here pending waiting => simp [step, here, pending, State.see, waiting]
  | buffer holding => simp [step, holding]
  | stop listening done => simpa [step, listening] using done
  | quit waiting told => simp [step, waiting, told]

def owes (p : Program) (rf : RegisterFile) (w : Worker) : List Effect :=
  w.pending ++ (indices (w.next, w.stop)).flatMap (p.effects rf)

def Listener.held : Listener → List Effect
  | .holding e => [.report e]
  | .waiting | .stopped => []

-- No effect is lost and none comes twice: what has been performed, what the listener holds and what the
-- workers owe are together the effects of all the functions.
structure Consistent (p : Program) (rf : RegisterFile) (s : State) : Prop where
  inside : ∀ w ∈ s.workers, w.stop ≤ p.functions.length
  accounted : ∃ performed, s.progress = (Progress.start p).performAll performed ∧
    (performed ++ (s.listener.held ++ s.workers.flatMap (owes p rf))).Perm (p.allEffects rf)
  stopping : s.stopping = true → ∀ w ∈ s.workers, w.finished = true
  stopped : s.listener = .stopped → s.stopping = true

theorem start_consistent {threads : Nat} (some_thread : 0 < threads) : Consistent p rf (start p threads) := by
  refine ⟨fun w member => ?_, ⟨[], rfl, ?_⟩, fun h => Bool.noConfusion h, fun h => Listener.noConfusion h⟩
  · obtain ⟨r, listed, rfl⟩ := List.mem_map.mp member
    exact le_of_mem_ranges some_thread listed
  · have owed : (start p threads).workers.flatMap (owes p rf) = p.allEffects rf := by
      rw [Program.allEffects, ← (ranges_partition _ some_thread).2.2, List.flatMap_assoc]
      exact List.flatMap_map _ _ _
    rw [owed]
    exact .refl _

theorem owes_finished (done : worker.finished = true) : owes p rf worker = [] := by
  simp only [Worker.finished, Bool.and_eq_true, List.isEmpty_iff, decide_eq_true_eq] at done
  simp [owes, indices, done.1, Nat.sub_eq_zero_of_le done.2]

theorem owes_allocate (idle : worker.pending = []) (left : worker.next < worker.stop)
    (found : p.functions[worker.next]? = some f) :
    owes p rf { worker with next := worker.next + 1, pending := (f.allocate rf).effects worker.next } =
      owes p rf worker := by
  have more : worker.stop - worker.next = (worker.stop - (worker.next + 1)) + 1 := by omega
  simp only [owes, indices, idle, List.nil_append]
  rw [more, List.range'_succ, List.flatMap_cons, Program.effects_of_getElem? found]

theorem exists_split {α : Type} {xs : List α} {x : α} {i : Nat} (here : xs[i]? = some x) :
    ∃ before after, xs = before ++ x :: after ∧ ∀ y, xs.set i y = before ++ y :: after := by
  obtain ⟨bound, rfl⟩ := List.getElem?_eq_some_iff.mp here
  refine ⟨xs.take i, xs.drop (i + 1), ?_, fun y => ?_⟩
  · rw [List.getElem_cons_drop, List.take_append_drop]
  · rw [List.set_eq_take_append_cons_drop, if_pos bound]

theorem owed_perm (here : s.workers[w]? = some worker) (pending : worker.pending = effect :: rest) :
    (s.workers.flatMap (owes p rf)).Perm
      (effect :: (s.workers.set w { worker with pending := rest }).flatMap (owes p rf)) := by
  obtain ⟨before, after, all, change⟩ := exists_split here
  have first : owes p rf worker = effect :: owes p rf { worker with pending := rest } := by
    simp [owes, pending]
  rw [change, all]
  simp only [List.flatMap_append, List.flatMap_cons, first, List.cons_append]
  exact List.perm_middle

theorem not_finished_of_pending (pending : worker.pending = effect :: rest) : worker.finished = false := by
  simp [Worker.finished, pending]

theorem Consistent.moved (consistent : Consistent p rf s) (moved : Moved p rf s move next) :
    Consistent p rf next := by
  obtain ⟨inside, ⟨performed, progress, all⟩, stopping, stopped⟩ := consistent
  -- A worker that moves keeps to its range, and while it has not finished nobody stops the listener.
  have kept : ∀ (w : Nat) (worker new : Worker), s.workers[w]? = some worker → new.stop = worker.stop →
      ∀ w' ∈ s.workers.set w new, w'.stop ≤ p.functions.length := by
    intro w worker new here same w' member
    rcases List.mem_or_eq_of_mem_set member with old | rfl
    · exact inside w' old
    · exact same ▸ inside worker (List.mem_of_getElem? here)
  have busy : ∀ (w : Nat) (worker : Worker), s.workers[w]? = some worker → worker.finished = false →
      s.stopping ≠ true := by
    intro w worker here unfinished told
    rw [stopping told worker (List.mem_of_getElem? here)] at unfinished
    cases unfinished
  cases moved with
  | @allocate w worker f here idle left found =>
    have unfinished : worker.finished = false := by simp [Worker.finished, idle, left]
    have listening := busy w worker here unfinished
    refine ⟨kept w worker _ here rfl, ⟨performed, progress, ?_⟩, fun told => absurd told listening, stopped⟩
    obtain ⟨before, after, workers, change⟩ := exists_split here
    rw [workers] at all
    simp only [change, List.flatMap_append, List.flatMap_cons, owes_allocate idle left found]
    simpa only [List.flatMap_append, List.flatMap_cons] using all
  | @perform w worker effect rest here pending quiet =>
    have listening := busy w worker here (not_finished_of_pending pending)
    refine ⟨kept w worker _ here rfl, ⟨performed ++ [effect], ?_, ?_⟩, fun told => absurd told listening,
      stopped⟩
    · rw [Progress.performAll_append, ← progress]
      rfl
    · have taken : (effect :: (s.listener.held ++
          (s.workers.set w { worker with pending := rest }).flatMap (owes p rf))).Perm
          (s.listener.held ++ s.workers.flatMap (owes p rf)) :=
        List.perm_middle.symm.trans (.append_left _ (owed_perm here pending).symm)
      rw [List.append_assoc]
      exact (taken.append_left performed).trans all
  | @hand w worker e rest here pending waiting =>
    have listening := busy w worker here (not_finished_of_pending pending)
    refine ⟨kept w worker _ here rfl, ⟨performed, progress, ?_⟩, fun told => absurd told listening,
      fun wrong => Listener.noConfusion wrong⟩
    rw [waiting] at all
    exact .trans (.append_left performed (owed_perm here pending).symm) all
  | @buffer e holding =>
    refine ⟨inside, ⟨performed ++ [.report e], ?_, ?_⟩, stopping, fun wrong => Listener.noConfusion wrong⟩
    · rw [Progress.performAll_append, ← progress]
      rfl
    · rw [holding] at all
      simpa [Listener.held] using all
  | stop listening done => exact ⟨inside, ⟨performed, progress, all⟩, fun _ => done, fun _ => rfl⟩
  | quit waiting told =>
    refine ⟨inside, ⟨performed, progress, ?_⟩, stopping, fun _ => told⟩
    rw [waiting] at all
    exact all

theorem Consistent.settled (consistent : Consistent p rf s) (ended : s.listener = .stopped) :
    Settled p rf s.progress := by
  obtain ⟨performed, progress, all⟩ := consistent.accounted
  have nothing : s.workers.flatMap (owes p rf) = [] := List.flatMap_eq_nil_iff.mpr fun w member =>
    owes_finished (consistent.stopping (consistent.stopped ended) w member)
  rw [nothing, ended] at all
  rw [progress]
  refine Program.settled_of_perm ?_
  simpa [Listener.held] using all

theorem Consistent.progresses (consistent : Consistent p rf s) (listening : s.listener ≠ .stopped) :
    ∃ move next, Moved p rf s move next := by
  cases listener : s.listener with
  | stopped => exact absurd listener listening
  | holding e => exact ⟨_, _, .buffer listener⟩
  | waiting =>
    cases told : s.stopping with
    | true => exact ⟨_, _, .quit listener told⟩
    | false =>
      by_cases done : ∀ w ∈ s.workers, w.finished = true
      · exact ⟨_, _, .stop told done⟩
      · push Not at done
        obtain ⟨worker, member, unfinished⟩ := done
        obtain ⟨w, here⟩ := List.mem_iff_getElem?.mp member
        cases pending : worker.pending with
        | nil =>
          have left : worker.next < worker.stop := by simpa [Worker.finished, pending] using unfinished
          have known := Nat.lt_of_lt_of_le left (consistent.inside worker member)
          exact ⟨_, _, .allocate here pending left (List.getElem?_eq_getElem known)⟩
        | cons effect rest =>
          cases effect with
          | count work => exact ⟨_, _, .perform here pending rfl⟩
          | keep i f => exact ⟨_, _, .perform here pending rfl⟩
          | report e => exact ⟨_, _, .hand here pending listener⟩

-- How many moves are left at most. An error takes two, one to hand it over and one to buffer it.
def cost (effect : Effect) : Nat := 1 + effect.error?.toList.length

def Worker.work (w : Worker) : Nat := 8 * (w.stop - w.next) + (w.pending.map cost).sum

def Listener.work : Listener → Nat
  | .waiting => 1
  | .holding _ => 2
  | .stopped => 0

def State.work (s : State) : Nat :=
  (s.workers.map Worker.work).sum + s.listener.work + if s.stopping then 0 else 1

theorem cost_effects (outcome : Allocation.Outcome) (i : Nat) : ((outcome.effects i).map cost).sum < 8 := by
  unfold Allocation.Outcome.effects
  cases outcome.result <;> simp [Stats.parts, cost, Effect.error?]

theorem Moved.work_lt (moved : Moved p rf s move next) : next.work < s.work := by
  cases moved with
  | @allocate w worker f here idle left found =>
    obtain ⟨before, after, workers, change⟩ := exists_split here
    have few := cost_effects (f.allocate rf) worker.next
    simp only [State.work, change]
    rw [workers]
    simp only [List.map_append, List.map_cons, List.sum_append, List.sum_cons, Worker.work, idle,
      List.map_nil, List.sum_nil]
    omega
  | @perform w worker effect rest here pending quiet =>
    obtain ⟨before, after, workers, change⟩ := exists_split here
    simp only [State.work, change]
    rw [workers]
    simp only [List.map_append, List.map_cons, List.sum_append, List.sum_cons, Worker.work, pending, cost]
    omega
  | @hand w worker e rest here pending waiting =>
    obtain ⟨before, after, workers, change⟩ := exists_split here
    simp only [State.work, change, waiting]
    rw [workers]
    simp only [List.map_append, List.map_cons, List.sum_append, List.sum_cons, Worker.work, pending, cost,
      Listener.work, Effect.error?, Option.toList_some, List.length_singleton]
    omega
  | buffer holding => simp [State.work, Listener.work, holding]
  | stop listening done => simp [State.work, listening]
  | quit waiting told => simp [State.work, Listener.work, waiting]

theorem start_work {threads : Nat} (some_thread : 0 < threads) :
    (start p threads).work = 8 * p.functions.length + 2 := by
  have all : ((ranges p.functions.length threads).map fun r => r.2 - r.1).sum = p.functions.length := by
    have lengths := congrArg List.length (ranges_partition p.functions.length some_thread).2.2
    simpa [List.length_flatMap, indices] using lengths
  have each : (start p threads).workers.map Worker.work =
      (ranges p.functions.length threads).map fun r => 8 * (r.2 - r.1) := by
    simp [start, Worker.work, Function.comp_def]
  rw [State.work, each, List.sum_map_mul_left, all]
  rfl

inductive Reaches (p : Program) (rf : RegisterFile) (s : State) : Nat → State → Prop where
  | refl : Reaches p rf s 0 s
  | step {n : Nat} {middle next : State} {move : Move} (before : Reaches p rf s n middle)
      (possible : step p rf middle move = some next) : Reaches p rf s (n + 1) next

theorem Reaches.consistent (consistent : Consistent p rf s) (reaches : Reaches p rf s n next) :
    Consistent p rf next := by
  induction reaches with
  | refl => exact consistent
  | step _ possible ih => exact ih.moved (step_sound possible)

theorem Reaches.work_le (reaches : Reaches p rf s n next) : n + next.work ≤ s.work := by
  induction reaches with
  | refl => exact Nat.le_of_eq (Nat.zero_add _)
  | step _ possible ih =>
    have less := (step_sound possible).work_lt
    omega

theorem Reaches.trans {m : Nat} {last : State} (first : Reaches p rf s n next)
    (second : Reaches p rf next m last) : Reaches p rf s (n + m) last := by
  induction second with
  | refl => exact first
  | step _ possible ih => exact .step ih possible

theorem run_reaches (p : Program) (rf : RegisterFile) (s : State) (schedule : List Move) :
    ∃ n, Reaches p rf s n (run p rf s schedule) := by
  induction schedule generalizing s with
  | nil => exact ⟨0, .refl⟩
  | cons move rest ih =>
    cases possible : step p rf s move with
    | none =>
      obtain ⟨n, reaches⟩ := ih s
      refine ⟨n, ?_⟩
      rwa [run, List.foldl_cons, possible]
    | some next =>
      obtain ⟨n, reaches⟩ := ih next
      refine ⟨1 + n, ?_⟩
      rw [run, List.foldl_cons, possible]
      exact (Reaches.step .refl possible).trans reaches

theorem run_append (p : Program) (rf : RegisterFile) (s : State) (schedule more : List Move) :
    run p rf s (schedule ++ more) = run p rf (run p rf s schedule) more :=
  List.foldl_append

theorem run_cons (moved : Moved p rf s move next) (schedule : List Move) :
    run p rf s (move :: schedule) = run p rf next schedule := by
  rw [run, List.foldl_cons, step_complete moved]
  rfl

theorem run_acts (worker : Worker) (effects rest : List Effect)
    (quiet : ∀ effect ∈ effects, effect.error? = none)
    (here : s.workers[w]? = some { worker with pending := effects ++ rest }) :
    run p rf s (List.replicate effects.length (.act w)) = { s with
      workers := s.workers.set w { worker with pending := rest }
      progress := s.progress.performAll effects } := by
  induction effects generalizing s with
  | nil =>
    obtain ⟨before, after, workers, change⟩ := exists_split here
    have same : s.workers.set w { worker with pending := rest } = s.workers := (change _).trans workers.symm
    rw [same]
    rfl
  | cons effect more ih =>
    have bound := (List.getElem?_eq_some_iff.mp here).1
    rw [List.length_cons, List.replicate_succ,
      run_cons (.perform here rfl (quiet effect List.mem_cons_self)),
      ih (fun other member => quiet other (List.mem_cons_of_mem _ member)) (List.getElem?_set_self bound)]
    simp only [List.set_set, Progress.performAll_cons]

theorem run_last (p : Program) (rf : RegisterFile) (waiting : s.listener = .waiting)
    (here : s.workers[w]? = some worker) (pending : worker.pending = [effect]) :
    ∃ g, run p rf s [.act w, .buffer] = { s with
      workers := s.workers.set w { worker with pending := [] }
      progress := g } := by
  cases effect with
  | report e =>
    rw [run_cons (.hand here pending waiting), run_cons (.buffer rfl)]
    exact ⟨_, by rw [waiting]; rfl⟩
  | count work =>
    rw [run_cons (.perform here pending rfl)]
    exact ⟨_, by simp only [run, List.foldl_cons, List.foldl_nil, step, waiting]; rfl⟩
  | keep i f =>
    rw [run_cons (.perform here pending rfl)]
    exact ⟨_, by simp only [run, List.foldl_cons, List.foldl_nil, step, waiting]; rfl⟩

theorem turn_eq (w : Nat) : turn w = .allocate w :: (List.replicate 5 (.act w) ++ [.act w, .buffer]) := rfl

theorem run_turn (rf : RegisterFile) (waiting : s.listener = .waiting)
    (here : s.workers[w]? = some worker) (idle : worker.pending = []) (left : worker.next < worker.stop)
    (inside : worker.stop ≤ p.functions.length) :
    ∃ g, run p rf s (turn w) = { s with
      workers := s.workers.set w { worker with next := worker.next + 1 }
      progress := g } := by
  have bound := (List.getElem?_eq_some_iff.mp here).1
  have found := List.getElem?_eq_getElem (Nat.lt_of_lt_of_le left inside)
  generalize p.functions[worker.next] = f at found
  have counted : ∀ effect ∈ (f.allocate rf).stats.parts.map Effect.count, effect.error? = none := by
    simp [Effect.error?]
  obtain ⟨last, effects⟩ : ∃ last, (f.allocate rf).effects worker.next =
      (f.allocate rf).stats.parts.map .count ++ [last] := by
    rcases Allocation.Outcome.effects_cases worker.next (f.allocate rf) with
      ⟨g, -, effects⟩ | ⟨e, -, effects⟩
    · exact ⟨_, effects⟩
    · exact ⟨_, effects⟩
  have five : 5 = ((f.allocate rf).stats.parts.map Effect.count).length := rfl
  rw [turn_eq, run_cons (.allocate here idle left found), effects, run_append, five,
    run_acts { worker with next := worker.next + 1 } _ [last] counted (List.getElem?_set_self bound)]
  simp only [List.set_set]
  obtain ⟨g, ran⟩ := run_last p rf (s := { s with
    workers := s.workers.set w { worker with next := worker.next + 1, pending := [last] }
    progress := s.progress.performAll ((f.allocate rf).stats.parts.map Effect.count) })
    waiting (List.getElem?_set_self bound) rfl
  refine ⟨g, ran.trans ?_⟩
  simp only [List.set_set, idle]

def Worker.advance (worker : Worker) : Worker :=
  { worker with next := if worker.next < worker.stop then worker.next + 1 else worker.next }

theorem run_turn_finished (p : Program) (rf : RegisterFile) (waiting : s.listener = .waiting)
    (here : s.workers[w]? = some worker) (idle : worker.pending = []) (done : worker.stop ≤ worker.next) :
    run p rf s (turn w) = s := by
  simp [run, turn_eq, step, waiting, here, idle, done]

theorem run_turn_advances (rf : RegisterFile) (waiting : s.listener = .waiting)
    (here : s.workers[w]? = some worker) (idle : worker.pending = [])
    (inside : worker.stop ≤ p.functions.length) :
    ∃ g, run p rf s (turn w) = { s with workers := s.workers.set w worker.advance, progress := g } := by
  by_cases left : worker.next < worker.stop
  · obtain ⟨g, ran⟩ := run_turn rf waiting here idle left inside
    exact ⟨g, by rw [ran, Worker.advance, if_pos left]⟩
  · obtain ⟨before, after, workers, change⟩ := exists_split here
    have stays : worker.advance = worker := by rw [Worker.advance, if_neg left]
    have same : s.workers.set w worker = s.workers := (change _).trans workers.symm
    exact ⟨s.progress, by rw [run_turn_finished p rf waiting here idle (Nat.le_of_not_lt left), stays, same]⟩

theorem run_turns (rf : RegisterFile) (waiting : s.listener = .waiting)
    (idle : ∀ worker ∈ s.workers, worker.pending = [] ∧ worker.stop ≤ p.functions.length)
    (few : w ≤ s.workers.length) :
    ∃ g, run p rf s ((List.range w).flatMap turn) = { s with
      workers := (s.workers.take w).map Worker.advance ++ s.workers.drop w
      progress := g } := by
  induction w with
  | zero => exact ⟨s.progress, rfl⟩
  | succ w ih =>
    have bound : w < s.workers.length := few
    obtain ⟨g, first⟩ := ih (Nat.le_of_lt bound)
    obtain ⟨quiet, inside⟩ := idle _ (List.getElem_mem bound)
    have count : ((s.workers.take w).map Worker.advance).length = w := by
      rw [List.length_map, List.length_take, Nat.min_eq_left (Nat.le_of_lt bound)]
    have rest : s.workers.drop w = s.workers[w] :: s.workers.drop (w + 1) := List.drop_eq_getElem_cons bound
    have here : ((s.workers.take w).map Worker.advance ++ s.workers.drop w)[w]? = some s.workers[w] := by
      rw [List.getElem?_append_right (Nat.le_of_eq count), count, Nat.sub_self, rest]
      rfl
    obtain ⟨g', last⟩ := run_turn_advances (p := p) (s := { s with
      workers := (s.workers.take w).map Worker.advance ++ s.workers.drop w
      progress := g }) rf waiting here quiet inside
    refine ⟨g', ?_⟩
    rw [List.range_succ, List.flatMap_append, run_append, first, List.flatMap_singleton, last]
    simp only [List.set_append_right _ _ (Nat.le_of_eq count), count, Nat.sub_self, rest, List.set_cons_zero,
      List.take_succ_eq_append_getElem bound, List.map_append, List.map_singleton, List.append_assoc,
      List.singleton_append]

theorem finished_of_turns {k : Nat} (idle : worker.pending = []) (enough : worker.stop ≤ worker.next + k) :
    (Worker.advance^[k] worker).finished = true := by
  induction k generalizing worker with
  | zero =>
    have done : worker.stop ≤ worker.next := enough
    simp [Worker.finished, idle, done]
  | succ k ih =>
    rw [Function.iterate_succ_apply]
    refine ih idle ?_
    simp only [Worker.advance]
    split <;> omega

theorem run_rounds {k : Nat} (rf : RegisterFile) (waiting : s.listener = .waiting)
    (idle : ∀ worker ∈ s.workers, worker.pending = [] ∧ worker.stop ≤ p.functions.length) :
    ∃ g, run p rf s (List.replicate k ((List.range s.workers.length).flatMap turn)).flatten = { s with
      workers := s.workers.map Worker.advance^[k]
      progress := g } := by
  induction k generalizing s with
  | zero => exact ⟨s.progress, by simp [run]⟩
  | succ k ih =>
    obtain ⟨g, first⟩ := run_turns rf waiting idle (Nat.le_refl _)
    rw [List.take_length, List.drop_length, List.append_nil] at first
    obtain ⟨g', later⟩ := ih (s := { s with workers := s.workers.map Worker.advance, progress := g }) waiting
      (List.forall_mem_map.mpr idle)
    rw [List.length_map] at later
    refine ⟨g', ?_⟩
    rw [List.replicate_succ, List.flatten_cons, run_append, first, later, List.map_map]
    rfl

theorem run_inTurn (p : Program) (rf : RegisterFile) {threads : Nat} (some_thread : 0 < threads) :
    (run p rf (start p threads) (inTurn p.functions.length threads)).listener = .stopped := by
  have count : (start p threads).workers.length = min threads p.functions.length := by
    rw [start, List.length_map, (ranges_partition p.functions.length some_thread).1]
  obtain ⟨g, ran⟩ := run_rounds (p := p) (s := start p threads)
    (k := p.functions.length / min threads p.functions.length + 1) rf rfl
    (List.forall_mem_map.mpr fun r member => ⟨rfl, le_of_mem_ranges some_thread member⟩)
  rw [count] at ran
  rw [inTurn, run_append, ran, run_cons (.stop rfl ?_), run_cons (.quit rfl rfl)]
  · rfl
  · simp only [List.forall_mem_map, start]
    exact fun r member => finished_of_turns rfl (range_le member)

end Pool

namespace Program

open Pool

theorem allocate_settled (p : Program) (rf : RegisterFile) (threads : Nat) :
    Settled p rf (p.allocate rf threads).progress := by
  unfold Program.allocate
  split
  · rw [allocateInOrder_eq]
    exact settled_of_perm (.refl _)
  · have some_thread : 0 < threads := by omega
    obtain ⟨n, reaches⟩ := run_reaches p rf (start p threads) (inTurn p.functions.length threads)
    exact (reaches.consistent (start_consistent some_thread)).settled (run_inTurn p rf some_thread)

-- Several threads do what one does. Every interleaving of their moves comes to its end, without a
-- deadlock on the way, and there the functions and the work are those of one thread, and the errors the
-- same ones in some order: one for each function that fails.
theorem parallel_allocation (p : Program) (rf : RegisterFile) {threads : Nat} (several : 2 ≤ threads) :
    ((ranges p.functions.length threads).length = min threads p.functions.length ∧
      (∀ r ∈ ranges p.functions.length threads, r.1 < r.2) ∧
      (ranges p.functions.length threads).flatMap indices = List.range p.functions.length) ∧
    (∀ n s, Reaches p rf (start p threads) n s →
      n ≤ 8 * p.functions.length + 2 ∧
      (s.listener ≠ .stopped → ∃ move next, step p rf s move = some next) ∧
      (s.listener = .stopped →
        s.progress.functions = (p.allocate rf 1).progress.functions ∧
        s.progress.stats = (p.allocate rf 1).progress.stats ∧
        s.progress.errors.combined.Perm (p.allocate rf 1).progress.errors.combined ∧
        (s.progress.errors.combined = [] ↔ ∀ f ∈ p.functions, (f.allocate rf).result.isOk = true))) ∧
    (∃ n s, Reaches p rf (start p threads) n s ∧ s.listener = .stopped ∧
      (p.allocate rf threads).progress = s.progress) ∧
    (p.allocate rf 1).progress.functions = p.functions.map (fun f => (f.allocate rf).result.toOption) ∧
    (p.allocate rf 1).progress.errors.combined = p.functions.filterMap fun f => (f.allocate rf).error? := by
  have some_thread : 0 < threads := Nat.lt_of_lt_of_le Nat.two_pos several
  have one := p.allocate_settled rf 1
  have inOrder : (p.allocate rf 1).progress.errors.combined =
      p.functions.filterMap fun f => (f.allocate rf).error? := by
    rw [Program.allocate, if_pos Nat.one_lt_two, allocateInOrder_eq, Progress.errors_performAll,
      errors_allEffects]
    rfl
  refine ⟨ranges_partition _ some_thread, fun n s reaches => ⟨?_, fun listening => ?_, fun ended => ?_⟩, ?_,
    one.functions, inOrder⟩
  · have bound := reaches.work_le
    rw [start_work some_thread] at bound
    exact Nat.le_trans (Nat.le_add_right _ _) bound
  · obtain ⟨move, next, moved⟩ := (reaches.consistent (start_consistent some_thread)).progresses listening
    exact ⟨move, next, step_complete moved⟩
  · have settled := (reaches.consistent (start_consistent some_thread)).settled ended
    refine ⟨settled.functions.trans one.functions.symm, settled.stats.trans one.stats.symm,
      settled.errors.trans one.errors.symm, settled.errors_eq_nil⟩
  · obtain ⟨n, reaches⟩ := run_reaches p rf (start p threads) (inTurn p.functions.length threads)
    refine ⟨n, _, reaches, run_inTurn p rf some_thread, ?_⟩
    rw [Program.allocate, if_neg (Nat.not_lt.mpr several)]

def halfDefined : Program where
  entry := "@f"
  functions := [Allocation.acrossCall,
    { name := "@g", args := 0, body := [.goto ":away"],
      table := { convention := some (.draft Allocation.threeRegisters) } }]

theorem parallel_allocation_halfDefined :
    ∃ n s, Reaches halfDefined (.draft Allocation.threeRegisters) (start halfDefined 2) n s ∧ n ≤ 18 ∧
      s.listener = .stopped ∧ s.progress.functions.map Option.isSome = [true, false] ∧
      s.progress.stats.spills = 1 ∧ s.progress.errors.combined.length = 1 := by
  obtain ⟨-, every, ⟨n, s, reaches, ended, -⟩, -⟩ :=
    parallel_allocation halfDefined (.draft Allocation.threeRegisters) (Nat.le_refl 2)
  obtain ⟨bound, -, done⟩ := every n s reaches
  obtain ⟨functions, stats, errors, -⟩ := done ended
  refine ⟨n, s, reaches, bound, ended, ?_, ?_, ?_⟩
  · rw [functions]
    decide +kernel
  · rw [stats]
    decide +kernel
  · rw [errors.length_eq]
    decide +kernel

end Program

end RegisterAllocation
