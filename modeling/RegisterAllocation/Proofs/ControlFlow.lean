import Mathlib.Data.List.Nodup
import RegisterAllocation.Analysis.Flow

namespace RegisterAllocation

def Instruction.label? : Instruction → Option String
  | .label symbol => some symbol
  | _ => none

theorem Instruction.label?_eq_some_iff {inst : Instruction} {symbol : String} :
    inst.label? = some symbol ↔ inst = .label symbol := by
  cases inst <;> simp [label?]

namespace Flow

variable {body rest : List Instruction} {inst : Instruction} {symbol target : String} {i j : Nat}

def labels (body : List Instruction) : List String := body.filterMap Instruction.label?

-- Control may pass from index `i` to index `j`: to the next instruction, or to the label that is
-- branched to.
def Edge (body : List Instruction) (i j : Nat) : Prop :=
  ∃ inst, body[i]? = some inst ∧
    ((j = i + 1 ∧ i + 1 < body.length ∧ inst.isTerminal = false) ∨
      ∃ target, inst.target? = some target ∧ labelIndex? target body = some j)

theorem labels_cons (inst : Instruction) (rest : List Instruction) :
    labels (inst :: rest) = inst.label?.toList ++ labels rest := by
  cases head : inst.label? <;> simp [labels, head]

theorem mem_labels : symbol ∈ labels body ↔ .label symbol ∈ body := by
  simp [labels, List.mem_filterMap, Instruction.label?_eq_some_iff]

theorem labelIndex?_getElem? (found : labelIndex? symbol body = some i) :
    body[i]? = some (.label symbol) := by
  induction body generalizing i with
  | nil => cases found
  | cons inst rest ih =>
    unfold labelIndex? at found
    cases later : labelIndex? symbol rest with
    | some k =>
      simp only [later, Option.some.injEq] at found
      subst found
      exact ih later
    | none =>
      simp only [later] at found
      split at found
      · rename_i hit
        cases found
        simp [hit]
      · cases found

theorem labelIndex?_isSome (member : .label symbol ∈ body) : ∃ i, labelIndex? symbol body = some i := by
  induction body with
  | nil => cases member
  | cons inst rest ih =>
    unfold labelIndex?
    cases later : labelIndex? symbol rest with
    | some k => exact ⟨k + 1, rfl⟩
    | none =>
      rcases List.mem_cons.mp member with hit | tail
      · exact ⟨0, by simp [hit]⟩
      · obtain ⟨k, found⟩ := ih tail
        rw [later] at found
        cases found

theorem label_index_unique (distinct : (labels body).Nodup) (first : body[i]? = some (.label symbol))
    (second : body[j]? = some (.label symbol)) : i = j := by
  induction body generalizing i j with
  | nil => simp at first
  | cons inst rest ih =>
    rw [labels_cons] at distinct
    have tail : (labels rest).Nodup := distinct.of_append_right
    -- A label at the head does not come again in the tail.
    have apart : ∀ k : Nat, inst = .label symbol → rest[k]? ≠ some (.label symbol) := by
      intro k head again
      subst head
      have member : symbol ∈ labels rest := mem_labels.mpr (List.mem_of_getElem? again)
      exact List.disjoint_of_nodup_append distinct (by simp [Instruction.label?]) member
    cases i with
    | zero =>
      cases j with
      | zero => rfl
      | succ j => exact absurd second (apart j (by simpa using first))
    | succ i =>
      cases j with
      | zero => exact absurd first (apart i (by simpa using second))
      | succ j => rw [ih tail first second]

theorem labelIndex?_eq_some_iff (distinct : (labels body).Nodup) :
    labelIndex? symbol body = some i ↔ body[i]? = some (.label symbol) := by
  refine ⟨labelIndex?_getElem?, fun present => ?_⟩
  obtain ⟨k, found⟩ := labelIndex?_isSome (List.mem_of_getElem? present)
  rw [found, label_index_unique distinct (labelIndex?_getElem? found) present]

theorem Edge.lt_length (edge : Edge body i j) :
    j < body.length := by
  obtain ⟨inst, -, ⟨rfl, inside, -⟩ | ⟨target, -, found⟩⟩ := edge
  · exact inside
  · exact (List.getElem?_eq_some_iff.mp (labelIndex?_getElem? found)).1

-- The links told from the whole body at once: the successors of each instruction by themselves, and
-- the predecessors as the instructions that have it among their successors.
def fallthrough (count i : Nat) (inst : Instruction) : List Nat :=
  if inst.isTerminal || count ≤ i + 1 then [] else [i + 1]

def addTarget (succ : List Nat) (target : Nat) : List Nat :=
  if succ.contains target then succ else succ ++ [target]

def successors (body : List Instruction) (i : Nat) (inst : Instruction) :
    List Nat × Option String :=
  let fall := fallthrough body.length i inst
  match inst.target? with
  | none => (fall, none)
  | some target =>
    match labelIndex? target body with
    | some place => (addTarget fall place, none)
    | none => (fall, some target)

def scan (body : List Instruction) : Nat → List Instruction → List (List Nat) × Option (Nat × String)
  | _, [] => ([], none)
  | i, inst :: rest =>
    match successors body i inst with
    | (succ, some target) => (succ :: rest.map fun _ => [], some (i, target))
    | (succ, none) =>
      let (more, missing) := scan body (i + 1) rest
      (succ :: more, missing)

def predecessors (succs : List (List Nat)) (i : Nat) : List Nat :=
  (succs.zipIdx.filter fun entry => entry.1.contains i).map Prod.snd

def ofSuccessors (succs : List (List Nat)) : List Links :=
  succs.zipIdx.map fun (succ, i) => { pred := predecessors succs i, succ := succ }

theorem mem_fallthrough {count : Nat} :
    j ∈ fallthrough count i inst ↔ j = i + 1 ∧ i + 1 < count ∧ inst.isTerminal = false := by
  unfold fallthrough
  split
  · rename_i stop
    simp only [Bool.or_eq_true, decide_eq_true_eq] at stop
    simp only [List.not_mem_nil, false_iff, not_and]
    intro _ inside
    rcases stop with terminal | last
    · simp [terminal]
    · omega
  · rename_i go
    simp only [Bool.or_eq_true, decide_eq_true_eq, not_or, Bool.not_eq_true, Nat.not_le] at go
    simp [go.1, go.2]

theorem mem_addTarget {succ : List Nat} {place : Nat} :
    j ∈ addTarget succ place ↔ j ∈ succ ∨ j = place := by
  unfold addTarget
  split
  · rename_i known
    simp only [List.contains_iff_mem] at known
    exact ⟨.inl, by rintro (old | rfl) <;> assumption⟩
  · simp

theorem mem_successors :
    j ∈ (successors body i inst).1 ↔
      (j = i + 1 ∧ i + 1 < body.length ∧ inst.isTerminal = false) ∨
        ∃ target, inst.target? = some target ∧ labelIndex? target body = some j := by
  unfold successors
  cases branch : inst.target? with
  | none => simp [mem_fallthrough]
  | some target =>
    cases place : labelIndex? target body with
    | none => simp [place, mem_fallthrough]
    | some k => simp [place, mem_addTarget, mem_fallthrough, @eq_comm _ k j]

theorem successors_defined_iff : (successors body i inst).2 = none ↔
    ∀ target, inst.target? = some target → .label target ∈ body := by
  unfold successors
  cases branch : inst.target? with
  | none => simp
  | some target =>
    cases place : labelIndex? target body with
    | some k =>
      have present := List.mem_of_getElem? (labelIndex?_getElem? place)
      simpa [place] using present
    | none =>
      have absent : .label target ∉ body := by
        intro member
        obtain ⟨k, found⟩ := labelIndex?_isSome member
        rw [place] at found
        cases found
      simpa [place] using absent

theorem scan_defined
    (defined : ∀ inst ∈ rest, ∀ target, inst.target? = some target → .label target ∈ body) (i : Nat) :
    scan body i rest = ((rest.zipIdx i).map fun entry => (successors body entry.2 entry.1).1, none) := by
  induction rest generalizing i with
  | nil => rfl
  | cons inst rest ih =>
    have here := (successors_defined_iff (i := i)).mpr (defined inst List.mem_cons_self)
    have later := ih (fun other member => defined other (List.mem_cons_of_mem _ member)) (i + 1)
    unfold scan
    cases links : successors body i inst with
    | mk succ missing =>
      rw [links] at here
      simp only at here
      simp [here, later, links]

theorem defined_of_scan (ended : (scan body i rest).2 = none) :
    ∀ inst ∈ rest, ∀ target, inst.target? = some target → .label target ∈ body := by
  induction rest generalizing i with
  | nil => simp
  | cons inst rest ih =>
    unfold scan at ended
    cases links : successors body i inst with
    | mk succ missing =>
      cases missing with
      | some target => simp [links] at ended
      | none =>
        simp only [links] at ended
        have here := successors_defined_iff.mp (congrArg Prod.snd links)
        intro other member
        rcases List.mem_cons.mp member with rfl | later
        · exact here
        · exact ih ended other later

theorem ofSuccessors_getElem? {succs : List (List Nat)} :
    (ofSuccessors succs)[i]? = succs[i]?.map fun succ =>
      { pred := predecessors succs i, succ := succ } := by
  simp only [ofSuccessors, List.getElem?_map, List.getElem?_zipIdx, Option.map_map]
  cases succs[i]? <;> simp

-- Instructions whose edges are still to be drawn are at no end of an edge.
theorem filter_blank (n k j : Nat) :
    ((List.replicate n ([] : List Nat)).zipIdx k).filter (fun entry => entry.1.contains j) = [] := by
  refine List.filter_eq_nil_iff.mpr fun entry member => ?_
  have empty := List.eq_of_mem_replicate (List.fst_mem_of_mem_zipIdx member)
  simp [empty]

theorem predecessors_underway (done : List (List Nat)) (row : List Nat) (n j : Nat) :
    predecessors (done ++ row :: List.replicate n []) j =
      predecessors done j ++ if row.contains j then [done.length] else [] := by
  simp only [predecessors, List.zipIdx_append, List.zipIdx_cons, Nat.zero_add, List.filter_append,
    List.map_append, List.filter_cons, filter_blank]
  split <;> simp

theorem predecessors_drawn {row : List Nat} {target : Nat} (new : target ∉ row)
    (done : List (List Nat)) (n j : Nat) :
    predecessors (done ++ (row ++ [target]) :: List.replicate n []) j =
      predecessors (done ++ row :: List.replicate n []) j ++ if target = j then [done.length] else [] := by
  rw [predecessors_underway, predecessors_underway]
  by_cases here : target = j
  · subst here
    simp_all
  · simp [here, Ne.symm here]

theorem link_ofSuccessors (done : List (List Nat)) (row : List Nat) (n target : Nat) :
    link (ofSuccessors (done ++ row :: List.replicate n [])) done.length target =
      ofSuccessors (done ++ addTarget row target :: List.replicate n []) := by
  have drawn : ((ofSuccessors (done ++ row :: List.replicate n [])).getD done.length {}).succ = row := by
    simp [List.getD_eq_getElem?_getD, ofSuccessors_getElem?]
  unfold link addTarget
  rw [drawn]
  split
  · rfl
  · rename_i new
    have rows : done ++ (row ++ [target]) :: List.replicate n [] =
        (done ++ row :: List.replicate n []).modify done.length (· ++ [target]) := by
      simp [List.modify_eq_set_getElem?]
    refine List.ext_getElem? fun j => ?_
    rw [ofSuccessors_getElem?, predecessors_drawn (by simpa using new), rows]
    simp only [List.getElem?_modify, ofSuccessors_getElem?]
    cases (done ++ row :: List.replicate n [])[j]? with
    | none => rfl
    | some succ => by_cases own : done.length = j <;> by_cases here : target = j <;> simp [own, here]

theorem linkNext_ofSuccessors (count : Nat) (inst : Instruction) (done : List (List Nat)) (n : Nat) :
    linkNext count done.length inst (ofSuccessors (done ++ [] :: List.replicate n [])) =
      ofSuccessors (done ++ fallthrough count done.length inst :: List.replicate n []) := by
  unfold linkNext fallthrough
  split
  · rfl
  · exact link_ofSuccessors done [] n (done.length + 1)

theorem linkFrom_eq (body rest : List Instruction) (done : List (List Nat)) :
    linkFrom body done.length rest (ofSuccessors (done ++ List.replicate rest.length [])) =
      (ofSuccessors (done ++ (scan body done.length rest).1), (scan body done.length rest).2) := by
  -- The rows of the instructions passed by are done, and all those behind are blank, so that the
  -- scan only ever adds to the end of a list of predecessors.
  induction rest generalizing done with
  | nil => rfl
  | cons inst rest ih =>
    unfold linkFrom scan successors
    simp only [List.length_cons, List.replicate_succ, linkNext_ofSuccessors]
    cases branch : inst.target? with
    | none =>
      have later := ih (done ++ [fallthrough body.length done.length inst])
      simpa using later
    | some target =>
      cases found : labelIndex? target body with
      | none => simp [found]
      | some place =>
        have later := ih (done ++ [addTarget (fallthrough body.length done.length inst) place])
        simpa [found, link_ofSuccessors] using later

theorem ofSuccessors_replicate (n : Nat) : ofSuccessors (List.replicate n []) = List.replicate n {} := by
  refine List.ext_getElem? fun i => ?_
  rw [ofSuccessors_getElem?, List.getElem?_replicate, List.getElem?_replicate]
  split
  · simp only [predecessors, filter_blank, List.map_nil, Option.map_some]
  · rfl

end Flow

-- Drawing every edge at both of its ends while the body is scanned comes to the same as reading the
-- predecessors off the finished successors.
theorem Function.flow_eq (f : Function) :
    f.flow = (Flow.ofSuccessors (Flow.scan f.body 0 f.body).1, (Flow.scan f.body 0 f.body).2) := by
  rw [flow, ← Flow.ofSuccessors_replicate]
  exact Flow.linkFrom_eq f.body f.body []

theorem Function.defined_of_flow {f : Function} (ended : f.flow.2 = none) :
    ∀ inst ∈ f.body, ∀ target, inst.target? = some target → .label target ∈ f.body := by
  rw [flow_eq] at ended
  exact Flow.defined_of_scan ended

theorem Function.flow_edges {f : Function}
    (defined : ∀ inst ∈ f.body, ∀ target, inst.target? = some target → .label target ∈ f.body) :
    ∃ links, f.flow = (links, none) ∧ links.length = f.body.length ∧
      ∀ i l, links[i]? = some l → ∀ j, j ∈ l.succ ↔ Flow.Edge f.body i j := by
  refine ⟨_, by rw [flow_eq, Flow.scan_defined defined], by simp [Flow.ofSuccessors], ?_⟩
  intro i l found j
  simp only [Flow.ofSuccessors_getElem?, List.getElem?_map, List.getElem?_zipIdx, Option.map_map,
    Option.map_eq_some_iff] at found
  obtain ⟨inst, present, rfl⟩ := found
  simp only [Function.comp_apply, Nat.zero_add, Flow.mem_successors]
  constructor
  · intro edge
    exact ⟨inst, present, edge⟩
  · intro h
    obtain ⟨other, same, edge⟩ := h
    cases Option.some.inj (present.symm.trans same)
    exact edge

end RegisterAllocation
