import RegisterAllocation.Analysis.LinkView
import RegisterAllocation.Proofs.ControlFlow

namespace RegisterAllocation

namespace Instruction

variable {inst : Instruction} {target : String}

def Stops (inst : Instruction) : Prop :=
  inst = .ret ∨ (∃ target, inst = .goto target) ∨ (∃ arity, inst = .runtimeCall "tuple-error" arity) ∨
    ∃ arity, inst = .runtimeCall "tensor-error" arity

def BranchesTo (inst : Instruction) (target : String) : Prop :=
  inst = .goto target ∨ ∃ rel left right, inst = .cjump rel left right target

theorem isTerminal_iff : inst.isTerminal = true ↔ inst.Stops := by
  cases inst with
  | runtimeCall function arity => simp [isTerminal, Stops, RuntimeFunction.isTrap]
  | _ => simp [isTerminal, Stops]

theorem target?_eq_some_iff : inst.target? = some target ↔ inst.BranchesTo target := by
  cases inst <;> simp [target?, BranchesTo]

end Instruction

namespace Flow

variable {body : List Instruction} {inst : Instruction} {succs : List (List Nat)} {i j : Nat}

theorem edge_iff (distinct : (labels body).Nodup) : Edge body i j ↔
    (j = i + 1 ∧ j < body.length ∧ ∃ inst, body[i]? = some inst ∧ ¬inst.Stops) ∨
      ∃ inst target, body[i]? = some inst ∧ inst.BranchesTo target ∧ body[j]? = some (.label target) := by
  unfold Edge
  simp only [labelIndex?_eq_some_iff distinct, Instruction.target?_eq_some_iff, ← Instruction.isTerminal_iff,
    Bool.not_eq_true]
  constructor
  · intro h
    obtain ⟨inst, here, ⟨rfl, inside, goes⟩ | ⟨target, branch, label⟩⟩ := h
    · exact .inl ⟨rfl, inside, inst, here, goes⟩
    · exact .inr ⟨inst, target, here, branch, label⟩
  · intro either
    rcases either with ⟨rfl, inside, inst, here, goes⟩ | ⟨inst, target, here, branch, label⟩
    · exact ⟨inst, here, .inl ⟨rfl, inside, goes⟩⟩
    · exact ⟨inst, here, .inr ⟨target, branch, label⟩⟩

theorem nodup_addTarget {succ : List Nat} (once : succ.Nodup) (place : Nat) : (addTarget succ place).Nodup := by
  unfold addTarget
  split
  · exact once
  · rename_i new
    refine once.append (List.nodup_singleton place) ?_
    simpa using new

theorem nodup_successors (body : List Instruction) (i : Nat) (inst : Instruction) :
    (successors body i inst).1.Nodup := by
  have fall : (fallthrough body.length i inst).Nodup := by
    unfold fallthrough
    split <;> simp
  unfold successors
  cases inst.target? with
  | none => exact fall
  | some target =>
    cases place : labelIndex? target body with
    | none => simpa [place] using fall
    | some k => simpa [place] using nodup_addTarget fall k

theorem length_scan (body rest : List Instruction) (i : Nat) : (scan body i rest).1.length = rest.length := by
  induction rest generalizing i with
  | nil => rfl
  | cons inst rest ih =>
    unfold scan
    cases successors body i inst with
    | mk succ missing => cases missing <;> simp [ih]

theorem nodup_scan (body rest : List Instruction) (i : Nat) : ∀ succ ∈ (scan body i rest).1, succ.Nodup := by
  induction rest generalizing i with
  | nil => simp [scan]
  | cons inst rest ih =>
    have here := nodup_successors body i inst
    unfold scan
    cases links : successors body i inst with
    | mk succ missing =>
      rw [links] at here
      cases missing with
      | some target =>
        intro other member
        simp only [List.mem_cons, List.mem_map] at member
        rcases member with rfl | ⟨_, _, rfl⟩
        · exact here
        · exact List.nodup_nil
      | none =>
        intro other member
        rcases List.mem_cons.mp member with rfl | later
        · exact here
        · exact ih (i + 1) other later

theorem mem_predecessors : i ∈ predecessors succs j ↔ ∃ succ, succs[i]? = some succ ∧ j ∈ succ := by
  simp only [predecessors, List.mem_map, List.mem_filter, List.contains_iff_mem]
  constructor
  · intro h
    obtain ⟨⟨succ, place⟩, ⟨member, edge⟩, rfl⟩ := h
    exact ⟨succ, List.mem_zipIdx_iff_getElem?.mp member, edge⟩
  · intro h
    obtain ⟨succ, here, edge⟩ := h
    exact ⟨(succ, i), ⟨List.mem_zipIdx_iff_getElem?.mpr here, edge⟩, rfl⟩

theorem sorted_predecessors (succs : List (List Nat)) (j : Nat) : (predecessors succs j).Pairwise (· < ·) := by
  have indices : (succs.zipIdx.map Prod.snd).Pairwise (· < ·) := by
    rw [List.zipIdx_map_snd]
    exact List.pairwise_lt_range'
  exact indices.sublist (List.filter_sublist.map Prod.snd)

end Flow

namespace Function

variable {f : Function} {i j : Nat}

theorem flow_fst (f : Function) : f.flow.1 = Flow.ofSuccessors (Flow.scan f.body 0 f.body).1 := by
  rw [flow_eq]

theorem flow_length (f : Function) : f.flow.1.length = f.body.length := by
  rw [flow_fst, Flow.ofSuccessors, List.length_map, List.length_zipIdx, Flow.length_scan]

theorem flow_defined_iff : f.flow.2 = none ↔
    ∀ inst ∈ f.body, ∀ target, inst.target? = some target → .label target ∈ f.body := by
  refine ⟨defined_of_flow, fun defined => ?_⟩
  obtain ⟨links, flow, -⟩ := flow_edges defined
  rw [flow]

theorem mem_succ_iff (ended : f.flow.2 = none) : j ∈ (f.flow.1.getD i {}).succ ↔ Flow.Edge f.body i j := by
  obtain ⟨links, flow, count, edges⟩ := flow_edges (defined_of_flow ended)
  rw [flow, List.getD_eq_getElem?_getD]
  cases found : links[i]? with
  | some l => exact edges i l found j
  | none =>
    have beyond : f.body[i]? = none := by
      rw [List.getElem?_eq_none_iff] at found ⊢
      omega
    simp [Flow.Edge, beyond]

theorem mem_pred_iff (ended : f.flow.2 = none) :
    i ∈ (f.flow.1.getD j {}).pred ↔ j ∈ (f.flow.1.getD i {}).succ := by
  -- Both lists tell of the same edges, as every edge leads to a place that has a list.
  have succ : j ∈ (f.flow.1.getD i {}).succ ↔ i ∈ Flow.predecessors (Flow.scan f.body 0 f.body).1 j := by
    rw [Flow.mem_predecessors, flow_fst, List.getD_eq_getElem?_getD, Flow.ofSuccessors_getElem?]
    cases (Flow.scan f.body 0 f.body).1[i]? <;> simp
  by_cases inside : j < f.body.length
  · have here := List.getElem?_eq_getElem (Nat.lt_of_lt_of_eq inside (Flow.length_scan f.body f.body 0).symm)
    rw [succ, flow_fst, List.getD_eq_getElem?_getD, Flow.ofSuccessors_getElem?, here]
    rfl
  · have beyond : f.flow.1[j]? = none := by
      rw [List.getElem?_eq_none_iff, flow_length]
      exact Nat.le_of_not_lt inside
    have unreached : ¬Flow.Edge f.body i j := fun edge => inside edge.lt_length
    rw [mem_succ_iff ended, List.getD_eq_getElem?_getD, beyond]
    simpa using unreached

theorem succ_nodup (f : Function) (i : Nat) : (f.flow.1.getD i {}).succ.Nodup := by
  rw [flow_fst, List.getD_eq_getElem?_getD, Flow.ofSuccessors_getElem?]
  cases found : (Flow.scan f.body 0 f.body).1[i]? with
  | none => exact List.nodup_nil
  | some succ => exact Flow.nodup_scan _ _ _ succ (List.mem_of_getElem? found)

theorem pred_sorted (f : Function) (j : Nat) : (f.flow.1.getD j {}).pred.Pairwise (· < ·) := by
  rw [flow_fst, List.getD_eq_getElem?_getD, Flow.ofSuccessors_getElem?]
  cases (Flow.scan f.body 0 f.body).1[j]? with
  | none => exact List.Pairwise.nil
  | some succ => exact Flow.sorted_predecessors _ j

end Function

namespace Sheet

variable {s : Sheet}

theorem link_snd (s : Sheet) : s.link.2 = none ↔ s.function.flow.2 = none := by
  rw [link, Option.map_eq_none_iff]

theorem link_links (noted : s.notes.length = s.function.body.length) : s.link.1.links = s.function.flow.1 := by
  refine List.ext_getElem ?_ fun i left right => ?_
  · simp [Sheet.links, link, noted, Function.flow_length]
  · simp [Sheet.links, link]

theorem link_link (s : Sheet) : s.link.1.link = s.link := by
  unfold link
  refine Prod.ext (congrArg (Sheet.mk s.function) ?_) rfl
  refine List.ext_getElem? fun i => ?_
  simp only [List.getElem?_zipWith]
  cases s.notes[i]? <;> cases s.function.flow.1[i]? <;> rfl

-- The links that are written are the edges of the control flow, each of them once at either end.
theorem links_exact (noted : s.notes.length = s.function.body.length)
    (distinct : (Flow.labels s.function.body).Nodup) :
    ((∃ e, s.link.2 = some e) ↔ ∃ inst ∈ s.function.body, ∃ target, inst.BranchesTo target ∧
      .label target ∉ s.function.body) ∧
    (s.link.2 = none →
      (∀ i j, j ∈ (s.link.1.links.getD i {}).succ ↔
        (j = i + 1 ∧ j < s.function.body.length ∧ ∃ inst, s.function.body[i]? = some inst ∧ ¬inst.Stops) ∨
          ∃ inst target, s.function.body[i]? = some inst ∧ inst.BranchesTo target ∧
            s.function.body[j]? = some (.label target)) ∧
      (∀ i j, i ∈ (s.link.1.links.getD j {}).pred ↔ j ∈ (s.link.1.links.getD i {}).succ) ∧
      ∀ i, (s.link.1.links.getD i {}).succ.Nodup ∧ (s.link.1.links.getD i {}).pred.Nodup ∧
        (s.link.1.links.getD i {}).pred.Pairwise (· < ·)) ∧
    s.link.1.link = s.link := by
  refine ⟨?_, fun ended => ?_, link_link s⟩
  · rw [← Option.isSome_iff_exists, ← Option.not_isNone, Bool.not_eq_true', ← Bool.not_eq_true,
      Option.isNone_iff_eq_none, link_snd, Function.flow_defined_iff]
    simp only [Instruction.target?_eq_some_iff, not_forall, exists_prop]
  · have flow := (link_snd s).mp ended
    rw [link_links noted]
    refine ⟨fun i j => ?_, fun i j => Function.mem_pred_iff flow, fun i => ⟨?_, ?_, ?_⟩⟩
    · rw [Function.mem_succ_iff flow, Flow.edge_iff distinct]
    · exact s.function.succ_nodup i
    · exact (s.function.pred_sorted i).imp Nat.ne_of_lt
    · exact s.function.pred_sorted i

-- A branch to the very next instruction and a trap with code after it. Every note still holds links of
-- an earlier body.
def relinked : Sheet where
  function := {
    name := "@f"
    body := [.cjump .less (.num 0) (.num 1) ":next", .label ":next", .runtimeCall "tuple-error" 3,
      .goto ":next", .ret] }
  notes := List.replicate 5 { pred := [4, 4], succ := [0, 9] }

theorem links_exact_relinked : relinked.link.2 = none ∧ 1 ∈ (relinked.link.1.links.getD 0 {}).succ ∧
    (relinked.link.1.links.getD 0 {}).succ.Nodup ∧ 3 ∈ (relinked.link.1.links.getD 1 {}).pred ∧
    3 ∉ (relinked.link.1.links.getD 2 {}).succ ∧ 4 ∉ (relinked.link.1.links.getD 0 {}).pred ∧
    relinked.link.1.link = relinked.link := by
  obtain ⟨-, linked, again⟩ := links_exact (s := relinked) (by decide) (by decide)
  have ended : relinked.link.2 = none := by decide
  obtain ⟨edges, dual, once⟩ := linked ended
  refine ⟨ended, (edges 0 1).mpr (.inr ⟨_, _, rfl, .inr ⟨_, _, _, rfl⟩, rfl⟩), (once 0).1,
    (dual 3 1).mpr ((edges 3 1).mpr (.inr ⟨_, _, rfl, .inl rfl, rfl⟩)), fun passes => ?_, fun back => ?_, again⟩
  · rcases (edges 2 3).mp passes with ⟨-, -, inst, here, goes⟩ | ⟨inst, target, here, branch, label⟩
    · cases here
      exact goes (.inr (.inr (.inl ⟨3, rfl⟩)))
    · cases label
  · rcases (edges 4 0).mp ((dual 4 0).mp back) with ⟨first, -⟩ | ⟨inst, target, here, branch, label⟩
    · cases first
    · cases label

end Sheet

end RegisterAllocation
