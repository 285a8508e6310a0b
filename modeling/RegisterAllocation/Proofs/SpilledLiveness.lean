import RegisterAllocation.Proofs.ExpandedLiveness
import RegisterAllocation.Proofs.InterferenceGraph

namespace RegisterAllocation

open Spill

namespace Expanded

def lastPlace (f : Function) (sp : VarId) (vs : List VarId) (tmp : Nat → VarId → VarId) (i : Nat) : Nat :=
  place f sp vs tmp (i + 1) - 1

section Edges

variable {f g : Function} {sp : VarId} {vs : List VarId} {tmp : Nat → VarId → VarId} {i j o : Nat}
  {inst other : Instruction}

theorem lastPlace_eq (here : f.body[i]? = some inst) : lastPlace f sp vs tmp i =
    place f sp vs tmp i +
      ((readHomes (f.homes vs) inst).length + (stores sp (f.homes vs) (tmp i) inst).length) := by
  rw [lastPlace, place_succ here, group_length]
  omega

variable (expanded : Expanded f sp vs tmp g)

include expanded

theorem place_lt_body (inside : j < f.body.length) : place f sp vs tmp j < g.body.length := by
  have there := List.getElem?_eq_getElem inside
  obtain ⟨first, found⟩ : ∃ first, (group sp (f.homes vs) (tmp j) f.body[j])[0]? = some first := by
    refine ⟨_, List.getElem?_eq_getElem ?_⟩
    rw [group_length]
    omega
  exact (List.getElem?_eq_some_iff.mp (expanded.getElem?_place there found)).1

theorem edge_within (here : f.body[i]? = some inst)
    (more : o + 1 < (group sp (f.homes vs) (tmp i) inst).length) :
    Flow.Edge g.body (place f sp vs tmp i + o) (place f sp vs tmp i + (o + 1)) := by
  have found := List.getElem?_eq_getElem (Nat.lt_of_succ_lt more)
  have next := expanded.getElem?_place here (List.getElem?_eq_getElem more)
  refine ⟨_, expanded.getElem?_place here found, .inl ⟨rfl, (List.getElem?_eq_some_iff.mp next).1, ?_⟩⟩
  rcases group_getElem? found with ⟨v, offset, -, load⟩ | ⟨main, same⟩ | ⟨-, v, offset, -, -, store⟩
  · rw [load]
    rfl
  · -- Something follows the instruction itself, so that it writes to a variable.
    rw [same, Instruction.isTerminal_rename]
    rcases stores_cases sp (f.homes vs) (tmp i) inst with ⟨v, offset, written, -, -⟩ | ⟨-, none⟩
    · exact (Instruction.flows_of_destination written).1
    · rw [group_length, none] at more
      simp [main] at more
  · rw [store]
    rfl

theorem edge_out (distinct : (Flow.labels f.body).Nodup) (edge : Flow.Edge f.body i j) :
    Flow.Edge g.body (lastPlace f sp vs tmp i) (place f sp vs tmp j) := by
  obtain ⟨inst, here, next⟩ := id edge
  rw [lastPlace_eq here]
  have step : ∀ inst', f.body[i]? = some inst' → place f sp vs tmp (i + 1) = place f sp vs tmp i +
      ((readHomes (f.homes vs) inst').length + (stores sp (f.homes vs) (tmp i) inst').length) + 1 := by
    intro inst' there
    rw [place_succ there, group_length]
    omega
  rcases stores_cases sp (f.homes vs) (tmp i) inst with ⟨v, offset, written, home, single⟩ | ⟨-, none⟩
  · have flows := Instruction.flows_of_destination written
    rcases next with ⟨rfl, inside, -⟩ | ⟨target, branch, -⟩
    · rw [step inst here, single]
      refine ⟨_, expanded.getElem?_place here (group_store written home), .inl ⟨rfl, ?_, rfl⟩⟩
      have bound := expanded.place_lt_body inside
      rwa [step inst here, single] at bound
    · rw [flows.2.1] at branch
      cases branch
  · rw [none, List.length_nil, Nat.add_zero]
    refine ⟨_, expanded.getElem?_place here group_main, ?_⟩
    rcases next with ⟨rfl, inside, goesOn⟩ | ⟨target, branch, index⟩
    · have bound := expanded.place_lt_body inside
      rw [step inst here, none] at bound ⊢
      exact .inl ⟨rfl, bound, (Instruction.isTerminal_rename _ inst).trans goesOn⟩
    · exact .inr ⟨target, (Instruction.target?_rename _ inst).trans branch,
        (expanded.labelIndex?_place distinct).mpr ⟨j, index, rfl⟩⟩

end Edges

section Liveness

variable {rf : RegisterFile} {s₀ s : Sheet} {lv₀ lv : Liveness} {sp v x y : VarId} {vs : List VarId}
  {tmp : Nat → VarId → VarId} {i o p : Nat} {inst other : Instruction}
  (accepted : rf.Accepted) (analyzed₀ : s₀.Analyzed rf lv₀)
  (expanded : Expanded s₀.function sp vs tmp s.function)
  (pointer : sp < s₀.function.table.size ∧ s₀.function.table.nameOf sp = rf.sp)
  (analyzed : s.Analyzed rf lv)

include expanded in
theorem temp_ne (home : v ∈ vs) (touched : Touches s₀.function.body v i)
    (known : x < s₀.function.table.size) : x ≠ tmp i v := by
  intro same
  exact absurd known (Nat.not_lt.mpr (same ▸ (expanded.fresh i v home touched).1))

include analyzed₀ expanded in
theorem uses_of_main (here : s₀.function.body[i]? = some inst) (used : inst.Uses rf s₀.function.table x)
    (stays : x ∉ vs) :
    (inst.rename (moved (s₀.function.homes vs) (tmp i))).Uses rf s.function.table x := by
  rcases used with ⟨reading, apart⟩ | ⟨known, named⟩
  · have known := (analyzed₀.valid.resolvable inst (List.mem_of_getElem? here)).operands x
      (Instruction.reads_subset_operands inst reading)
    refine .inl ⟨?_, by rwa [expanded.grown.nameOf known]⟩
    rw [Instruction.reads_rename, Instruction.var_mem_map_rename]
    exact ⟨x, reading, Function.moved_of_not_mem stays (tmp i)⟩
  · refine .inr ⟨Nat.lt_of_lt_of_le known expanded.grown.size_le, ?_⟩
    rwa [expanded.grown.nameOf known, Instruction.implicitReads_rename]

include accepted analyzed₀ expanded analyzed in
theorem live_before_loads (here : s₀.function.body[i]? = some inst) (known : x < s₀.function.table.size)
    (few : o ≤ (readHomes (s₀.function.homes vs) inst).length)
    (live : x ∈ lv.liveIn (place s₀.function sp vs tmp i + o)) :
    x ∈ lv.liveIn (place s₀.function sp vs tmp i) := by
  induction o with
  | zero => exact live
  | succ o ih =>
    apply ih (Nat.le_of_succ_le few)
    have more : o + 1 < (group sp (s₀.function.homes vs) (tmp i) inst).length := by
      rw [group_length]
      omega
    have found := List.getElem?_eq_getElem (Nat.lt_of_succ_lt more)
    have out := analyzed.live_of_edge (expanded.edge_within here more) live
    refine analyzed.live_of_kept (expanded.getElem?_place here found) out fun defined => ?_
    rcases defines_cases accepted analyzed₀ expanded here found defined with
      ⟨w, home, operand, same⟩ | ⟨main, -, -⟩
    · exact temp_ne expanded home ⟨inst, here, operand⟩ known same
    · omega

include expanded analyzed in
theorem live_before_store (here : s₀.function.body[i]? = some inst)
    (out : x ∈ lv.liveOut (lastPlace s₀.function sp vs tmp i)) :
    x ∈ lv.liveOut (place s₀.function sp vs tmp i + (readHomes (s₀.function.homes vs) inst).length) := by
  rw [lastPlace_eq here] at out
  rcases stores_cases sp (s₀.function.homes vs) (tmp i) inst with ⟨v, offset, written, home, single⟩ | ⟨-, none⟩
  · rw [single] at out
    have more : (readHomes (s₀.function.homes vs) inst).length + 1 <
        (group sp (s₀.function.homes vs) (tmp i) inst).length := by
      rw [group_length, single]
      simp
    apply analyzed.live_of_edge (expanded.edge_within here more)
    refine analyzed.live_of_kept (expanded.getElem?_place here (group_store written home)) out fun defined => ?_
    rcases defined with ⟨written', -⟩ | ⟨-, implied⟩
    · cases written'
    · simp [Instruction.implicitWrites] at implied
  · rwa [none] at out

include accepted analyzed₀ expanded pointer analyzed

theorem liveIn_of_place (inside : i < s₀.function.body.length)
    (live : x ∈ lv.liveIn (place s₀.function sp vs tmp i)) : x ∈ lv₀.liveIn i ∧ x ∉ vs := by
  have bound := (live_bound accepted analyzed₀ expanded pointer analyzed).1 _ x live
  have start : Before lv₀ s₀.function vs tmp i s₀.function.body[i] 0 x := by
    refine AtPlace.at (List.getElem?_eq_getElem inside) ?_ bound
    rw [group_length]
    omega
  rw [Before, if_pos (Nat.zero_le _), List.take_zero] at start
  exact start.resolve_right (by simp)

theorem liveOut_of_main (here : s₀.function.body[i]? = some inst)
    (out : x ∈ lv.liveOut (place s₀.function sp vs tmp i + (readHomes (s₀.function.homes vs) inst).length)) :
    (x ∈ lv₀.liveOut i ∧ x ∉ vs) ∨ ∃ v ∈ vs, inst.destination? = some (.var v) ∧ x = tmp i v := by
  have bound := (live_bound accepted analyzed₀ expanded pointer analyzed).2 _ x out
  have after : After lv₀ s₀.function vs tmp i inst (readHomes (s₀.function.homes vs) inst).length x := by
    refine AtPlace.at here ?_ bound
    rw [group_length]
    omega
  rwa [After, if_pos (Nat.le_refl _), Before, if_neg (by omega)] at after

theorem liveOut_of_lastPlace (inside : i < s₀.function.body.length)
    (out : x ∈ lv.liveOut (lastPlace s₀.function sp vs tmp i)) : x ∈ lv₀.liveOut i ∧ x ∉ vs := by
  have here := List.getElem?_eq_getElem inside
  have bound := (live_bound accepted analyzed₀ expanded pointer analyzed).2 _ x out
  rw [lastPlace_eq here] at bound
  have after := AtPlace.at here (by rw [group_length]; omega) bound
  rcases stores_cases sp (s₀.function.homes vs) (tmp i) s₀.function.body[i] with
    ⟨v, offset, -, -, single⟩ | ⟨plain, none⟩
  · rwa [single, After, if_neg (by simp)] at after
  · rw [none, After, if_pos (by simp), Before, if_neg (by simp)] at after
    refine after.resolve_right ?_
    intro h
    obtain ⟨v, home, written, -⟩ := h
    obtain ⟨offset, found⟩ := Option.isSome_iff_exists.mp
      ((Function.lookup_homes (f := s₀.function)).mpr home)
    rw [plain v written] at found
    cases found

theorem place_of_live :
    (∀ i, ∀ x ∈ lv₀.liveIn i, x ∈ vs ∨ x ∈ lv.liveIn (place s₀.function sp vs tmp i)) ∧
      ∀ i, ∀ x ∈ lv₀.liveOut i, x ∈ vs ∨ x ∈ lv.liveOut (lastPlace s₀.function sp vs tmp i) := by
  -- Liveness of the original is the least solution of its equations, and what is live around the
  -- groups solves them, once the variables moved out are taken as live everywhere.
  refine analyzed₀.live.least (fun i x => x ∈ vs ∨ x ∈ lv.liveIn (place s₀.function sp vs tmp i))
    (fun i x => x ∈ vs ∨ x ∈ lv.liveOut (lastPlace s₀.function sp vs tmp i))
    ⟨fun i note noted x used => ?_, fun i note noted x out kept => ?_, fun i note noted j next x live => ?_⟩
  · obtain ⟨inst, here, described⟩ := analyzed₀.inst_of_note noted
    have uses := (described.used x).mp used
    by_cases listed : x ∈ vs
    · exact .inl listed
    · have known := uses.lt_size (analyzed₀.valid.resolvable inst (List.mem_of_getElem? here))
      refine .inr (live_before_loads accepted analyzed₀ expanded analyzed here known (Nat.le_refl _) ?_)
      exact analyzed.live_of_uses (expanded.getElem?_place here group_main)
        (uses_of_main analyzed₀ expanded here uses listed)
  · obtain ⟨inst, here, described⟩ := analyzed₀.inst_of_note noted
    rcases out with listed | out
    · exact .inl listed
    · obtain ⟨out₀, -⟩ := liveOut_of_lastPlace accepted analyzed₀ expanded pointer analyzed
        (List.getElem?_eq_some_iff.mp here).1 out
      have known := analyzed₀.referenced_lt_size (analyzed₀.live_referenced.2 i x out₀)
      refine .inr (live_before_loads accepted analyzed₀ expanded analyzed here known (Nat.le_refl _) ?_)
      refine analyzed.live_of_kept (expanded.getElem?_place here group_main)
        (live_before_store expanded analyzed here out) fun defined => ?_
      rcases defines_cases accepted analyzed₀ expanded here group_main defined with
        ⟨w, home, operand, same⟩ | ⟨-, defined₀, -⟩
      · exact temp_ne expanded home ⟨inst, here, operand⟩ known same
      · exact kept ((described.defined x).mpr defined₀)
  · rcases live with listed | live
    · exact .inl listed
    · have edge := (analyzed₀.links i note noted j).mp next
      exact .inr (analyzed.live_of_edge (expanded.edge_out analyzed₀.valid.labels edge) live)

theorem liveIn_place (inside : i < s₀.function.body.length) :
    x ∈ lv.liveIn (place s₀.function sp vs tmp i) ↔ x ∈ lv₀.liveIn i ∧ x ∉ vs := by
  constructor
  · exact liveIn_of_place accepted analyzed₀ expanded pointer analyzed inside
  · intro h
    obtain ⟨live, stays⟩ := h
    exact ((place_of_live accepted analyzed₀ expanded pointer analyzed).1 i x live).resolve_left stays

theorem liveOut_lastPlace (inside : i < s₀.function.body.length) :
    x ∈ lv.liveOut (lastPlace s₀.function sp vs tmp i) ↔ x ∈ lv₀.liveOut i ∧ x ∉ vs := by
  constructor
  · exact liveOut_of_lastPlace accepted analyzed₀ expanded pointer analyzed inside
  · intro h
    obtain ⟨out, stays⟩ := h
    exact ((place_of_live accepted analyzed₀ expanded pointer analyzed).2 i x out).resolve_left stays

omit accepted pointer analyzed in
theorem temp_not_live (home : v ∈ vs) (touched : Touches s₀.function.body v i) (k : Nat) :
    tmp i v ∉ lv₀.liveIn k ∧ tmp i v ∉ lv₀.liveOut k := by
  constructor
  · intro live
    exact temp_ne expanded home touched
      (analyzed₀.referenced_lt_size (analyzed₀.live_referenced.1 k _ live)) rfl
  · intro out
    exact temp_ne expanded home touched
      (analyzed₀.referenced_lt_size (analyzed₀.live_referenced.2 k _ out)) rfl

-- A temporary is live between the load or the write that gives it its value and the instruction or the
-- store that reads it, and nowhere else.
theorem temp_liveIn (home : v ∈ vs) (touched : Touches s₀.function.body v i) (live : tmp i v ∈ lv.liveIn p) :
    place s₀.function sp vs tmp i < p ∧ p ≤ lastPlace s₀.function sp vs tmp i := by
  obtain ⟨j, inst, o, here, within, rfl, before⟩ :=
    (live_bound accepted analyzed₀ expanded pointer analyzed).1 p _ live
  obtain ⟨noIn, noOut⟩ := temp_not_live analyzed₀ expanded home touched j
  suffices own : j = i ∧ 0 < o by
    obtain ⟨rfl, some_load⟩ := own
    rw [lastPlace_eq here]
    rw [group_length] at within
    omega
  unfold Before at before
  split at before
  · rcases before with ⟨old, -⟩ | ⟨⟨w, offset⟩, member, same⟩
    · exact absurd old noIn
    · obtain ⟨known, reading⟩ := mem_readHomes.mp (List.mem_of_mem_take member)
      have operand := Instruction.reads_subset_operands inst reading
      refine ⟨(expanded.injective _ _ v home w (Function.mem_of_home known) touched ⟨inst, here, operand⟩
        same).1.symm, ?_⟩
      cases o with
      | zero => cases member
      | succ o => exact Nat.succ_pos o
  · rcases before with ⟨old, -⟩ | ⟨w, home', written, same⟩
    · exact absurd old noOut
    · have operand := Instruction.destination?_mem_operands written
      refine ⟨(expanded.injective _ _ v home w home' touched ⟨inst, here, operand⟩ same).1.symm, ?_⟩
      omega

theorem temp_liveOut (home : v ∈ vs) (touched : Touches s₀.function.body v i) (out : tmp i v ∈ lv.liveOut p) :
    place s₀.function sp vs tmp i ≤ p ∧ p < lastPlace s₀.function sp vs tmp i := by
  obtain ⟨j, inst, o, here, within, rfl, after⟩ :=
    (live_bound accepted analyzed₀ expanded pointer analyzed).2 p _ out
  obtain ⟨noIn, noOut⟩ := temp_not_live analyzed₀ expanded home touched j
  suffices own : j = i ∧ o < (readHomes (s₀.function.homes vs) inst).length +
      (stores sp (s₀.function.homes vs) (tmp j) inst).length by
    obtain ⟨rfl, early⟩ := own
    rw [lastPlace_eq here]
    omega
  unfold After at after
  split at after
  · unfold Before at after
    split at after
    · rcases after with ⟨old, -⟩ | ⟨⟨w, offset⟩, member, same⟩
      · exact absurd old noIn
      · obtain ⟨known, reading⟩ := mem_readHomes.mp (List.mem_of_mem_take member)
        have operand := Instruction.reads_subset_operands inst reading
        refine ⟨(expanded.injective _ _ v home w (Function.mem_of_home known) touched ⟨inst, here, operand⟩
          same).1.symm, ?_⟩
        omega
    · rcases after with ⟨old, -⟩ | ⟨w, home', written, same⟩
      · exact absurd old noOut
      · have operand := Instruction.destination?_mem_operands written
        obtain ⟨offset, found⟩ := Option.isSome_iff_exists.mp
          ((Function.lookup_homes (f := s₀.function)).mpr home')
        refine ⟨(expanded.injective _ _ v home w home' touched ⟨inst, here, operand⟩ same).1.symm, ?_⟩
        rw [stores_of_home written found, List.length_singleton]
        omega
  · exact absurd after.1 noOut

theorem moved_not_live (listed : v ∈ vs) : v ∉ lv.liveIn p ∧ v ∉ lv.liveOut p := by
  obtain ⟨known, -⟩ := expanded.originals v listed
  obtain ⟨boundIn, boundOut⟩ := live_bound accepted analyzed₀ expanded pointer analyzed
  constructor
  · intro live
    obtain ⟨j, inst, o, here, -, -, before⟩ := boundIn p v live
    rcases before_cases before with ⟨-, stays⟩ | ⟨w, home, operand, same⟩
    · exact stays listed
    · exact temp_ne expanded home ⟨inst, here, operand⟩ known same
  · intro out
    obtain ⟨j, inst, o, here, -, -, after⟩ := boundOut p v out
    rcases after_cases after with ⟨-, stays⟩ | ⟨w, home, operand, same⟩
    · exact stays listed
    · exact temp_ne expanded home ⟨inst, here, operand⟩ known same

theorem referenced_cases (referenced : x ∈ s.referenced) :
    (x ∈ s₀.referenced ∧ x ∉ vs) ∨ ∃ i, ∃ v ∈ vs, Touches s₀.function.body v i ∧ x = tmp i v := by
  obtain ⟨other, member, touched⟩ := analyzed.referenced_iff.mp referenced
  obtain ⟨p, there⟩ := List.mem_iff_getElem?.mp member
  obtain ⟨i, o, inst, here, found, rfl⟩ := expanded.exists_place there
  rcases touched with used | defined
  · have before : Before lv₀ s₀.function vs tmp i inst o x :=
      before_of_uses accepted analyzed₀ expanded pointer here found used
    rcases before_cases before with ⟨live, stays⟩ | ⟨w, home, operand, same⟩
    · exact .inl ⟨live.elim (analyzed₀.live_referenced.1 i x) (analyzed₀.live_referenced.2 i x), stays⟩
    · exact .inr ⟨i, w, home, ⟨inst, here, operand⟩, same⟩
  · rcases defines_cases accepted analyzed₀ expanded here found defined with
      ⟨w, home, operand, same⟩ | ⟨-, defined₀, stays⟩
    · exact .inr ⟨i, w, home, ⟨inst, here, operand⟩, same⟩
    · exact .inl ⟨analyzed₀.referenced_iff.mpr ⟨inst, List.mem_of_getElem? here, .inr defined₀⟩, stays⟩

omit accepted pointer in
theorem referenced_stays (referenced : x ∈ s₀.referenced) (stays : x ∉ vs) : x ∈ s.referenced := by
  obtain ⟨inst, member, touched⟩ := analyzed₀.referenced_iff.mp referenced
  obtain ⟨i, here⟩ := List.mem_iff_getElem?.mp member
  refine analyzed.referenced_iff.mpr
    ⟨_, List.mem_of_getElem? (expanded.getElem?_place here group_main), ?_⟩
  exact touched.imp (uses_of_main analyzed₀ expanded here · stays)
    (defines_main analyzed₀ expanded here · stays)

theorem outlived_stays (left : x < s₀.function.table.size) (right : y < s₀.function.table.size) :
    Graph.Outlived rf s lv x y ↔ Graph.Outlived rf s₀ lv₀ x y ∧ x ∉ vs ∧ y ∉ vs := by
  constructor
  · intro h
    obtain ⟨p, other, there, defined, out⟩ := h
    obtain ⟨i, o, inst, here, found, rfl⟩ := expanded.exists_place there
    rcases defines_cases accepted analyzed₀ expanded here found defined with
      ⟨w, home, operand, same⟩ | ⟨rfl, defined₀, stays⟩
    · exact absurd same (temp_ne expanded home ⟨inst, here, operand⟩ left)
    · rcases liveOut_of_main accepted analyzed₀ expanded pointer analyzed here out with
        ⟨out₀, alsoStays⟩ | ⟨w, home, written, same⟩
      · exact ⟨⟨i, inst, here, defined₀, out₀⟩, stays, alsoStays⟩
      · have operand := Instruction.destination?_mem_operands written
        exact absurd same (temp_ne expanded home ⟨inst, here, operand⟩ right)
  · intro h
    obtain ⟨⟨i, inst, here, defined₀, out₀⟩, stays, alsoStays⟩ := h
    refine ⟨_, _, expanded.getElem?_place here group_main,
      defines_main analyzed₀ expanded here defined₀ stays, ?_⟩
    have out := (liveOut_lastPlace accepted analyzed₀ expanded pointer analyzed
      (List.getElem?_eq_some_iff.mp here).1).mpr ⟨out₀, alsoStays⟩
    exact live_before_store expanded analyzed here out

theorem conflict_stays (left : x < s₀.function.table.size) (right : y < s₀.function.table.size) :
    Graph.Conflict s lv x y ↔ Graph.Conflict s₀ lv₀ x y ∧ x ∉ vs ∧ y ∉ vs := by
  rw [Graph.conflict_iff_outlived analyzed, Graph.conflict_iff_outlived analyzed₀,
    outlived_stays accepted analyzed₀ expanded pointer analyzed left right,
    outlived_stays accepted analyzed₀ expanded pointer analyzed right left]
  tauto

end Liveness

end Expanded

end RegisterAllocation
