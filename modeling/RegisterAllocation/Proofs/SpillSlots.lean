import RegisterAllocation.Proofs.Derivations
import RegisterAllocation.Proofs.Groups
import RegisterAllocation.Proofs.Progress
import RegisterAllocation.Proofs.RoundTrip

namespace RegisterAllocation

variable {f g : Function} {slots : List Word} {w : Word} {j : Nat}

-- The slots of a derived function are words of its frame: apart from one another, above the locals of the
-- function they were made for, and at the offsets that the words of a frame have.
structure SlotsInFrame (f : Function) (slots : List Word) (g : Function) : Prop where
  exact : ∀ (j : Nat) (offset : Word), slots[j]? = some offset → offset.toInt = 8 * (f.locals.toInt + j)
  nonneg : ∀ offset ∈ slots, 0 ≤ offset.toInt
  above : ∀ offset ∈ slots, 8 * f.locals.toInt ≤ offset.toInt
  inside : ∀ offset ∈ slots, offset.toInt + 8 ≤ 8 * g.locals.toInt
  apart : slots.Pairwise fun first second => first.toInt + 8 ≤ second.toInt

-- All that one function has gained over another are reads and writes at an offset from the stack pointer.
-- The instructions it had have at most a temporary in place of a variable.
def Accesses (f : Function) (v : VarId) (offset : Word) (g : Function) : Prop :=
  ∃ sp rf, f.convention = some rf ∧ g.table.nameOf sp = rf.sp ∧ ∀ inst ∈ g.body,
    (∃ old ∈ f.body, ∃ tmp, inst = old.rename fun x => if x = v then tmp else x) ∨
      ∃ tmp, inst = .load (.var tmp) (.var sp) offset ∨ inst = .store (.var sp) offset (.var tmp)

namespace Word

theorem toInt_add_ofNat (low : 0 ≤ w.toInt) (high : w.toInt + j < 2 ^ 63) :
    (w + Int64.ofNat j).toInt = w.toInt + j := by
  have small : j < 2 ^ 63 := by omega
  rw [Int64.toInt_add, Int64.toInt_ofNat_of_lt small]
  exact Int.bmod_eq_of_le (by omega) (by omega)

theorem toInt_mul_bytes (low : 0 ≤ w.toInt) (high : w.toInt < 2 ^ 60) :
    (w * Word.bytes).toInt = 8 * w.toInt := by
  have eight : Word.bytes.toInt = 8 := rfl
  rw [Int64.toInt_mul, eight, Int.bmod_eq_of_le (by omega) (by omega)]
  omega

end Word

namespace Spill

variable {v : VarId} {slot : Slot} {inst : Instruction}

theorem check_ok {v : Variable} {sp : String} (checked : check f v = .ok sp) :
    ∃ rf, f.convention = some rf ∧ rf.sp = sp := by
  unfold check at checked
  split at checked
  · cases checked
  · split at checked
    · cases checked
    · split at checked
      · cases checked
      · rename_i rf convention
        split at checked
        · cases checked
        · exact ⟨rf, convention, Except.ok.inj checked⟩

theorem check_virtual {var : Variable} {sp : String} (checked : check f var = .ok sp) :
    var.isRegister = false := by
  unfold check at checked
  split at checked
  · cases checked
  · rename_i virtual
    simpa using virtual

theorem mem_around {tmp : VarId} {reads writes : Bool} {old : Instruction}
    (member : inst ∈ around v tmp slot old reads writes) :
    inst = (old.rename fun x => if x = v then tmp else x) ∨
      inst = .load (.var tmp) (.var slot.sp) slot.offset ∨
      inst = .store (.var slot.sp) slot.offset (.var tmp) := by
  cases reads <;> cases writes <;> simp [around] at member <;> tauto

theorem mem_moveOut {t : VarTable} {names : NameSequence} {pairs : List (Instruction × UseDef)}
    (member : inst ∈ (moveOut v slot t names pairs).body) :
    (∃ pair ∈ pairs, ∃ tmp, inst = pair.1.rename fun x => if x = v then tmp else x) ∨
      ∃ tmp, inst = .load (.var tmp) (.var slot.sp) slot.offset ∨
        inst = .store (.var slot.sp) slot.offset (.var tmp) := by
  induction pairs generalizing t names with
  | nil => cases member
  | cons pair rest ih =>
    have later : ∀ {t names}, inst ∈ (moveOut v slot t names rest).body →
        (∃ other ∈ pair :: rest, ∃ tmp, inst = other.1.rename fun x => if x = v then tmp else x) ∨
          ∃ tmp, inst = .load (.var tmp) (.var slot.sp) slot.offset ∨
            inst = .store (.var slot.sp) slot.offset (.var tmp) := by
      intro t names there
      refine (ih there).imp_left ?_
      intro h
      obtain ⟨other, inside, renamed⟩ := h
      exact ⟨other, List.mem_cons_of_mem _ inside, renamed⟩
    unfold moveOut at member
    dsimp only at member
    split at member
    · rcases List.mem_cons.mp member with rfl | there
      · refine .inl ⟨pair, List.mem_cons_self, v, (Instruction.rename_id fun x _ => ?_).symm⟩
        split
        · exact ‹x = v›.symm
        · rfl
      · exact later there
    · rcases List.mem_append.mp member with here | there
      · rcases mem_around here with renamed | access
        · exact .inl ⟨pair, List.mem_cons_self, _, renamed⟩
        · exact .inr ⟨_, access⟩
      · exact later there

end Spill

theorem Sheet.spill_accesses {s : Sheet} {id : Int} {names : NameSequence} {m : Spilled}
    (done : (s.spill id names).2.2 = .ok m) : Accesses s.function id.toNat s.function.allocSlot.1 m.function := by
  obtain ⟨v, sp, checked, rfl⟩ := spill_ok done
  obtain ⟨rf, convention, rfl⟩ := Spill.check_ok checked
  let pointer := s.resolve.1.function.table.intern rf.sp
  refine ⟨pointer.1, rf, convention, ?_, fun inst member => ?_⟩
  · rw [Spill.move_table, (VarTable.internAll_extends _ _).nameOf (VarTable.intern_lt_size _ _)]
    exact VarTable.nameOf_intern _ _
  · refine (Spill.mem_moveOut member).imp_left ?_
    intro h
    obtain ⟨pair, inside, renamed⟩ := h
    exact ⟨pair.1, (List.of_mem_zip inside).1, renamed⟩

namespace Derived

theorem locals_eq (derived : Derived f slots g) : g.locals = f.locals + Int64.ofNat slots.length := by
  induction derived with
  | self => simp
  | @analyzed slots s _ ih =>
    rcases s.analyze_function with same | same
    · rw [same, ih]
    · rw [same]
      exact ih
  | built lv rf _ ih => exact ih
  | @spilled slots s id names m _ done ih =>
    obtain ⟨v, sp, -, rfl⟩ := Sheet.spill_ok done
    have next : (Spill.move s.resolve.1 id.toNat v.name sp names).1.function.locals =
        s.function.locals + 1 := rfl
    rw [next, ih, List.length_append, List.length_singleton, Int64.ofNat_add, Int64.add_assoc]
    rfl
  | assigned rf attempt _ ih => exact ih

theorem slots_eq (derived : Derived f slots g) {offset : Word} (here : slots[j]? = some offset) :
    offset = (f.locals + Int64.ofNat j) * Word.bytes := by
  induction derived with
  | self => cases here
  | analyzed _ ih => exact ih here
  | built lv rf _ ih => exact ih here
  | @spilled slots s id names m derived done ih =>
    rw [List.getElem?_append] at here
    split at here
    · exact ih here
    · obtain ⟨inside, rfl⟩ := List.getElem?_eq_some_iff.mp here
      obtain rfl : j = slots.length := by
        rw [List.length_singleton] at inside
        omega
      simp [Function.allocSlot, Function.slotOffset, derived.locals_eq]
  | assigned rf attempt _ ih => exact ih here

theorem slotsInFrame (derived : Derived f slots g) (low : 0 ≤ f.locals.toInt)
    (high : f.locals.toInt + slots.length ≤ 2 ^ 60) : SlotsInFrame f slots g := by
  have exact : ∀ (j : Nat) (offset : Word), slots[j]? = some offset →
      offset.toInt = 8 * (f.locals.toInt + j) := by
    intro j offset here
    obtain ⟨inside, -⟩ := List.getElem?_eq_some_iff.mp here
    have sum : (f.locals + Int64.ofNat j).toInt = f.locals.toInt + j := Word.toInt_add_ofNat low (by omega)
    rw [derived.slots_eq here, Word.toInt_mul_bytes (by omega) (by omega), sum]
  have size : g.locals.toInt = f.locals.toInt + slots.length := by
    rw [derived.locals_eq, Word.toInt_add_ofNat low (by omega)]
  have place : ∀ offset ∈ slots, ∃ j < slots.length, offset.toInt = 8 * (f.locals.toInt + j) := by
    intro offset member
    obtain ⟨j, here⟩ := List.mem_iff_getElem?.mp member
    exact ⟨j, (List.getElem?_eq_some_iff.mp here).1, exact j offset here⟩
  refine ⟨exact, fun offset member => ?_, fun offset member => ?_, fun offset member => ?_, ?_⟩
  · obtain ⟨j, -, value⟩ := place offset member
    omega
  · obtain ⟨j, -, value⟩ := place offset member
    omega
  · obtain ⟨j, inside, value⟩ := place offset member
    omega
  · rw [List.pairwise_iff_getElem]
    intro i j left right order
    have first := exact i _ (List.getElem?_eq_getElem left)
    have second := exact j _ (List.getElem?_eq_getElem right)
    omega

theorem frame_of_slotsInFrame (frame : SlotsInFrame f slots g) (taken : slots ≠ []) :
    0 ≤ f.locals.toInt ∧ f.locals.toInt + slots.length ≤ 2 ^ 60 := by
  -- The first slot shows that the locals are not negative, the last one that there are not too many.
  have positive : 0 < slots.length := List.length_pos_iff.mpr taken
  have inside : slots.length - 1 < slots.length := Nat.sub_one_lt_of_lt positive
  have first := frame.exact 0 _ (List.getElem?_eq_getElem positive)
  have last := frame.exact (slots.length - 1) _ (List.getElem?_eq_getElem inside)
  have nonneg := frame.nonneg _ (List.getElem_mem positive)
  have bound := Int64.toInt_lt slots[slots.length - 1]
  omega

end Derived

-- Spills take slots of their own in the frame as long as the locals of a function are not negative
-- and the frame stays below 2 ^ 60 words, and never otherwise. Neither the reader nor a spill
-- checks that.
theorem spill_slots_exact (f : Function) :
    (∀ slots g, Derived f slots g → (SlotsInFrame f slots g ↔
      slots = [] ∨ 0 ≤ f.locals.toInt ∧ f.locals.toInt + slots.length ≤ 2 ^ 60)) ∧
    (∀ slots (s : Sheet) (id : Int) names m, Derived f slots s.function → (s.spill id names).2.2 = .ok m →
      ∃ offset, Derived f (slots ++ [offset]) m.function ∧ Accesses s.function id.toNat offset m.function) ∧
    ∀ (s : Sheet) rf g, s.function = f → (s.allocate rf).2.result = .ok g →
      ∃ slots, Derived f slots g ∧ slots.length = (s.allocate rf).2.stats.spills := by
  refine ⟨fun slots g derived => ⟨fun frame => ?_, ?_⟩, fun slots s id names m derived done => ?_, ?_⟩
  · by_cases none : slots = []
    · exact .inl none
    · exact .inr (Derived.frame_of_slotsInFrame frame none)
  · rintro (rfl | ⟨low, high⟩)
    · exact ⟨by simp, by simp, by simp, by simp, .nil⟩
    · exact derived.slotsInFrame low high
  · exact ⟨_, derived.spilled done, Sheet.spill_accesses done⟩
  · rintro s rf g rfl allocated
    exact Sheet.allocate_derived allocated

theorem spill_slots_exact_acrossCall : ∃ m slots g,
    ((Sheet.ofFunction Allocation.acrossCall).spill 0 { stem := "%s" }).2.2 = .ok m ∧
      (∃ offset, Accesses Allocation.acrossCall 0 offset m.function) ∧
      Derived Allocation.acrossCall slots g ∧ slots.length = 1 ∧
      SlotsInFrame Allocation.acrossCall slots g := by
  obtain ⟨frame, byHand, allocation⟩ := spill_slots_exact Allocation.acrossCall
  have spilled : ((Sheet.ofFunction Allocation.acrossCall).spill 0 { stem := "%s" }).2.2.isOk = true := by
    decide +kernel
  obtain ⟨m, done⟩ := exists_of_isOk spilled
  obtain ⟨g, result⟩ := Allocation.acrossCall_allocates
  obtain ⟨offset, -, accesses⟩ := byHand [] (.ofFunction Allocation.acrossCall) 0 _ m .self done
  obtain ⟨slots, derived, count⟩ := allocation (.ofFunction Allocation.acrossCall) _ g rfl result
  have one : slots.length = 1 := count.trans Allocation.acrossCall_spills
  refine ⟨m, slots, g, done, ⟨offset, accesses⟩, derived, one, (frame slots g derived).mpr (.inr ?_)⟩
  rw [one]
  decide

def belowFrame : Program where
  entry := "@f"
  functions := [{
    name := "@f"
    args := 1
    locals := -1
    table := (VarTable.internAll { convention := some (.draft .x8664) } ["%a", "rdi", "rax"]).2
    body := [.assign (.var 0) (.var 1), .assign (.var 2) (.var 0), .ret] }]

theorem spill_slots_outside_frame : ¬∀ text p, Interchange.decode text (some (.draft .x8664)) = .ok p →
    ∀ f ∈ p.functions, ∀ slots g, Derived f slots g → SlotsInFrame f slots g := by
  intro framed
  have listed : ∀ f ∈ belowFrame.functions, ∀ inst ∈ f.body, inst.Listed := by
    simp [belowFrame, Instruction.Listed]
  have decoded : Interchange.decode (Interchange.encode belowFrame) (some (.draft .x8664)) =
      .ok (belowFrame.reread (some (.draft .x8664))) :=
    Interchange.decode_encode listed (by decide +kernel)
  -- The only slot is one word below the stack pointer.
  have spilled : ∀ f ∈ (belowFrame.reread (some (.draft .x8664))).functions,
      ((Sheet.ofFunction f).spill 0 { stem := "%s" }).2.2.isOk = true ∧ f.allocSlot.1.toInt = -8 := by
    decide +kernel
  obtain ⟨f, member⟩ : ∃ f, f ∈ (belowFrame.reread (some (.draft .x8664))).functions :=
    ⟨_, List.mem_cons_self⟩
  obtain ⟨ok, offset⟩ := spilled f member
  obtain ⟨m, done⟩ := exists_of_isOk ok
  have frame := framed _ _ decoded f member _ _ (Derived.spilled .self done)
  have nonneg : 0 ≤ f.allocSlot.1.toInt := frame.nonneg _ List.mem_cons_self
  omega

end RegisterAllocation
