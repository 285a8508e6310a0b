import RegisterAllocation.Proofs.Fixpoints
import RegisterAllocation.Proofs.Shape

namespace RegisterAllocation

open Spill

-- The operator and the count of a shift. A shift by a word of memory is never valid.
def Instruction.shift? : Instruction → Option (ArithOp × Operand)
  | .arith op _ src | .storeArith op _ _ src => if op.isShift then some (op, src) else none
  | _ => none

def Function.shifts (f : Function) : List (ArithOp × Operand) := f.body.filterMap Instruction.shift?

def Operand.isCount (t : VarTable) : Operand → Bool
  | .num _ => true
  | .var x => t.isRegister x && t.nameOf x == "rcx"
  | .label _ | .name _ => false

def Operand.isVirtual (t : VarTable) : Operand → Bool
  | .var x => !t.isRegister x
  | .num _ | .label _ | .name _ => false

inductive CountKept (rf : RegisterFile) (t t' : VarTable) : Operand → Operand → Prop where
  | constant {op : Operand} : op.var? = none → CountKept rf t t' op op
  | register {x : VarId} : t.isRegister x = true → t'.isRegister x = true → t'.nameOf x = t.nameOf x →
      CountKept rf t t' (.var x) (.var x)
  | virtual {x y : VarId} : t.isRegister x = false → t'.nameOf y ∈ rf.registers →
      CountKept rf t t' (.var x) (.var y)

def ShiftKept (rf : RegisterFile) (t t' : VarTable) (shift shift' : ArithOp × Operand) : Prop :=
  shift'.1 = shift.1 ∧ CountKept rf t t' shift.2 shift'.2

variable {rf : RegisterFile} {f g : Function} {t t' : VarTable}

theorem CountKept.isCount {op op' : Operand} (kept : CountKept rf t t' op op') (count : op.isCount t = true) :
    op'.isCount t' = true := by
  cases kept with
  | @constant op none =>
    cases op with
    | var x => cases none
    | num _ | label _ | name _ => exact count
  | register before after named => simpa [Operand.isCount, before, after, named] using count
  | virtual before _ => simp [Operand.isCount, before] at count

namespace Instruction

variable {inst : Instruction} {shift : ArithOp × Operand}

theorem shift?_rename (ρ : VarId → VarId) (inst : Instruction) :
    (inst.rename ρ).shift? = inst.shift?.map fun shift => (shift.1, shift.2.rename ρ) := by
  cases inst with
  | arith op dst src => cases op <;> rfl
  | storeArith op base offset src => cases op <;> rfl
  | _ => rfl

theorem shift?_mem_operands (found : inst.shift? = some shift) : shift.2 ∈ inst.operands := by
  cases inst with
  | arith op dst src =>
    simp only [shift?, Option.ite_none_right_eq_some, Option.some.injEq] at found
    obtain ⟨-, rfl⟩ := found
    simp [operands]
  | storeArith op base offset src =>
    simp only [shift?, Option.ite_none_right_eq_some, Option.some.injEq] at found
    obtain ⟨-, rfl⟩ := found
    simp [operands]
  | _ => cases found

end Instruction

theorem Spill.forall₂_shifts {R : ArithOp × Operand → ArithOp × Operand → Prop} {sp : VarId}
    {homes : List (VarId × Word)} (tmp : Nat → VarId → VarId) (ρ : VarId → VarId) {body : List Instruction}
    (kept : ∀ i inst shift, body[i]? = some inst → inst.shift? = some shift →
      R shift (shift.1, shift.2.rename (ρ ∘ moved homes (tmp i)))) :
    List.Forall₂ R (body.filterMap Instruction.shift?)
      (((expand sp homes tmp body).flatten.map (·.rename ρ)).filterMap Instruction.shift?) := by
  -- Loads and stores are no shifts, so that the shifts of an expanded body are those of its main instructions.
  rw [List.filterMap_map]
  induction body generalizing tmp with
  | nil => exact .nil
  | cons inst rest ih =>
    have later := ih (fun i => tmp (i + 1)) fun i inst shift here => kept (i + 1) inst shift here
    rw [expand_cons, List.flatten_cons, List.filterMap_append,
      filterMap_group (fun _ _ _ => rfl) (fun _ _ _ => rfl), Function.comp_apply, Instruction.rename_rename,
      Instruction.shift?_rename]
    cases found : inst.shift? with
    | none =>
      rw [List.filterMap_cons_none found]
      exact later
    | some shift =>
      rw [List.filterMap_cons_some found]
      exact .cons (kept 0 inst shift rfl found) later

theorem Function.shifts_allocated (accepted : rf.Accepted) (valid : f.Valid rf)
    (allocated : (f.allocate rf).result = .ok g) :
    List.Forall₂ (ShiftKept rf f.table g.table) f.shifts g.shifts := by
  obtain ⟨s, lv₀, f', sp, b₀, begun⟩ := Allocation.start_begun accepted valid
  obtain ⟨_, _, vs, tmp, _, lv, b, attempt, -, -, -, last⟩ := Allocation.allocate_last accepted valid begun
  obtain ⟨ρ, registered⟩ := last.registered accepted allocated
  have expanded := last.ready.underway.expanded
  have grown : Allocation.Laid rf { f with table := f'.table } g sp vs
      (fun i => ρ ∘ moved (f'.homes vs) (tmp i)) (Expanded.mainPlace f' sp vs tmp) := by
    rw [← begun.same]
    exact Allocation.laid_of_expanded accepted begun.valid begun.pointer expanded
      last.ready.underway.originals registered
  have laid := grown.ofTable valid begun.grown
  have body : f.body = f'.body := by rw [begun.same]
  rw [shifts, shifts, registered.body, expanded.body, body]
  refine forall₂_shifts tmp ρ fun i inst shift here found => ⟨rfl, ?_⟩
  have operand := Instruction.shift?_mem_operands found
  obtain ⟨op, count⟩ := shift
  rw [← body] at here
  cases count with
  | num _ | label _ | name _ => exact .constant rfl
  | var x =>
    cases register : f.table.isRegister x with
    | false => exact .virtual register (laid.virtual i inst x here operand register)
    | true =>
      have known := VarTable.lt_size_of_isRegister register
      have same : (Operand.var x).rename (ρ ∘ moved (f'.homes vs) (tmp i)) = .var x :=
        congrArg Operand.var (laid.register i x register)
      rw [same]
      exact .register register ((laid.grown.isRegister known).trans register) (laid.grown.nameOf known)

namespace Program

-- The shifts of an allocated program are those of the program, function by function and in their
-- order. Numbers and registers stay what they count by, but a variable may get any register:
-- nothing asks for the one that the machine counts by, so that only a program without variables
-- there is sure to keep legal shifts.
theorem shift_counts_kept {cfg : Config} (configured : RegisterFile.ofConfig cfg = .ok rf) {text : String}
    {p q : Program} (decoded : Interchange.decode text (some rf) = .ok p) {threads : Nat}
    (allocated : (p.allocate rf threads).progress.program? p = some q) :
    List.Forall₂ (fun f g => List.Forall₂ (ShiftKept rf f.table g.table) f.shifts g.shifts)
        p.functions q.functions ∧
      ((∀ f ∈ p.functions, ∀ shift ∈ f.shifts, shift.2.isCount f.table = true) →
        ∀ g ∈ q.functions, ∀ shift ∈ g.shifts, shift.2.isCount g.table = true) := by
  have accepted := RegisterFile.accepted_of_ofConfig configured
  obtain ⟨results, rfl⟩ := (p.allocate_settled rf threads).of_program? allocated
  have kept : ∀ f ∈ p.functions, List.Forall₂ (ShiftKept rf f.table (f.allocated rf).table) f.shifts
      (f.allocated rf).shifts := by
    intro f member
    obtain ⟨sound, convention, clean⟩ := Interchange.decode_valid decoded member
    exact Function.shifts_allocated accepted (Function.valid_of_problems sound convention clean)
      (results f member)
  refine ⟨?_, fun counts => List.forall_mem_map.mpr fun f member shift' made => ?_⟩
  · rw [List.forall₂_map_right_iff, List.forall₂_same]
    exact kept
  · have legal := ((List.forall₂_and_left _ _).mpr ⟨counts f member, kept f member⟩).flip.imp
      fun shift' shift h => And.intro (h.2.2.isCount h.1) h.2
    exact ((List.forall₂_and_left _ _).mp legal).1 shift' made

def shiftBy (count : String) : Program where
  entry := "@f"
  functions := [{
    name := "@f"
    args := 2
    table := (VarTable.internAll { convention := some (.draft .x8664) } [count, "rsi", "rax", "rdi"]).2
    body := [.assign (.var 0) (.var 1), .assign (.var 2) (.var 3), .arith .shiftLeft (.var 2) (.var 0), .ret] }]

theorem shiftBy_decoded (count : String)
    (clean : ((shiftBy count).reread (some (.draft .x8664))).problems = []) :
    Interchange.decode (Interchange.encode (shiftBy count)) (some (.draft .x8664)) =
      .ok ((shiftBy count).reread (some (.draft .x8664))) := by
  refine Interchange.decode_encode (fun f member inst inside => ?_) clean
  cases List.mem_singleton.mp member
  revert inst
  simp [Instruction.Listed, ArithOp.all]

theorem shift_counts_kept_rcx : ∃ p q,
    Interchange.decode (Interchange.encode (shiftBy "rcx")) (some (.draft .x8664)) = .ok p ∧
      (p.allocate (.draft .x8664) 1).progress.program? p = some q ∧
      ∀ g ∈ q.functions, ∀ shift ∈ g.shifts, shift.2.isCount g.table = true := by
  have decoded := shiftBy_decoded "rcx" (by decide +kernel)
  have computed : (((shiftBy "rcx").reread (some (.draft .x8664))).allocate (.draft .x8664) 1).progress.program?
        ((shiftBy "rcx").reread (some (.draft .x8664))) |>.isSome := by decide +kernel
  obtain ⟨q, allocated⟩ := Option.isSome_iff_exists.mp computed
  obtain ⟨-, legal⟩ := shift_counts_kept RegisterFile.x8664_configured decoded allocated
  exact ⟨_, q, decoded, allocated, legal (by decide +kernel)⟩

theorem shift_count_elsewhere : ¬∀ text p q threads,
    Interchange.decode text (some (.draft .x8664)) = .ok p →
      (∀ f ∈ p.functions, ∀ shift ∈ f.shifts,
        shift.2.isCount f.table = true ∨ shift.2.isVirtual f.table = true) →
      (p.allocate (.draft .x8664) threads).progress.program? p = some q →
      ∀ g ∈ q.functions, ∀ shift ∈ g.shifts, shift.2.isCount g.table = true := by
  intro legal
  have decoded := shiftBy_decoded "%c" (by decide +kernel)
  have allowed : ∀ f ∈ ((shiftBy "%c").reread (some (.draft .x8664))).functions, ∀ shift ∈ f.shifts,
      shift.2.isCount f.table = true ∨ shift.2.isVirtual f.table = true := by decide +kernel
  have computed : ((((shiftBy "%c").reread (some (.draft .x8664))).allocate (.draft .x8664) 1).progress.program?
        ((shiftBy "%c").reread (some (.draft .x8664)))).any (fun q => q.functions.any fun g =>
          g.shifts.any fun shift => !shift.2.isCount g.table) = true := by decide +kernel
  obtain ⟨q, allocated, elsewhere⟩ := (Option.any_eq_true _ _).mp computed
  obtain ⟨g, member, elsewhere⟩ := List.any_eq_true.mp elsewhere
  obtain ⟨shift, inside, elsewhere⟩ := List.any_eq_true.mp elsewhere
  have count := legal _ _ q 1 decoded allowed allocated g member shift inside
  rw [count] at elsewhere
  cases elsewhere

end Program

end RegisterAllocation
