import Mathlib.Logic.Function.Basic
import Mathlib.Logic.Function.Iterate
import RegisterAllocation.Proofs.ValidFunctions

namespace RegisterAllocation

namespace Machine

inductive Callee where
  | code (address : Word)
  | runtime (function : String)

def Callee.isTrap : Callee → Bool
  | .code _ => false
  | .runtime function => RuntimeFunction.isTrap function

-- A call as the code that is called sees it: the argument registers it may read, the stack pointer,
-- and the memory but for the slots of its caller.
structure Call where
  callee : Callee
  arity : Word
  args : List Word
  pointer : Word
  memory : Word → Word

structure Answer where
  registers : String → Word
  memory : Word → Word

-- What a function runs against: the words that labels and function names stand for, the arguments on
-- the stack, the arithmetic beyond the listed operators, and the code that is called.
structure World where
  label : String → Word
  function : String → Word
  stackArg : Word → Word
  unlisted : Nat → Word → Word → Word
  answer : Call → Answer

def World.arith (W : World) : ArithOp → Word → Word → Word
  | .add, a, b => a + b
  | .sub, a, b => a - b
  | .mul, a, b => a * b
  | .bitAnd, a, b => a &&& b
  | .shiftLeft, a, b => a <<< b
  | .shiftRight, a, b => a >>> b
  | .other n, a, b => W.unlisted n a b

inductive Ending where
  | returned | trapped | ranOut
  deriving DecidableEq, Repr

inductive Status where
  | running (pc : Nat)
  | ended (how : Ending)
  deriving DecidableEq, Repr

def Status.map (place : Nat → Nat) : Status → Status
  | .running pc => .running (place pc)
  | .ended how => .ended how

def Status.ending? : Status → Option Ending
  | .running _ => none
  | .ended how => some how

-- A state of the machine: every variable and register has a word and so has every address. The calls
-- made so far are kept, oldest first.
structure State where
  status : Status := .running 0
  vars : String → Word
  memory : Word → Word
  calls : List Call := []

inductive Action where
  | write (value : Word)
  | store (address value : Word)
  | jump (target : Option String)
  | call (callee : Callee) (arity : Word)
  | ret

def State.value (s : State) (W : World) (t : VarTable) : Operand → Word
  | .var x => s.vars (t.nameOf x)
  | .num value => value
  | .label symbol => W.label symbol
  | .name symbol => W.function symbol

end Machine

namespace Instruction

open Machine

variable {inst : Instruction} {v v' : Operand → Word} {memory memory' : Word → Word} {W : World}

def address? (v : Operand → Word) : Instruction → Option Word
  | .load _ base offset | .store base offset _ | .loadArith _ _ base offset
  | .storeArith _ base offset _ => some (v base + offset)
  | _ => none

def action (W : World) (memory : Word → Word) (v : Operand → Word) : Instruction → Action
  | .ret => .ret
  | .assign _ src => .write (v src)
  | .load _ base offset => .write (memory (v base + offset))
  | .store base offset src => .store (v base + offset) (v src)
  | .arith op dst src => .write (W.arith op (v dst) (v src))
  | .loadArith op dst base offset => .write (W.arith op (v dst) (memory (v base + offset)))
  | .storeArith op base offset src =>
    .store (v base + offset) (W.arith op (memory (v base + offset)) (v src))
  | .compare rel _ left right => .write (if rel.holds (v left) (v right) then 1 else 0)
  | .cjump rel left right target => .jump (if rel.holds (v left) (v right) then some target else none)
  | .label _ => .jump none
  | .goto target => .jump (some target)
  | .call callee arity => .call (.code (v callee)) arity
  | .runtimeCall function arity => .call (.runtime function) arity
  | .increment dst => .write (v dst + 1)
  | .decrement dst => .write (v dst - 1)
  | .lea _ base index scale => .write (v base + v index * scale)
  | .stackArg _ offset => .write (W.stackArg offset)

theorem action_congr (same : ∀ op ∈ inst.reads, v' op = v op)
    (agree : ∀ a, inst.address? v = some a → memory' a = memory a) :
    inst.action W memory' v' = inst.action W memory v := by
  cases inst <;> simp_all [action, reads, address?]

theorem action_rename (ρ : VarId → VarId) (same : ∀ op ∈ inst.reads, v' (op.rename ρ) = v op)
    (agree : ∀ a, inst.address? v = some a → memory' a = memory a) :
    (inst.rename ρ).action W memory' v' = inst.action W memory v := by
  have moved : (inst.rename ρ).action W memory' v' = inst.action W memory' fun op => v' (op.rename ρ) := by
    cases inst <;> rfl
  rw [moved, action_congr same agree]

theorem address?_congr (same : ∀ op ∈ inst.reads, v' op = v op) : inst.address? v' = inst.address? v := by
  cases inst <;> simp_all [address?, reads]

theorem action_write (W : World) (memory : Word → Word) (v : Operand → Word) :
    (∃ w, inst.action W memory v = .write w) ↔ inst.destination?.isSome := by
  cases inst <;> simp [action, destination?]

theorem not_defines_of_action {rf : RegisterFile} {t : VarTable} {x : VarId} {act : Action}
    (does : inst.action W memory v = act) (noWrite : ∀ w, act ≠ .write w)
    (noCall : ∀ callee arity, act ≠ .call callee arity) : ¬inst.Defines rf t x := by
  subst does
  cases inst <;> simp_all [action, Defines, destination?, implicitWrites]

theorem eq_ret_of_action (returns : inst.action W memory v = .ret) : inst = .ret := by
  cases inst <;> simp_all [action]

theorem arity?_of_action {callee : Callee} {arity : Word}
    (calls : inst.action W memory v = .call callee arity) : inst.arity? = some arity := by
  cases inst <;> simp_all [action, arity?]

theorem address?_of_store {a w : Word} (stored : inst.action W memory v = .store a w) :
    inst.address? v = some a := by
  cases inst <;> simp_all [action, address?]

end Instruction

namespace Machine

def Action.follows : Action → Option (Option String)
  | .write _ | .store .. => some none
  | .jump target => some target
  | .call callee _ => if callee.isTrap then none else some none
  | .ret => none

def Action.ending : Action → Ending
  | .ret => .returned
  | _ => .trapped

def Action.status (jump : Option String → Nat) (act : Action) : Status :=
  match act.follows with
  | some target => .running (jump target)
  | none => .ended act.ending

theorem Action.eq_ret_of_status {jump : Option String → Nat} {act : Action}
    (returns : act.status jump = .ended .returned) : act = .ret := by
  unfold status at returns
  split at returns
  · cases returns
  · cases act <;> simp_all [ending]

section Effects

variable (W : World) (rf : RegisterFile) (slots : List Word) (s : State)

def State.call (callee : Callee) (arity : Word) : Call where
  callee := callee
  arity := arity
  args := (rf.args.take arity.toNatClampNeg).map s.vars
  pointer := s.vars rf.sp
  memory := fun a => if a ∈ slots then 0 else s.memory a

-- A call that comes back has used the registers that its caller has to save.
def State.varsAfter (dst : Option String) : Action → String → Word
  | .write value => dst.elim s.vars fun name => Function.update s.vars name value
  | .call callee arity =>
    if callee.isTrap then s.vars
    else fun r =>
      if r ∈ rf.callerSaved then (W.answer (s.call rf slots callee arity)).registers r else s.vars r
  | _ => s.vars

-- The slots of a frame are its own: a call leaves them alone.
def State.memoryAfter : Action → Word → Word
  | .store address value => Function.update s.memory address value
  | .call callee arity =>
    if callee.isTrap then s.memory
    else fun a => if a ∈ slots then s.memory a else (W.answer (s.call rf slots callee arity)).memory a
  | _ => s.memory

def State.callsAfter : Action → List Call
  | .call callee arity => s.calls ++ [s.call rf slots callee arity]
  | _ => s.calls

def State.after (dst : Option String) (jump : Option String → Nat) (act : Action) : State where
  status := act.status jump
  vars := s.varsAfter W rf slots dst act
  memory := s.memoryAfter W rf slots act
  calls := s.callsAfter rf slots act

end Effects

section Frames

variable {W : World} {rf : RegisterFile} {slots : List Word} {s s' : State} {dst : Option String}
  {name : String} {act : Action} {a : Word}

theorem varsAfter_of_ne (unwritten : dst ≠ some name) (saved : name ∉ rf.callerSaved) :
    s.varsAfter W rf slots dst act name = s.vars name := by
  cases act with
  | write w =>
    cases dst with
    | none => rfl
    | some other =>
      have differ : name ≠ other := fun same => unwritten (same ▸ rfl)
      exact Function.update_of_ne differ ..
  | call callee arity =>
    simp only [State.varsAfter]
    split
    · rfl
    · exact if_neg saved
  | store _ _ | jump _ | ret => rfl

theorem memoryAfter_of_slot (slot : a ∈ slots) (unwritten : ∀ w, act ≠ .store a w) :
    s.memoryAfter W rf slots act a = s.memory a := by
  cases act with
  | store address w =>
    have differ : a ≠ address := fun same => unwritten w (same ▸ rfl)
    exact Function.update_of_ne differ ..
  | call callee arity =>
    simp only [State.memoryAfter]
    split
    · rfl
    · exact if_pos slot
  | write _ | jump _ | ret => rfl

variable (call : ∀ callee arity, act = .call callee arity →
  s'.call rf slots callee arity = s.call rf slots callee arity)

include call

theorem varsAfter_congr (same : s'.vars name = s.vars name) :
    s'.varsAfter W rf slots dst act name = s.varsAfter W rf slots dst act name := by
  cases act with
  | write w =>
    cases dst with
    | none => exact same
    | some other =>
      by_cases written : name = other
      · subst written
        simp [State.varsAfter]
      · simp [State.varsAfter, Function.update_of_ne written, same]
  | call callee arity =>
    simp only [State.varsAfter, call callee arity rfl]
    split <;> simp only [same]
  | store _ _ | jump _ | ret => exact same

theorem memoryAfter_congr (same : s'.memory a = s.memory a) :
    s'.memoryAfter W rf slots act a = s.memoryAfter W rf slots act a := by
  cases act with
  | store address w =>
    by_cases written : a = address
    · subst written
      simp [State.memoryAfter]
    · simp [State.memoryAfter, Function.update_of_ne written, same]
  | call callee arity =>
    simp only [State.memoryAfter, call callee arity rfl]
    split <;> simp only [same]
  | write _ | jump _ | ret => exact same

theorem callsAfter_congr (same : s'.calls = s.calls) :
    s'.callsAfter rf slots act = s.callsAfter rf slots act := by
  cases act with
  | call callee arity => simp only [State.callsAfter, same, call callee arity rfl]
  | write _ | store _ _ | jump _ | ret => exact same

end Frames

end Machine

open Machine

def Instruction.writesTo (t : VarTable) (inst : Instruction) : Option String :=
  (inst.destination?.bind Operand.var?).map t.nameOf

namespace Instruction

variable {t : VarTable} {inst : Instruction} {x : VarId}

theorem writesTo_of_destination (written : inst.destination? = some (.var x)) :
    inst.writesTo t = some (t.nameOf x) := by
  rw [writesTo, written]
  rfl

theorem writesTo_rename (ρ : VarId → VarId) (written : inst.destination? = some (.var x)) :
    (inst.rename ρ).writesTo t = some (t.nameOf (ρ x)) := by
  rw [writesTo, destination?_rename, written]
  rfl

theorem destination_of_writesTo {name : String} (writes : inst.writesTo t = some name) :
    ∃ x, inst.destination? = some (.var x) ∧ t.nameOf x = name := by
  rw [writesTo, Option.map_eq_some_iff] at writes
  obtain ⟨x, found, named⟩ := writes
  rw [Option.bind_eq_some_iff] at found
  obtain ⟨op, written, isVar⟩ := found
  cases op <;> simp only [Operand.var?, Option.some.injEq, reduceCtorEq] at isVar
  exact ⟨x, isVar ▸ written, named⟩

end Instruction

namespace Function

variable (f : Function) (W : World) (rf : RegisterFile) (slots : List Word)

def jump (pc : Nat) : Option String → Nat
  | none => pc + 1
  | some target => (Flow.labelIndex? target f.body).getD f.body.length

def step (s : State) : State :=
  match s.status with
  | .ended _ => s
  | .running pc =>
    match f.body[pc]? with
    | none => { s with status := .ended .ranOut }
    | some inst =>
      s.after W rf slots (inst.writesTo f.table) (f.jump pc)
        (inst.action W s.memory (s.value W f.table))

def run (n : Nat) (s : State) : State := (f.step W rf slots)^[n] s

def SparesPointer (s : State) : Prop :=
  ∀ pc inst, s.status = .running pc → f.body[pc]? = some inst → inst.writesTo f.table ≠ some rf.sp

def SparesSlots (s : State) : Prop :=
  ∀ pc inst, s.status = .running pc → f.body[pc]? = some inst →
    ∀ a, inst.address? (s.value W f.table) = some a → a ∉ slots

end Function

namespace Machine

variable {f : Function} {W : World} {rf : RegisterFile} {slots : List Word} {s s' : State} {n m pc : Nat}
  {inst : Instruction}

theorem step_ended {how : Ending} (stopped : s.status = .ended how) : f.step W rf slots s = s := by
  simp only [Function.step, stopped]

theorem step_ranOut (at_pc : s.status = .running pc) (none : f.body[pc]? = none) :
    f.step W rf slots s = { s with status := .ended .ranOut } := by
  simp only [Function.step, at_pc, none]

theorem step_inst (at_pc : s.status = .running pc) (here : f.body[pc]? = some inst) :
    f.step W rf slots s = s.after W rf slots (inst.writesTo f.table) (f.jump pc)
      (inst.action W s.memory (s.value W f.table)) := by
  simp only [Function.step, at_pc, here]

theorem step_load {d b : VarId} {offset : Word} (at_pc : s.status = .running pc)
    (here : f.body[pc]? = some (.load (.var d) (.var b) offset)) :
    f.step W rf slots s = { s with
      status := .running (pc + 1)
      vars := Function.update s.vars (f.table.nameOf d) (s.memory (s.vars (f.table.nameOf b) + offset)) } :=
  step_inst at_pc here

theorem step_store {x b : VarId} {offset : Word} (at_pc : s.status = .running pc)
    (here : f.body[pc]? = some (.store (.var b) offset (.var x))) :
    f.step W rf slots s = { s with
      status := .running (pc + 1)
      memory := Function.update s.memory (s.vars (f.table.nameOf b) + offset)
        (s.vars (f.table.nameOf x)) } :=
  step_inst at_pc here

theorem run_succ : f.run W rf slots (n + 1) s = f.step W rf slots (f.run W rf slots n s) :=
  Function.iterate_succ_apply' ..

theorem run_add : f.run W rf slots (n + m) s = f.run W rf slots m (f.run W rf slots n s) := by
  rw [Nat.add_comm]
  exact Function.iterate_add_apply ..

theorem run_one : f.run W rf slots 1 s = f.step W rf slots s := rfl

theorem value_rename {t t' : VarTable} {ρ : VarId → VarId} {ops : List Operand}
    (same : ∀ x, .var x ∈ ops → s'.vars (t'.nameOf (ρ x)) = s.vars (t.nameOf x)) :
    ∀ op ∈ ops, s'.value W t' (op.rename ρ) = s.value W t op := by
  intro op member
  cases op with
  | var x => exact same x member
  | num _ | label _ | name _ => rfl

section Tables

variable {t : VarTable} (valid : f.Valid rf) (grown : f.table.Extends t)

include valid grown

theorem value_extends (here : f.body[pc]? = some inst) :
    ∀ op ∈ inst.reads, s.value W t op = s.value W f.table op := by
  intro op member
  cases op with
  | var x =>
    have known := (valid.resolvable inst (List.mem_of_getElem? here)).operands x
      (Instruction.reads_subset_operands inst member)
    rw [State.value, State.value, grown.nameOf known]
  | num _ | label _ | name _ => rfl

theorem writesTo_extends (here : f.body[pc]? = some inst) : inst.writesTo t = inst.writesTo f.table := by
  cases written : inst.destination? with
  | none => simp [Instruction.writesTo, written]
  | some op =>
    obtain ⟨x, known, rfl⟩ := (valid.resolvable inst (List.mem_of_getElem? here)).destination_var written
    rw [Instruction.writesTo_of_destination written, Instruction.writesTo_of_destination written,
      grown.nameOf known]

theorem step_extends : Function.step { f with table := t } W rf slots s = f.step W rf slots s := by
  cases at_pc : s.status with
  | ended how => rw [step_ended at_pc, step_ended at_pc]
  | running pc =>
    have sameBody : ({ f with table := t } : Function).body[pc]? = f.body[pc]? := rfl
    cases here : f.body[pc]? with
    | none => rw [step_ranOut at_pc here, step_ranOut at_pc (sameBody.trans here)]
    | some inst =>
      rw [step_inst at_pc here, step_inst at_pc (sameBody.trans here), writesTo_extends valid grown here,
        Instruction.action_congr (value_extends valid grown here) fun _ _ => rfl]
      rfl

theorem run_extends (n : Nat) : Function.run { f with table := t } W rf slots n s = f.run W rf slots n s := by
  induction n with
  | zero => rfl
  | succ n ih => rw [run_succ, run_succ, ih, step_extends valid grown]

theorem sparesPointer_extends (spares : f.SparesPointer rf s) :
    Function.SparesPointer { f with table := t } rf s := by
  intro pc inst at_pc here
  rw [writesTo_extends valid grown here]
  exact spares pc inst at_pc here

theorem sparesSlots_extends (spares : f.SparesSlots W slots s) :
    Function.SparesSlots { f with table := t } W slots s := by
  intro pc inst at_pc here
  rw [Instruction.address?_congr (value_extends valid grown here)]
  exact spares pc inst at_pc here

end Tables

theorem follows_next {v : Operand → Word} {memory : Word → Word}
    (goes : (inst.action W memory v).follows = some none) : inst.isTerminal = false := by
  cases inst <;> simp_all [Instruction.action, Action.follows, Instruction.isTerminal, Callee.isTrap]
  by_contra trap
  rw [Bool.not_eq_false] at trap
  simp [trap] at goes

theorem follows_target {v : Operand → Word} {memory : Word → Word} {target : String}
    (goes : (inst.action W memory v).follows = some (some target)) : inst.target? = some target := by
  cases inst <;> simp_all [Instruction.action, Action.follows, Instruction.target?]

theorem edge_of_follows {v : Operand → Word} {memory : Word → Word} {target : Option String}
    (here : f.body[pc]? = some inst) (goes : (inst.action W memory v).follows = some target)
    (inside : f.jump pc target < f.body.length) : Flow.Edge f.body pc (f.jump pc target) := by
  cases target with
  | none => exact ⟨inst, here, .inl ⟨rfl, inside, follows_next goes⟩⟩
  | some symbol =>
    refine ⟨inst, here, .inr ⟨symbol, follows_target goes, ?_⟩⟩
    rw [Function.jump] at inside ⊢
    cases found : Flow.labelIndex? symbol f.body with
    | some j => rfl
    | none => simp [found] at inside

end Machine

open Machine in
theorem Sheet.Analyzed.live_of_follows {rf : RegisterFile} {s : Sheet} {lv : Liveness} {W : World}
    {v : Operand → Word} {memory : Word → Word} {target : Option String} {pc : Nat} {inst : Instruction}
    {x : VarId} (analyzed : s.Analyzed rf lv) (here : s.function.body[pc]? = some inst)
    (goes : (inst.action W memory v).follows = some target)
    (live : x ∈ lv.liveIn (s.function.jump pc target)) : x ∈ lv.liveOut pc :=
  analyzed.live_of_edge (edge_of_follows here goes (analyzed.liveIn_lt live)) live

end RegisterAllocation
