import Mathlib.Data.List.Basic
import RegisterAllocation.Proofs.RenamedSets
import Std.Data.String.ToInt

namespace RegisterAllocation

-- Neither a blank nor a line break stands in the text. Other white space does no harm.
def Spaceless (s : String) : Prop := ' ' ∉ s.toList ∧ '\n' ∉ s.toList

instance (s : String) : Decidable (Spaceless s) := inferInstanceAs (Decidable (_ ∧ _))

theorem spaceless_append {s s' : String} : Spaceless (s ++ s') ↔ Spaceless s ∧ Spaceless s' := by
  simp only [Spaceless, String.toList_append, List.mem_append, not_or]
  tauto

theorem isDigit_of_mem_repr {n : Nat} {c : Char} (member : c ∈ n.repr.toList) : c.isDigit = true :=
  Nat.isDigit_of_mem_toDigits (by decide) (by decide) (Nat.toList_repr ▸ member)

theorem spaceless_repr (n : Nat) : Spaceless n.repr :=
  ⟨fun member => absurd (isDigit_of_mem_repr member) (by decide),
    fun member => absurd (isDigit_of_mem_repr member) (by decide)⟩

theorem eq_of_intercalate {sep : String} {c : Char} {parts parts' : List String} (one : sep.toList = [c])
    (parted : ∀ s ∈ parts, c ∉ s.toList) (parted' : ∀ s ∈ parts', c ∉ s.toList)
    (some : parts ≠ []) (some' : parts' ≠ []) (same : sep.intercalate parts = sep.intercalate parts') :
    parts = parts' := by
  have split : ∀ list : List String, (∀ s ∈ list, c ∉ s.toList) → list ≠ [] →
      (sep.intercalate list).toList.splitOn c = list.map String.toList := by
    intro list parted some
    rw [String.toList_intercalate, one]
    refine List.splitOn_intercalate c ?_ (by simpa using some)
    simpa using parted
  have lists : parts.map String.toList = parts'.map String.toList := by
    rw [← split parts parted some, ← split parts' parted' some', same]
  exact (List.map_inj_right fun _ _ => String.toList_inj.mp).mp lists

theorem not_mem_intercalate {sep : String} {c : Char} {parts : List String} (apart : c ∉ sep.toList)
    (parted : ∀ s ∈ parts, c ∉ s.toList) : c ∉ (sep.intercalate parts).toList := by
  induction parts with
  | nil => simp
  | cons s rest ih =>
    have first := parted s List.mem_cons_self
    cases rest with
    | nil => simpa using first
    | cons _ _ =>
      have later := ih fun s member => parted s (List.mem_cons_of_mem _ member)
      rw [String.intercalate_cons_cons, String.toList_append, String.toList_append, List.mem_append,
        List.mem_append]
      exact fun either => either.elim (fun near => near.elim first apart) later

theorem forall₂_of_map_eq {α β γ : Type} {R : α → β → Prop} {show₁ : α → γ} {show₂ : β → γ} {list : List α}
    {list' : List β} (same : list.map show₁ = list'.map show₂)
    (related : ∀ a ∈ list, ∀ b ∈ list', show₁ a = show₂ b → R a b) : List.Forall₂ R list list' := by
  induction list generalizing list' with
  | nil =>
    rw [List.map_nil, eq_comm, List.map_eq_nil_iff] at same
    exact same ▸ .nil
  | cons a rest ih =>
    obtain ⟨b, rest', rfl, head, tail⟩ := List.map_eq_cons_iff.mp same.symm
    refine .cons (related a List.mem_cons_self b List.mem_cons_self head.symm) (ih tail.symm ?_)
    intro a left b right
    exact related a (List.mem_cons_of_mem _ left) b (List.mem_cons_of_mem _ right)

namespace Word

theorem text_injective {v w : Word} (same : v.text = w.text) : v = w := by
  rw [text, text, Int.toString_eq_repr, Int.toString_eq_repr, Int.repr_inj] at same
  exact Int64.toInt_inj.mp same

theorem text_cases (w : Word) : ∃ n : Nat, w.text = n.repr ∨ w.text = "-" ++ n.repr := by
  rw [text, Int.toString_eq_repr, Int.repr_eq_if]
  split
  · exact ⟨_, .inl rfl⟩
  · exact ⟨_, .inr rfl⟩

theorem spaceless_text (w : Word) : Spaceless w.text := by
  obtain ⟨n, plain | negative⟩ := w.text_cases
  · rw [plain]
    exact spaceless_repr n
  · rw [negative, spaceless_append]
    exact ⟨by decide, spaceless_repr n⟩

end Word

namespace ArithOp

theorem symbol_injective {op op' : ArithOp} (same : op.symbol = op'.symbol) : op = op' := by
  cases op <;> cases op'
  case other.other => simpa [symbol] using same
  all_goals simp_all [symbol, ← String.toList_inj, toString]

theorem symbol_ne_arrow (op : ArithOp) : op.symbol ≠ "<-" := by
  cases op <;> simp [symbol, ← String.toList_inj, toString]

theorem symbol_ne_at (op : ArithOp) : op.symbol ≠ "@" := by
  cases op <;> simp [symbol, ← String.toList_inj, toString]

theorem spaceless_symbol (op : ArithOp) : Spaceless op.symbol := by
  cases op with
  | other n => exact spaceless_append.mpr ⟨spaceless_append.mpr ⟨by decide, spaceless_repr n⟩,
      by decide⟩
  | _ => decide

end ArithOp

namespace Relation

theorem symbol_injective {rel rel' : Relation} (same : rel.symbol = rel'.symbol) : rel = rel' := by
  cases rel <;> cases rel'
  case other.other => simpa [symbol] using same
  all_goals simp_all [symbol, ← String.toList_inj, toString]

theorem spaceless_symbol (rel : Relation) : Spaceless rel.symbol := by
  cases rel with
  | other n => exact spaceless_append.mpr ⟨spaceless_append.mpr ⟨by decide, spaceless_repr n⟩,
      by decide⟩
  | _ => decide

end Relation

namespace OperandKind

-- The kind of operand that a text shows by its first character, if it shows one. Registers of the x86-64
-- convention all start with an r.
def ofFirst? (c : Char) : Option OperandKind :=
  if c.isDigit || c == '-' then some .num
  else if c == ':' then some .label
  else if c == '@' then some .name
  else if c == '%' || c == 'r' then some .var
  else none

def shown? (s : String) : Option OperandKind := s.toList.head?.bind ofFirst?

theorem shown?_append {s s' : String} {kind : OperandKind} (shown : shown? s = some kind) :
    shown? (s ++ s') = some kind := by
  unfold shown? at shown ⊢
  rw [String.toList_append]
  cases chars : s.toList with
  | nil => simp [chars] at shown
  | cons c rest => simpa [chars] using shown

theorem shown?_of_startsWith {s mark : String} (opens : s.startsWith mark = true) (marked : mark ≠ "") :
    shown? s = shown? mark := by
  obtain ⟨rest, whole⟩ := String.startsWith_string_iff.mp opens
  unfold shown?
  rw [← whole]
  cases chars : mark.toList with
  | nil => exact absurd (String.toList_inj.mp chars) marked
  | cons c more => rfl

theorem shown?_repr (n : Nat) : shown? n.repr = some .num := by
  unfold shown?
  cases chars : n.repr.toList with
  | nil => exact absurd (Nat.toList_repr.symm.trans chars) (by simp)
  | cons c rest =>
    have digit : c.isDigit = true := isDigit_of_mem_repr (n := n) (by simp [chars])
    simp [ofFirst?, digit]

theorem shown?_wordText (w : Word) : shown? w.text = some .num := by
  obtain ⟨n, plain | negative⟩ := w.text_cases
  · rw [plain, shown?_repr]
  · rw [negative, shown?_append (show shown? "-" = some .num by decide)]

theorem shown?_register {name : String} (register : (RegisterFile.draft .x8664).isRegister name = true) :
    shown? name = some .var := by
  have listed : ∀ r ∈ (RegisterFile.draft .x8664).sp :: (RegisterFile.draft .x8664).registers,
      shown? r = some .var := by decide +kernel
  rcases RegisterFile.isRegister_iff.mp register with rfl | member
  · exact listed _ List.mem_cons_self
  · exact listed _ (List.mem_cons_of_mem _ member)

end OperandKind

open Validation

namespace Operand

inductive Same (t t' : VarTable) : Operand → Operand → Prop
  | var (x y : VarId) (named : t.nameOf x = t'.nameOf y) : Same t t' (.var x) (.var y)
  | num (value : Word) : Same t t' (.num value) (.num value)
  | label (symbol : String) : Same t t' (.label symbol) (.label symbol)
  | name (symbol : String) : Same t t' (.name symbol) (.name symbol)

variable {t t' : VarTable} {op op' : Operand}

theorem same_of_text (kinds : op.kind = op'.kind) (texts : op.text t = op'.text t') : Same t t' op op' := by
  cases op <;> cases op' <;> cases kinds
  case var.var x y => exact .var x y texts
  case num.num v w =>
    cases Word.text_injective texts
    exact .num v
  case label.label symbol _ =>
    cases texts
    exact .label symbol
  case name.name symbol _ =>
    cases texts
    exact .name symbol

def symbols (t : VarTable) : Operand → List String
  | .var x => [t.nameOf x]
  | .num _ => []
  | .label symbol | .name symbol => [symbol]

theorem spaceless_text (spaceless : ∀ s ∈ op.symbols t, Spaceless s) : Spaceless (op.text t) := by
  cases op with
  | num value => exact value.spaceless_text
  | _ => exact spaceless _ List.mem_cons_self

theorem shown?_text (sound : t.Sound) (convention : t.convention = some (.draft .x8664))
    (spelled : spelling t op = []) : OperandKind.shown? (op.text t) = some op.kind := by
  cases op with
  | var x =>
    rcases spelling_var.mp spelled with register | virtual
    · rw [VarTable.isRegister_eq sound convention (lt_size_of_spelling spelled)] at register
      exact OperandKind.shown?_register register
    · exact OperandKind.shown?_of_startsWith virtual (by decide)
  | num value => exact OperandKind.shown?_wordText value
  | label symbol =>
    have opens : symbol.startsWith ":" = true := by simpa [spelling] using spelled
    exact OperandKind.shown?_of_startsWith opens (by decide)
  | name symbol =>
    have opens : symbol.startsWith "@" = true := by simpa [spelling] using spelled
    exact OperandKind.shown?_of_startsWith opens (by decide)

end Operand

namespace Instruction

def words (t : VarTable) : Instruction → List String
  | .ret => ["return"]
  | .assign dst src => [dst.text t, "<-", src.text t]
  | .load dst base offset => [dst.text t, "<-", "mem", base.text t, offset.text]
  | .store base offset src => ["mem", base.text t, offset.text, "<-", src.text t]
  | .arith op dst src => [dst.text t, op.symbol, src.text t]
  | .loadArith op dst base offset => [dst.text t, op.symbol, "mem", base.text t, offset.text]
  | .storeArith op base offset src => ["mem", base.text t, offset.text, op.symbol, src.text t]
  | .compare rel dst left right => [dst.text t, "<-", left.text t, rel.symbol, right.text t]
  | .cjump rel left right target => ["cjump", left.text t, rel.symbol, right.text t, target]
  | .label symbol => [symbol]
  | .goto target => ["goto", target]
  | .call callee arity => ["call", callee.text t, arity.text]
  | .runtimeCall function arity => ["call", function, arity.text]
  | .increment dst => [dst.text t ++ "++"]
  | .decrement dst => [dst.text t ++ "--"]
  | .lea dst base index scale => [dst.text t, "@", base.text t, index.text t, scale.text]
  | .stackArg dst offset => [dst.text t, "<-", "stack-arg", offset.text]

theorem text_eq_words (t : VarTable) (inst : Instruction) : inst.text t = " ".intercalate (inst.words t) := by
  rw [← String.toList_inj]
  cases inst <;> simp [text.eq_def, words]

theorem words_ne_nil (t : VarTable) (inst : Instruction) : inst.words t ≠ [] := by
  cases inst <;> exact List.cons_ne_nil _ _

-- The kind of instruction that is written in some words. Operands are told from keywords by their first
-- characters.
def kindOfWords : List String → InstructionKind
  | [word] =>
    if word = "return" then .ret
    else if OperandKind.shown? word = some .label then .label
    else if word.toList.getLast? = some '+' then .increment
    else .decrement
  | [_, _] => .goto
  | [first, second, _] =>
    if first = "call" then if OperandKind.shown? second = none then .runtimeCall else .call
    else if second = "<-" then .assign
    else .arith
  | [first, second, third, fourth, _] =>
    if first = "cjump" then .cjump
    else if first = "mem" then if fourth = "<-" then .store else .storeArith
    else if second = "@" then .lea
    else if second = "<-" then if third = "mem" then .load else .compare
    else .loadArith
  | _ => .stackArg

def runtimeNames : List String := ["print", "input", "allocate", "tuple-error", "tensor-error"]

theorem runtime_listed {function : String} {arity : Word} (clean : runtimeFlaws function arity = []) :
    function ∈ runtimeNames := by
  unfold runtimeFlaws RuntimeFunction.arity? at clean
  by_contra unlisted
  simp only [runtimeNames, List.mem_cons, List.not_mem_nil, or_false, not_or] at unlisted
  simp [unlisted] at clean

section Kinds

variable {t t' : VarTable} {inst inst' : Instruction}

theorem kindOfWords_words (sound : t.Sound) (convention : t.convention = some (.draft .x8664))
    (clean : instruction t inst = []) : kindOfWords (inst.words t) = inst.kind := by
  have shown : ∀ op ∈ inst.operands, OperandKind.shown? (op.text t) = some op.kind := fun op member =>
    Operand.shown?_text sound convention (operands_spelled clean op member)
  have keyword : ∀ op ∈ inst.operands, ∀ key, OperandKind.shown? key = none → op.text t ≠ key := by
    intro op member key none same
    rw [← same, shown op member] at none
    cases none
  have notCall := fun op member => keyword op member "call" (by decide)
  have notJump := fun op member => keyword op member "cjump" (by decide)
  have notMem := fun op member => keyword op member "mem" (by decide)
  have glued : ∀ op ∈ inst.operands, op.isVar = true → ∀ mark, OperandKind.shown? (op.text t ++ mark) = some .var := by
    intro op member isVar mark
    rw [OperandKind.shown?_append (shown op member)]
    cases op with
    | var _ => rfl
    | num _ | label _ | name _ => cases isVar
  have notReturn : ∀ s mark c, mark.toList.getLast? = some c → c ≠ 'n' → s ++ mark ≠ "return" := by
    intro s mark c last other same
    have ends := congrArg (·.toList.getLast?) same
    simp [last] at ends
    exact other ends
  cases inst with
  | ret | goto _ | stackArg _ _ | cjump _ _ _ _ | store _ _ _ => rfl
  | assign dst src => simp [words, kindOfWords, kind, notCall dst (by simp [operands])]
  | arith op dst src => simp [words, kindOfWords, kind, notCall dst (by simp [operands]), op.symbol_ne_arrow]
  | call callee arity => simp [words, kindOfWords, kind, shown callee (by simp [operands])]
  | runtimeCall function arity =>
    have plain : ∀ function ∈ runtimeNames, OperandKind.shown? function = none := by decide
    simp [words, kindOfWords, kind, plain function (runtime_listed clean)]
  | storeArith op base offset src => simp [words, kindOfWords, kind, op.symbol_ne_arrow]
  | label symbol =>
    have opens : symbol.startsWith ":" = true := by simpa [instruction] using clean
    have shown : OperandKind.shown? symbol = some .label := OperandKind.shown?_of_startsWith opens (by decide)
    have other : symbol ≠ "return" := by
      rintro rfl
      exact absurd shown (by decide)
    simp [words, kindOfWords, kind, shown, other]
  | increment dst =>
    have isVar := destination_isVar clean rfl
    simp [words, kindOfWords, kind, notReturn (dst.text t) "++" '+' (by decide) (by decide),
      glued dst (by simp [operands]) isVar]
  | decrement dst =>
    have isVar := destination_isVar clean rfl
    simp [words, kindOfWords, kind, notReturn (dst.text t) "--" '-' (by decide) (by decide),
      glued dst (by simp [operands]) isVar]
  | load dst base offset | lea dst base index scale =>
    simp [words, kindOfWords, kind, notJump dst (by simp [operands]), notMem dst (by simp [operands])]
  | compare rel dst left right =>
    simp [words, kindOfWords, kind, notJump dst (by simp [operands]), notMem dst (by simp [operands]),
      notMem left (by simp [operands])]
  | loadArith op dst base offset =>
    simp [words, kindOfWords, kind, notJump dst (by simp [operands]), notMem dst (by simp [operands]),
      op.symbol_ne_arrow, op.symbol_ne_at]

theorem parts_of_words (kinds : inst.kind = inst'.kind) (words : inst.words t = inst'.words t') :
    inst.skeleton = inst'.skeleton ∧ inst.operands.map (·.text t) = inst'.operands.map (·.text t') := by
  cases inst <;> cases inst' <;> cases kinds <;>
    simp only [Instruction.words, List.cons.injEq, and_true, true_and, String.append_left_inj] at words <;>
    grind [skeleton, operands, Word.text_injective, ArithOp.symbol_injective, Relation.symbol_injective]

structure Same (t t' : VarTable) (inst inst' : Instruction) : Prop where
  skeleton : inst.skeleton = inst'.skeleton
  operands : List.Forall₂ (Operand.Same t t') inst.operands inst'.operands

def symbols (t : VarTable) (inst : Instruction) : List String :=
  inst.operands.flatMap (·.symbols t) ++ inst.label?.toList ++ inst.target?.toList

theorem spaceless_words (clean : instruction t inst = []) (spaceless : ∀ s ∈ inst.symbols t, Spaceless s) :
    ∀ w ∈ inst.words t, Spaceless w := by
  simp only [symbols, List.mem_append, or_imp, forall_and, List.mem_flatMap, forall_exists_index, and_imp,
    Option.mem_toList] at spaceless
  obtain ⟨⟨operands, labels⟩, targets⟩ := spaceless
  have operand : ∀ op ∈ inst.operands, Spaceless (op.text t) := fun op member =>
    Operand.spaceless_text fun s found => operands s op member found
  have word := Word.spaceless_text
  have arith := ArithOp.spaceless_symbol
  have relation := Relation.spaceless_symbol
  have key : ∀ s ∈ ["return", "<-", "mem", "cjump", "goto", "call", "@", "stack-arg", "++", "--"], Spaceless s := by
    decide
  simp only [List.forall_mem_cons] at key
  cases inst with
  | ret => simp [words, key]
  | label symbol => simpa [words] using labels symbol rfl
  | goto target => simp [words, key, targets target rfl]
  | runtimeCall function arity =>
    have plain : ∀ function ∈ runtimeNames, Spaceless function := by decide
    simp [words, key, word, plain function (runtime_listed clean)]
  | cjump rel left right target =>
    simp only [Instruction.operands, List.forall_mem_cons] at operand
    simp [words, key, operand, relation, targets target rfl]
  | _ =>
    simp only [Instruction.operands, List.forall_mem_cons] at operand
    simp [words, key, operand, word, arith, spaceless_append, relation]

structure Plain (t : VarTable) (inst : Instruction) : Prop where
  sound : t.Sound
  convention : t.convention = some (.draft .x8664)
  clean : instruction t inst = []
  symbols : ∀ s ∈ inst.symbols t, Spaceless s

theorem same_of_text (plain : inst.Plain t) (plain' : inst'.Plain t') (texts : inst.text t = inst'.text t') :
    Same t t' inst inst' := by
  -- A line gives its words, these give the kind, and within the kind the words give all else.
  have spaceless := spaceless_words plain.clean plain.symbols
  have spaceless' := spaceless_words plain'.clean plain'.symbols
  rw [text_eq_words, text_eq_words] at texts
  have words := eq_of_intercalate (show " ".toList = [' '] from rfl) (fun w member => (spaceless w member).1)
    (fun w member => (spaceless' w member).1) (inst.words_ne_nil t) (inst'.words_ne_nil t') texts
  have kinds : inst.kind = inst'.kind := by
    rw [← kindOfWords_words plain.sound plain.convention plain.clean, words,
      kindOfWords_words plain'.sound plain'.convention plain'.clean]
  obtain ⟨skeletons, operands⟩ := parts_of_words kinds words
  refine ⟨skeletons, forall₂_of_map_eq operands fun op member op' member' text => ?_⟩
  have shown := Operand.shown?_text plain.sound plain.convention (operands_spelled plain.clean op member)
  have shown' := Operand.shown?_text plain'.sound plain'.convention (operands_spelled plain'.clean op' member')
  rw [text, shown'] at shown
  exact Operand.same_of_text (Option.some.inj shown).symm text

theorem text_no_line_break (plain : inst.Plain t) : '\n' ∉ (inst.text t).toList := by
  rw [text_eq_words]
  exact not_mem_intercalate (by decide) fun w member => (spaceless_words plain.clean plain.symbols w member).2

end Kinds

end Instruction

namespace Function

-- What makes a function readable in its text form: it passed validation with the x86-64 convention, and its
-- names are spaceless.
structure Plain (f : Function) : Prop where
  sound : f.table.Sound
  convention : f.convention = some (.draft .x8664)
  clean : f.problems = []
  name : Spaceless f.name
  symbols : ∀ inst ∈ f.body, ∀ s ∈ inst.symbols f.table, Spaceless s

variable {f g : Function}

theorem Plain.instruction (plain : f.Plain) {inst : Instruction} (member : inst ∈ f.body) : inst.Plain f.table :=
  ⟨plain.sound, plain.convention, (f.problems_eq_nil_iff.mp plain.clean).2.2 inst member |>.1,
    plain.symbols inst member⟩

def heading (f : Function) : List String := ["(" ++ f.name, f.args.text, f.locals.text]

def lines (f : Function) : List String :=
  " ".intercalate f.heading :: (f.body.map (fun inst => "\t" ++ inst.text f.table) ++ [")"])

theorem text_eq_lines (f : Function) : f.text = "\n".intercalate f.lines := by
  have tail : ∀ body : List Instruction,
      "\n".intercalate (body.map (fun inst => "\t" ++ inst.text f.table) ++ [")"]) =
        String.join (body.map fun inst => "\t" ++ inst.text f.table ++ "\n") ++ ")" := by
    intro body
    induction body with
    | nil => simp
    | cons inst body ih =>
      rw [List.map_cons, List.cons_append, String.intercalate_cons_of_ne_nil (by simp), ih, List.map_cons,
        String.join_cons]
      simp only [String.append_assoc]
  rw [lines, String.intercalate_cons_of_ne_nil (by simp), tail, text]
  simp [heading, String.append_assoc]

theorem Plain.lines_no_line_break (plain : f.Plain) : ∀ line ∈ f.lines, '\n' ∉ line.toList := by
  intro line member
  simp only [lines, List.mem_cons, List.mem_append, List.mem_map, List.not_mem_nil, or_false] at member
  rcases member with rfl | ⟨inst, member, rfl⟩ | rfl
  · refine not_mem_intercalate (by decide) ?_
    simpa [heading] using ⟨plain.name.2, f.args.spaceless_text.2, f.locals.spaceless_text.2⟩
  · simpa using Instruction.text_no_line_break (plain.instruction member)
  · decide

theorem Plain.heading_no_blank (plain : f.Plain) : ∀ part ∈ f.heading, ' ' ∉ part.toList := by
  simpa [heading] using ⟨plain.name.1, f.args.spaceless_text.1, f.locals.spaceless_text.1⟩

theorem text_unambiguous (plain : f.Plain) (plain' : g.Plain) (texts : f.text = g.text) :
    f.name = g.name ∧ f.args = g.args ∧ f.locals = g.locals ∧
      List.Forall₂ (Instruction.Same f.table g.table) f.body g.body := by
  rw [text_eq_lines, text_eq_lines] at texts
  have lines := eq_of_intercalate (show "\n".toList = ['\n'] from rfl) plain.lines_no_line_break
    plain'.lines_no_line_break (List.cons_ne_nil _ _) (List.cons_ne_nil _ _) texts
  simp only [Function.lines, List.cons.injEq, List.append_left_inj] at lines
  obtain ⟨headings, bodies⟩ := lines
  have parts := eq_of_intercalate (show " ".toList = [' '] from rfl) plain.heading_no_blank
    plain'.heading_no_blank (List.cons_ne_nil _ _) (List.cons_ne_nil _ _) headings
  simp only [heading, List.cons.injEq, and_true, String.append_right_inj] at parts
  obtain ⟨name, args, locals⟩ := parts
  refine ⟨name, Word.text_injective args, Word.text_injective locals, ?_⟩
  refine forall₂_of_map_eq bodies fun inst member inst' member' line => ?_
  exact Instruction.same_of_text (plain.instruction member) (plain'.instruction member')
    (String.append_right_inj _ |>.mp line)

def countdown (names : List String) (x arg result : VarId) : Function where
  name := "@f"
  args := 1
  locals := 2
  table := (VarTable.internAll { convention := some (.draft .x8664) } names).2
  body := [.assign (.var x) (.var arg), .label ":x++", .decrement (.var x), .load (.var result) (.var x) (-8),
    .compare .less (.var result) (.num 0) (.var x), .call (.name "@f") 1, .call (.var x) 1, .runtimeCall "print" 1,
    .arith (.other 7) (.var x) (.num (-1)), .cjump (.other 7) (.var x) (.var result) ":x++", .ret]

theorem text_unambiguous_countdown :
    (countdown ["%x", "rdi", "rax"] 0 1 2).text = (countdown ["rax", "%y", "rdi", "%x"] 3 2 0).text ∧
      List.Forall₂ (Instruction.Same (countdown ["%x", "rdi", "rax"] 0 1 2).table
        (countdown ["rax", "%y", "rdi", "%x"] 3 2 0).table) (countdown ["%x", "rdi", "rax"] 0 1 2).body
        (countdown ["rax", "%y", "rdi", "%x"] 3 2 0).body := by
  have plain : (countdown ["%x", "rdi", "rax"] 0 1 2).Plain :=
    ⟨VarTable.internAll_sound (VarTable.empty_sound _) _, by decide +kernel, by decide +kernel, by decide,
      by decide +kernel⟩
  have plain' : (countdown ["rax", "%y", "rdi", "%x"] 3 2 0).Plain :=
    ⟨VarTable.internAll_sound (VarTable.empty_sound _) _, by decide +kernel, by decide +kernel, by decide,
      by decide +kernel⟩
  have texts : (countdown ["%x", "rdi", "rax"] 0 1 2).text = (countdown ["rax", "%y", "rdi", "%x"] 3 2 0).text := by
    decide +kernel
  exact ⟨texts, (text_unambiguous plain plain' texts).2.2.2⟩

end Function

end RegisterAllocation
