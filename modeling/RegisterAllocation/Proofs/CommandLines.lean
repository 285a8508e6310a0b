import Mathlib.Data.List.Basic
import RegisterAllocation.Command.Environment

namespace RegisterAllocation.Command

def LastValue (flag value : String) (words : List String) : Prop :=
  ∃ before after, words = before ++ flag :: value :: after ∧ flag ∉ value :: after

def Spells (text : String) (count : Nat) : Prop :=
  ∃ n, Word.read? text = some n ∧ n.toInt = count ∧ 1 ≤ count ∧ count ≤ 64

-- A number of threads is the one that the environment asks for, and one if it asks for none.
structure AsksFor (lookup : String → Option String) (threads : Nat) : Prop where
  asked : ∀ text count, lookup "L2C_THREADS" = some text → Spells text count → threads = count
  unasked : (∀ text count, lookup "L2C_THREADS" = some text → ¬Spells text count) → threads = 1

-- How an accepted command line is read. A switch stands alone and sets the mode or asks for a log,
-- a value flag takes the word behind it, and the last word may name the source.
inductive Reads : Options → List String → Options → Prop where
  | done {o : Options} : Reads o [] o
  | source {o : Options} {word : String} (plain : word.startsWith "-" = false) :
      Reads o [word] { o with source := word }
  | switch {o o' : Options} {word : String} {rest : List String} {mode : Mode} {verbose : Bool}
      (listed : word ∈ ["-l", "-i", "-c", "-vb"]) (more : Reads { o with mode, verbose } rest o') :
      Reads o (word :: rest) o'
  | value {o q o' : Options} {flag : ValueFlag} {value : String} {rest : List String}
      (plain : value.startsWith "-" = false) (taken : o.set flag value = .ok q) (more : Reads q rest o') :
      Reads o (flag.text :: value :: rest) o'

variable {o o' : Options} {words : List String} {flag : ValueFlag} {value : String}

theorem ValueFlag.text_of_ofText? {word : String} (found : ofText? word = some flag) : word = flag.text := by
  have hit := List.find?_some found
  exact (beq_iff_eq.mp hit).symm

theorem ValueFlag.text_inj {other : ValueFlag} (same : flag.text = other.text) : flag = other := by
  cases flag <;> cases other <;> first | rfl | exact absurd same (by decide)

theorem ValueFlag.text_dashed (flag : ValueFlag) : flag.text.startsWith "-" = true := by
  cases flag <;> decide +kernel

theorem ValueFlag.text_not_switch (flag : ValueFlag) : flag.text ∉ ["-l", "-i", "-c", "-vb"] := by
  cases flag <;> decide

theorem Options.read_sound (accepted : o.read words = .ok (.run o')) : Reads o words o' := by
  fun_induction Options.read o words with
  | case1 o =>
    cases accepted
    exact .done
  | case2 | case3 | case4 | case5 | case6 | case7 | case8 | case9 => cases accepted
  | case10 o rest ih => exact .switch (by simp) (ih accepted)
  | case11 o rest ih => exact .switch (by simp) (ih accepted)
  | case12 o rest ih => exact .switch (by simp) (ih accepted)
  | case13 o rest ih => exact .switch (by simp) (ih accepted)
  | case14 | case15 | case16 | case18 => cases accepted
  | case17 o word _ _ _ _ _ _ _ _ _ _ _ _ flag value rest found plain q taken ih =>
    rw [ValueFlag.text_of_ofText? found]
    exact .value (Bool.eq_false_iff.mpr plain) taken (ih accepted)
  | case19 o word _ _ _ _ _ _ _ _ _ _ _ _ rest _ last =>
    cases accepted
    rw [not_or, not_not] at last
    obtain ⟨plain, rfl⟩ := last
    exact .source (Bool.eq_false_iff.mpr plain)

theorem LastValue.cons {flag : String} (last : LastValue flag value words) (word : String) :
    LastValue flag value (word :: words) := by
  obtain ⟨before, after, rfl, final⟩ := last
  exact ⟨word :: before, after, rfl, final⟩

theorem LastValue.unique {flag value' : String} (last : LastValue flag value words)
    (last' : LastValue flag value' words) : value = value' := by
  obtain ⟨before, after, rfl, final⟩ := last
  obtain ⟨before', after', same, final'⟩ := last'
  -- Where one mention stands before the other, it is not the last.
  rcases List.append_eq_append_iff.mp same with ⟨between, -, rest⟩ | ⟨between, -, rest⟩
  · cases between with
    | nil => cases rest; rfl
    | cons _ between =>
      obtain ⟨-, rest⟩ := List.cons.inj rest
      exact absurd (rest ▸ List.mem_append_right _ List.mem_cons_self) final
  · cases between with
    | nil => cases rest; rfl
    | cons _ between =>
      obtain ⟨-, rest⟩ := List.cons.inj rest
      exact absurd (rest ▸ List.mem_append_right _ List.mem_cons_self) final'

theorem Reads.last_setting {α : Type} (flag : ValueFlag) (setting : Options → α)
    (others : ∀ (o q : Options) other value, other ≠ flag → o.set other value = .ok q → setting q = setting o)
    (source : ∀ (o : Options) word, setting { o with source := word } = setting o)
    (switch : ∀ (o : Options) mode verbose, setting { o with mode, verbose } = setting o) (reads : Reads o words o') :
    (flag.text ∉ words ∧ setting o' = setting o) ∨
      ∃ value, ∃ q q' : Options, LastValue flag.text value words ∧ q.set flag value = .ok q' ∧
        setting o' = setting q' := by
  have dashed : ∀ {word}, word.startsWith "-" = false → flag.text ≠ word := by
    intro word plain same
    rw [← same, flag.text_dashed] at plain
    cases plain
  induction reads with
  | done => exact .inl ⟨List.not_mem_nil, rfl⟩
  | source plain => exact .inl ⟨by simpa using dashed plain, source _ _⟩
  | @switch o o' word rest mode verbose listed _ ih =>
    have apart : flag.text ≠ word := fun same => flag.text_not_switch (same ▸ listed)
    rcases ih with ⟨absent, kept⟩ | ⟨value, q, q', last, taken, final⟩
    · exact .inl ⟨List.not_mem_cons_of_ne_of_not_mem apart absent, kept.trans (switch _ _ _)⟩
    · exact .inr ⟨value, q, q', last.cons word, taken, final⟩
  | @value o q o' other value rest plain taken _ ih =>
    rcases ih with ⟨absent, kept⟩ | ⟨later, p, p', last, set, final⟩
    · have behind : flag.text ∉ value :: rest := List.not_mem_cons_of_ne_of_not_mem (dashed plain) absent
      by_cases same : other = flag
      · subst same
        exact .inr ⟨value, o, q, ⟨[], rest, rfl, behind⟩, taken, kept⟩
      · have apart : flag.text ≠ other.text := fun equal => same (ValueFlag.text_inj equal).symm
        exact .inl ⟨List.not_mem_cons_of_ne_of_not_mem apart behind, kept.trans (others _ _ _ _ same taken)⟩
    · exact .inr ⟨later, p, p', (last.cons value).cons other.text, set, final⟩

namespace Options

variable {q : Options}

theorem threadCount?_eq_some_iff {n : Word} {count : Nat} :
    threadCount? n = some count ↔ n.toInt = count ∧ 1 ≤ count ∧ count ≤ 64 := by
  have one : (1 : Word).toInt = 1 := rfl
  have most : maxThreads = 64 := rfl
  simp only [threadCount?, Int64.le_iff_toInt_le, one, most]
  split
  · rw [Option.some.injEq, ← Int64.toNat_toInt]
    omega
  · simp only [reduceCtorEq, false_iff]
    omega

theorem spells_iff {text : String} {count : Nat} :
    (Word.read? text).bind threadCount? = some count ↔ Spells text count := by
  simp only [Option.bind_eq_some_iff, threadCount?_eq_some_iff, Spells]

theorem set_cases (taken : o.set flag value = .ok q) :
    (flag = .output ∧ q = { o with output := value }) ∨
      (flag = .config ∧ q = { o with config := value }) ∨
      (flag = .function ∧ q = { o with function := value }) ∨
      (flag = .spill ∧ q = { o with mode := .spill, spillVar := value }) ∨
      (∃ format, flag = .format ∧ q = { o with format := format }) ∨
      ∃ count, flag = .threads ∧ Spells value count ∧ q = { o with threads := count } := by
  cases flag with
  | output =>
    cases taken
    simp
  | config =>
    cases taken
    simp
  | function =>
    cases taken
    simp
  | spill =>
    simp only [set] at taken
    split at taken
    · cases taken
      simp
    · cases taken
  | format =>
    simp only [set] at taken
    split at taken
    · cases taken
      simp
    · cases taken
      simp
    · cases taken
  | threads =>
    simp only [set] at taken
    split at taken
    · cases taken
    · rename_i n read
      split at taken
      · cases taken
      · rename_i count counted
        cases taken
        have spelled : Spells value count := ⟨n, read, threadCount?_eq_some_iff.mp counted⟩
        simp [spelled]

theorem config_of_set (other : flag ≠ .config) (taken : o.set flag value = .ok q) : q.config = o.config := by
  rcases set_cases taken with ⟨-, rfl⟩ | ⟨same, -⟩ | ⟨-, rfl⟩ | ⟨-, rfl⟩ | ⟨_, -, rfl⟩ | ⟨_, -, -, rfl⟩
  · rfl
  · exact absurd same other
  all_goals rfl

theorem threads_of_set (other : flag ≠ .threads) (taken : o.set flag value = .ok q) : q.threads = o.threads := by
  rcases set_cases taken with ⟨-, rfl⟩ | ⟨-, rfl⟩ | ⟨-, rfl⟩ | ⟨-, rfl⟩ | ⟨_, -, rfl⟩ | ⟨_, same, -⟩
  case inr.inr.inr.inr.inr => exact absurd same other
  all_goals rfl

theorem set_config (taken : o.set .config value = .ok q) : q.config = value := by
  cases taken
  rfl

theorem set_threads (taken : o.set .threads value = .ok q) : Spells value q.threads := by
  rcases set_cases taken with ⟨other, -⟩ | ⟨other, -⟩ | ⟨other, -⟩ | ⟨other, -⟩ | ⟨_, other, -⟩ | ⟨_, -, spelled, rfl⟩
  case inr.inr.inr.inr.inr => exact spelled
  all_goals cases other

end Options

section Parsed

variable (parsed : parse words = .ok (.run o))
include parsed

theorem parse_config : ("-cc" ∉ words ∧ o.config = "") ∨ ∃ value, LastValue "-cc" value words ∧ o.config = value := by
  rcases (Options.read_sound parsed).last_setting .config Options.config
    (fun _ _ _ _ => Options.config_of_set) (fun _ _ => rfl) (fun _ _ _ => rfl) with
    unset | ⟨value, q, q', last, taken, final⟩
  · exact .inl unset
  · exact .inr ⟨value, last, final.trans (Options.set_config taken)⟩

theorem parse_threads :
    ("-t" ∉ words ∧ o.threads = 1) ∨ ∃ value, LastValue "-t" value words ∧ Spells value o.threads := by
  rcases (Options.read_sound parsed).last_setting .threads Options.threads
    (fun _ _ _ _ => Options.threads_of_set) (fun _ _ => rfl) (fun _ _ _ => rfl) with
    unset | ⟨value, q, q', last, taken, final⟩
  · exact .inl unset
  · exact .inr ⟨value, last, final ▸ Options.set_threads taken⟩

end Parsed

theorem LastValue.mem {flag : String} (last : LastValue flag value words) : flag ∈ words := by
  obtain ⟨before, after, rfl, -⟩ := last
  simp

theorem threads_asked (lookup : String → Option String) (single : o.threads = 1) :
    AsksFor lookup (o.withEnvironment (.ofLookup lookup)).threads := by
  have threads : (o.withEnvironment (.ofLookup lookup)).threads =
      (((lookup "L2C_THREADS").bind Word.read?).bind Options.threadCount?).getD 1 := by
    simp only [Options.withEnvironment, single, Nat.one_lt_two, if_true]
    rfl
  refine ⟨fun text count found spelled => ?_, fun none => ?_⟩
  · rw [threads, found, Option.bind_some, Options.spells_iff.mpr spelled]
    rfl
  · rw [threads]
    cases found : lookup "L2C_THREADS" with
    | none => rfl
    | some text =>
      rw [Option.bind_some]
      cases counted : (Word.read? text).bind Options.threadCount? with
      | none => rfl
      | some count => exact absurd (Options.spells_iff.mp counted) (none text count found)

-- What a command line and the environment make of the options. The last path behind `-cc` and the
-- last count behind `-t` go before the environment, but for one count: a single thread that was
-- asked for is taken for the default, and the environment overrides it.
theorem flags_before_environment (parsed : parse words = .ok (.run o)) (lookup : String → Option String) :
    (∀ value, LastValue "-cc" value words → value ≠ "" →
      (o.withEnvironment (.ofLookup lookup)).config = value) ∧
    (("-cc" ∉ words ∨ LastValue "-cc" "" words) →
      (o.withEnvironment (.ofLookup lookup)).config = (lookup "L2C_CONFIG").getD "") ∧
    (∀ value, LastValue "-t" value words → ∃ count, Spells value count ∧ o.threads = count ∧
      (count ≠ 1 → (o.withEnvironment (.ofLookup lookup)).threads = count) ∧
      (count = 1 → AsksFor lookup (o.withEnvironment (.ofLookup lookup)).threads)) ∧
    ("-t" ∉ words → AsksFor lookup (o.withEnvironment (.ofLookup lookup)).threads) ∧
    (∀ flag ∈ ["-cc", "-t"], flag ∈ words → ∃ value, LastValue flag value words) ∧
    { o.withEnvironment (.ofLookup lookup) with
      config := o.config, threads := o.threads, verbose := o.verbose } = o := by
  have config : (o.withEnvironment (.ofLookup lookup)).config =
      if o.config.isEmpty then (lookup "L2C_CONFIG").getD "" else o.config := rfl
  refine ⟨fun value last given => ?_, fun left => ?_, fun value last => ?_, fun absent => ?_, ?_, rfl⟩
  · rcases parse_config parsed with ⟨absent, -⟩ | ⟨value', last', same⟩
    · exact absurd last.mem absent
    · rw [config, same, last'.unique last, if_neg (by simpa using given)]
  · have empty : o.config = "" := by
      rcases parse_config parsed with ⟨-, same⟩ | ⟨value', last', same⟩
      · exact same
      · rcases left with absent | last
        · exact absurd last'.mem absent
        · rw [same, last'.unique last]
    rw [config, empty]
    rfl
  · rcases parse_threads parsed with ⟨absent, -⟩ | ⟨value', last', spelled⟩
    · exact absurd last.mem absent
    · rw [last'.unique last] at spelled
      refine ⟨o.threads, spelled, rfl, fun several => ?_, threads_asked lookup⟩
      obtain ⟨-, -, -, positive, -⟩ := spelled
      have many : ¬o.threads < 2 := by omega
      simp only [Options.withEnvironment, if_neg many]
  · rcases parse_threads parsed with ⟨-, single⟩ | ⟨value, last, -⟩
    · exact threads_asked lookup single
    · exact absurd last.mem absent
  · simp only [List.forall_mem_cons]
    refine ⟨fun given => ?_, fun given => ?_, by simp⟩
    · rcases parse_config parsed with ⟨absent, -⟩ | ⟨value, last, -⟩
      · exact absurd given absent
      · exact ⟨value, last⟩
    · rcases parse_threads parsed with ⟨absent, -⟩ | ⟨value, last, -⟩
      · exact absurd given absent
      · exact ⟨value, last⟩

theorem flags_before_environment_repeated : ∃ o,
    parse ["-t", "8", "-cc", "a.toml", "-t", "3", "-cc", "b.toml", "p.json"] = .ok (.run o) ∧
      (o.withEnvironment (.ofLookup fun _ => some "4")).threads = 3 ∧
      (o.withEnvironment (.ofLookup fun _ => some "4")).config = "b.toml" := by
  have parsed : parse ["-t", "8", "-cc", "a.toml", "-t", "3", "-cc", "b.toml", "p.json"] =
      .ok (.run { threads := 3, config := "b.toml", source := "p.json" }) := by decide +kernel
  obtain ⟨config, -, threads, -⟩ := flags_before_environment parsed fun _ => some "4"
  obtain ⟨count, -, rfl, several, -⟩ :=
    threads "3" ⟨["-t", "8", "-cc", "a.toml"], ["-cc", "b.toml", "p.json"], rfl, by decide⟩
  exact ⟨_, parsed, several (by decide),
    config "b.toml" ⟨["-t", "8", "-cc", "a.toml", "-t", "3"], ["p.json"], rfl, by decide⟩ (by decide)⟩

theorem single_thread_overridden : ¬∀ words o lookup value count, parse words = .ok (.run o) →
    LastValue "-t" value words → Spells value count →
    (o.withEnvironment (.ofLookup lookup)).threads = count := by
  intro kept
  have parsed : parse ["-t", "1"] = .ok (.run {}) := by decide +kernel
  have one : Spells "1" 1 := ⟨1, by decide +kernel⟩
  have same := kept _ _ (fun _ => some "4") "1" 1 parsed ⟨[], [], rfl, by decide⟩ one
  revert same
  decide +kernel

end RegisterAllocation.Command
