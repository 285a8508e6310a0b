import Mathlib.Data.List.Nodup
import RegisterAllocation.Variable

namespace RegisterAllocation.VarTable

variable {t t' t'' : VarTable} {rf : RegisterFile} {name : String} {names : List String} {id : VarId}

-- What every table is that was filled by interning names: a name has one number, and the calling
-- convention alone decides whether it is a register.
structure Sound (t : VarTable) : Prop where
  distinct : t.names.Nodup
  kinds : ∀ v ∈ t.vars, v.kind = t.kindOf v.name

-- Later tables only add variables at the end, so that numbers keep their meaning.
structure Extends (t t' : VarTable) : Prop where
  convention : t'.convention = t.convention
  vars : t.vars <+: t'.vars

theorem Extends.refl (t : VarTable) : t.Extends t := ⟨rfl, List.prefix_rfl⟩

theorem Extends.trans (first : t.Extends t') (second : t'.Extends t'') : t.Extends t'' :=
  ⟨second.convention.trans first.convention, first.vars.trans second.vars⟩

theorem Extends.size_le (grown : t.Extends t') : t.size ≤ t'.size := grown.vars.length_le

theorem Extends.getElem? (grown : t.Extends t') (known : id < t.size) :
    t'.vars[id]? = t.vars[id]? := by
  obtain ⟨rest, split⟩ := grown.vars
  rw [← split, List.getElem?_append_left known]

theorem Extends.nameOf (grown : t.Extends t') (known : id < t.size) :
    t'.nameOf id = t.nameOf id := by
  simp only [VarTable.nameOf, grown.getElem? known]

theorem Extends.isRegister (grown : t.Extends t') (known : id < t.size) :
    t'.isRegister id = t.isRegister id := by
  simp only [VarTable.isRegister, grown.getElem? known]

theorem empty_sound (convention : Option RegisterFile) :
    Sound { convention := convention } :=
  ⟨List.nodup_nil, by simp⟩

theorem names_length (t : VarTable) : t.names.length = t.size := List.length_map _

theorem names_getElem? (known : id < t.size) : t.names[id]? = some (t.nameOf id) := by
  have present : id < t.vars.length := known
  simp [names, VarTable.nameOf, List.getElem?_eq_getElem present]

theorem nameOf_mem_names (known : id < t.size) : t.nameOf id ∈ t.names :=
  List.mem_of_getElem? (names_getElem? known)

theorem exists_of_mem_names (member : name ∈ t.names) : ∃ id < t.size, t.nameOf id = name := by
  obtain ⟨id, known, found⟩ := List.mem_iff_getElem.mp member
  rw [names_length] at known
  refine ⟨id, known, ?_⟩
  have same := names_getElem? known
  rw [List.getElem?_eq_getElem (by rwa [names_length]), found] at same
  exact (Option.some.inj same).symm

theorem nameOf_inj_of_nodup (distinct : t.names.Nodup) {i j : VarId} (left : i < t.size) (right : j < t.size)
    (same : t.nameOf i = t.nameOf j) : i = j := by
  have bound : i < t.names.length := by rwa [names_length]
  apply (List.getElem?_inj bound distinct).mp
  rw [names_getElem? left, names_getElem? right, same]

theorem nameOf_inj (sound : t.Sound) {i j : VarId} (left : i < t.size) (right : j < t.size)
    (same : t.nameOf i = t.nameOf j) : i = j :=
  nameOf_inj_of_nodup sound.distinct left right same

theorem lt_size_of_isRegister (register : t.isRegister id = true) : id < t.size := by
  by_contra beyond
  have missing : t.vars[id]? = none := List.getElem?_eq_none (Nat.le_of_not_lt beyond)
  simp [isRegister, missing] at register

theorem lt_size_of_named (named : (t.nameOf id).isEmpty = false) : id < t.size := by
  by_contra beyond
  have missing : t.vars[id]? = none := List.getElem?_eq_none (Nat.le_of_not_lt beyond)
  simp [VarTable.nameOf, missing] at named

theorem isRegister_eq (sound : t.Sound) (convention : t.convention = some rf) (known : id < t.size) :
    t.isRegister id = rf.isRegister (t.nameOf id) := by
  have present : id < t.vars.length := known
  have kind := sound.kinds _ (List.getElem_mem present)
  simp only [kindOf, convention] at kind
  simp only [isRegister, VarTable.nameOf, List.getElem?_eq_getElem present, Option.map_some,
    Option.getD_some, Variable.isRegister, kind]
  split <;> simp_all

theorem id?_eq_some (found : t.id? name = some id) : id < t.size ∧ t.nameOf id = name := by
  obtain ⟨known, hit, -⟩ := List.findIdx?_eq_some_iff_getElem.mp found
  refine ⟨known, ?_⟩
  simpa [VarTable.nameOf, List.getElem?_eq_getElem known] using hit

theorem get_ok {id : Int} {v : Variable} (got : t.get id = .ok v) :
    t.vars[id.toNat]? = some v := by
  unfold get at got
  split at got
  · rename_i n
    cases found : t.vars[n]? with
    | none => simp [found] at got
    | some w =>
      rw [found] at got
      exact found.trans (congrArg some (Except.ok.inj got))
  · cases got

theorem id?_eq_none_iff : t.id? name = none ↔ name ∉ t.names := by
  simp [id?, names, List.findIdx?_eq_none_iff]

theorem id?_nameOf_of_nodup (distinct : t.names.Nodup) (known : id < t.size) :
    t.id? (t.nameOf id) = some id := by
  cases found : t.id? (t.nameOf id) with
  | none => exact absurd (nameOf_mem_names known) (id?_eq_none_iff.mp found)
  | some other =>
    obtain ⟨otherKnown, named⟩ := id?_eq_some found
    rw [nameOf_inj_of_nodup distinct otherKnown known named]

theorem id?_nameOf (sound : t.Sound) (known : id < t.size) : t.id? (t.nameOf id) = some id :=
  id?_nameOf_of_nodup sound.distinct known

theorem id?_eq_some_iff (sound : t.Sound) :
    t.id? name = some id ↔ id < t.size ∧ t.nameOf id = name := by
  refine ⟨id?_eq_some, ?_⟩
  rintro ⟨known, rfl⟩
  exact id?_nameOf sound known

theorem Extends.id? (grown : t.Extends t') (before : t.Sound) (after : t'.Sound)
    (found : t.id? name = some id) : t'.id? name = some id := by
  obtain ⟨known, named⟩ := (id?_eq_some_iff before).mp found
  refine (id?_eq_some_iff after).mpr ⟨Nat.lt_of_lt_of_le known grown.size_le, ?_⟩
  rw [grown.nameOf known, named]

theorem Extends.mem_names (grown : t.Extends t') (member : name ∈ t.names) : name ∈ t'.names :=
  (grown.vars.map Variable.name).subset member

theorem intern_known (found : t.id? name = some id) : t.intern name = (id, t) := by
  simp only [intern, found]

theorem intern_new (absent : t.id? name = none) :
    t.intern name = (t.size, { t with vars := t.vars ++ [⟨name, t.kindOf name⟩] }) := by
  simp only [intern, absent]

theorem intern_extends (t : VarTable) (name : String) : t.Extends (t.intern name).2 := by
  cases found : t.id? name with
  | none => rw [intern_new found]; exact ⟨rfl, List.prefix_append _ _⟩
  | some id => rw [intern_known found]; exact Extends.refl t

theorem intern_nodup (distinct : t.names.Nodup) (name : String) : (t.intern name).2.names.Nodup := by
  cases found : t.id? name with
  | some id => rwa [intern_known found]
  | none =>
    rw [intern_new found]
    have fresh := id?_eq_none_iff.mp found
    simp only [names, List.map_append, List.map_cons, List.map_nil]
    exact distinct.append (List.nodup_singleton _) (by simpa using fresh)

theorem intern_sound (sound : t.Sound) (name : String) : (t.intern name).2.Sound := by
  refine ⟨intern_nodup sound.distinct name, ?_⟩
  cases found : t.id? name with
  | some id =>
    rw [intern_known found]
    exact sound.kinds
  | none =>
    rw [intern_new found]
    intro v member
    rcases List.mem_append.mp member with old | new
    · exact sound.kinds v old
    · cases List.mem_singleton.mp new; rfl

theorem intern_lt_size (t : VarTable) (name : String) : (t.intern name).1 < (t.intern name).2.size := by
  cases found : t.id? name with
  | none => rw [intern_new found]; simp [size]
  | some id =>
    rw [intern_known found]
    exact (id?_eq_some found).1

theorem nameOf_intern (t : VarTable) (name : String) :
    (t.intern name).2.nameOf (t.intern name).1 = name := by
  cases found : t.id? name with
  | none => rw [intern_new found]; simp [VarTable.nameOf, size]
  | some id =>
    rw [intern_known found]
    exact (id?_eq_some found).2

theorem internAll_extends (t : VarTable) (names : List String) : t.Extends (t.internAll names).2 := by
  induction names generalizing t with
  | nil => exact Extends.refl t
  | cons name rest ih => exact (intern_extends t name).trans (ih _)

theorem internAll_append (t : VarTable) (names more : List String) :
    (t.internAll (names ++ more)).2 = ((t.internAll names).2.internAll more).2 := by
  induction names generalizing t with
  | nil => rfl
  | cons name rest ih => exact ih _

theorem internAll_known
    (known : ∀ name ∈ names, name ∈ t.names) : (t.internAll names).2 = t := by
  induction names with
  | nil => rfl
  | cons name rest ih =>
    cases found : t.id? name with
    | none => exact absurd (known name List.mem_cons_self) (id?_eq_none_iff.mp found)
    | some id =>
      simp only [internAll, intern_known found]
      exact ih fun other member => known other (List.mem_cons_of_mem _ member)

theorem internAll_sound (sound : t.Sound) (names : List String) : (t.internAll names).2.Sound := by
  induction names generalizing t with
  | nil => exact sound
  | cons name rest ih => exact ih (intern_sound sound name)

theorem internAll_lt_size (t : VarTable) (names : List String) :
    ∀ id ∈ (t.internAll names).1, id < (t.internAll names).2.size := by
  induction names generalizing t with
  | nil => simp [internAll]
  | cons name rest ih =>
    intro id member
    rcases List.mem_cons.mp member with rfl | later
    · exact Nat.lt_of_lt_of_le (intern_lt_size t name) (internAll_extends _ rest).size_le
    · exact ih _ id later

theorem map_nameOf_internAll (t : VarTable) (names : List String) :
    (t.internAll names).1.map (t.internAll names).2.nameOf = names := by
  induction names generalizing t with
  | nil => rfl
  | cons name rest ih =>
    have kept := (internAll_extends (t.intern name).2 rest).nameOf (intern_lt_size t name)
    rw [nameOf_intern] at kept
    simp only [internAll, List.map_cons, kept, ih]

theorem mem_names_internAll (t : VarTable) (names : List String) :
    ∀ name ∈ names, name ∈ (t.internAll names).2.names := by
  intro name member
  have image : name ∈ (t.internAll names).1.map (t.internAll names).2.nameOf := by
    rwa [map_nameOf_internAll]
  obtain ⟨id, inside, rfl⟩ := List.mem_map.mp image
  exact nameOf_mem_names (internAll_lt_size t names id inside)

theorem mem_internAll (sound : t.Sound) :
    id ∈ (t.internAll names).1 ↔
      id < (t.internAll names).2.size ∧ (t.internAll names).2.nameOf id ∈ names := by
  constructor
  · intro member
    refine ⟨internAll_lt_size t names id member, ?_⟩
    have image := List.mem_map_of_mem (f := (t.internAll names).2.nameOf) member
    rwa [map_nameOf_internAll] at image
  · intro h
    obtain ⟨known, named⟩ := h
    have image : (t.internAll names).2.nameOf id ∈
        (t.internAll names).1.map (t.internAll names).2.nameOf := by
      rwa [map_nameOf_internAll]
    obtain ⟨other, member, same⟩ := List.mem_map.mp image
    have bound := internAll_lt_size t names other member
    rwa [nameOf_inj (internAll_sound sound names) bound known same] at member

end RegisterAllocation.VarTable
