import NameLowering.Proofs.Names.Candidates

/-!
# Consistency of the name table

A table is consistent if the output names it has assigned are used, belong to one name each, carry
the mark of escaped names and are longer than the names they stand for. Every operation keeps a
table consistent and forgets nothing.
-/

namespace NameLowering.NameTable

/-! ## Look-ups after an operation -/

@[simp]
theorem assigned?_empty (name : String) : ({} : NameTable).assigned? name = none :=
  rfl

@[simp]
theorem assigned?_reserve (table : NameTable) (reserved name : String) :
    (table.reserve reserved).assigned? name = table.assigned? name := by
  unfold reserve
  split <;> rfl

theorem mem_used_reserve (table : NameTable) (reserved name : String) :
    name ∈ (table.reserve reserved).used ↔ name = reserved ∨ name ∈ table.used := by
  unfold reserve
  split
  case isTrue known =>
    have reservedUsed : reserved ∈ table.used := by simpa using known
    constructor
    · exact Or.inr
    · rintro (rfl | member)
      · exact reservedUsed
      · exact member
  case isFalse =>
    exact List.mem_cons

section Assign

variable {target : Target} {name output : String} {table : NameTable}

theorem assign_of_assigned (known : table.assigned? name = some output) :
    table.assign target name = (output, table) := by
  simp only [assign, known]

/-- A name that was not escaped before gets the first free candidate. -/
theorem assign_of_new (new : table.assigned? name = none) :
    table.assign target name =
      (firstFree table.used (target.escaped name),
        { assigned := (name, firstFree table.used (target.escaped name)) :: table.assigned
          used := firstFree table.used (target.escaped name) :: table.used }) := by
  simp only [assign, new]

theorem assigned?_assign_self (target : Target) (name : String) (table : NameTable) :
    (table.assign target name).2.assigned? name = some (table.assign target name).1 := by
  cases known : table.assigned? name with
  | none =>
      rw [assign_of_new known]
      simp [assigned?]
  | some output =>
      rw [assign_of_assigned known]
      exact known

theorem assigned?_assign_of_ne {other : String} (different : other ≠ name) :
    (table.assign target name).2.assigned? other = table.assigned? other := by
  cases known : table.assigned? name with
  | none =>
      rw [assign_of_new known]
      simp [assigned?, List.lookup_cons, beq_eq_false_iff_ne.mpr different]
  | some output =>
      rw [assign_of_assigned known]

end Assign

/-! ## Nothing is forgotten -/

/-- The later table knows all that the earlier one does. -/
structure Extends (earlier later : NameTable) : Prop where
  assigned : ∀ {name output : String},
    earlier.assigned? name = some output → later.assigned? name = some output
  used : earlier.used ⊆ later.used

theorem Extends.refl (table : NameTable) : table.Extends table :=
  ⟨id, List.Subset.refl _⟩

theorem Extends.trans
    {first second third : NameTable} (early : first.Extends second)
    (late : second.Extends third) :
    first.Extends third :=
  ⟨fun known => late.assigned (early.assigned known), List.Subset.trans early.used late.used⟩

theorem extends_reserve (table : NameTable) (name : String) :
    table.Extends (table.reserve name) where
  assigned known := by rwa [assigned?_reserve]
  used _ member := (mem_used_reserve table name _).mpr (Or.inr member)

theorem extends_assign (target : Target) (name : String) (table : NameTable) :
    table.Extends (table.assign target name).2 := by
  cases known : table.assigned? name with
  | some output =>
      rw [assign_of_assigned known]
      exact Extends.refl table
  | none =>
      constructor
      · intro other output otherKnown
        have different : other ≠ name := by
          rintro rfl
          rw [known] at otherKnown
          contradiction
        rwa [assigned?_assign_of_ne different]
      · rw [assign_of_new known]
        exact List.subset_cons_self _ _

theorem extends_outputName
    (target : Target) (escape : Bool) (name : String) (table : NameTable) :
    table.Extends (table.outputName target escape name).2 := by
  unfold outputName
  split
  · exact extends_assign target name table
  · exact extends_reserve table name

/-- Asked again at any later time, a table gives the same output name. -/
theorem outputName_stable
    {target : Target} {escape : Bool} {name : String} {table later : NameTable}
    (extension : (table.outputName target escape name).2.Extends later) :
    (later.outputName target escape name).1 = (table.outputName target escape name).1 := by
  cases escape with
  | false =>
      rfl
  | true =>
      have known : later.assigned? name = some (table.assign target name).1 :=
        extension.assigned (assigned?_assign_self target name table)
      change (later.assign target name).1 = (table.assign target name).1
      rw [assign_of_assigned known]

/-! ## Consistency -/

/-- What holds of the output names in every table that operations lead to. -/
structure Consistent (table : NameTable) : Prop where
  used : ∀ {name output : String}, table.assigned? name = some output → output ∈ table.used
  injective : ∀ {left right output : String},
    table.assigned? left = some output → table.assigned? right = some output → left = right
  marked : ∀ {name output : String},
    table.assigned? name = some output → Target.hasSafeMark output = true
  longer : ∀ {name output : String},
    table.assigned? name = some output → name.length < output.length

theorem consistent_empty : ({} : NameTable).Consistent := by
  constructor <;> simp

namespace Consistent

variable {table : NameTable}

theorem reserve (consistent : table.Consistent) (name : String) :
    (table.reserve name).Consistent where
  used known := by
    rw [assigned?_reserve] at known
    exact (extends_reserve table name).used (consistent.used known)
  injective left right := by
    rw [assigned?_reserve] at left right
    exact consistent.injective left right
  marked known := by
    rw [assigned?_reserve] at known
    exact consistent.marked known
  longer known := by
    rw [assigned?_reserve] at known
    exact consistent.longer known

theorem assign (consistent : table.Consistent) (target : Target) (name : String) :
    (table.assign target name).2.Consistent := by
  cases known : table.assigned? name with
  | some output =>
      rw [assign_of_assigned known]
      exact consistent
  | none =>
      have fresh := firstFree_not_mem table.used (target.escaped name)
      have extension := extends_assign target name table
      have newOutput := assigned?_assign_self target name table
      -- Every entry of the new table is the new one or was there before.
      have cases_of_assigned {other output : String}
          (otherKnown : (table.assign target name).2.assigned? other = some output) :
          (other = name ∧ output = firstFree table.used (target.escaped name)) ∨
            table.assigned? other = some output := by
        by_cases same : other = name
        · subst same
          rw [newOutput, assign_of_new known] at otherKnown
          exact Or.inl ⟨rfl, (Option.some.inj otherKnown).symm⟩
        · rw [assigned?_assign_of_ne same] at otherKnown
          exact Or.inr otherKnown
      constructor
      · intro other output otherKnown
        rcases cases_of_assigned otherKnown with ⟨_, rfl⟩ | old
        · rw [assign_of_new known]
          exact List.mem_cons_self
        · exact extension.used (consistent.used old)
      · intro left right output leftKnown rightKnown
        rcases cases_of_assigned leftKnown with ⟨rfl, leftOutput⟩ | leftOld
        · rcases cases_of_assigned rightKnown with ⟨rfl, _⟩ | rightOld
          · rfl
          · exact absurd (leftOutput ▸ consistent.used rightOld) fresh
        · rcases cases_of_assigned rightKnown with ⟨rfl, rightOutput⟩ | rightOld
          · exact absurd (rightOutput ▸ consistent.used leftOld) fresh
          · exact consistent.injective leftOld rightOld
      · intro other output otherKnown
        rcases cases_of_assigned otherKnown with ⟨_, rfl⟩ | old
        · exact hasSafeMark_firstFree table.used target name
        · exact consistent.marked old
      · intro other output otherKnown
        rcases cases_of_assigned otherKnown with ⟨rfl, rfl⟩ | old
        · exact length_lt_length_firstFree table.used target other
        · exact consistent.longer old

theorem outputName
    (consistent : table.Consistent) (target : Target) (escape : Bool) (name : String) :
    (table.outputName target escape name).2.Consistent := by
  unfold NameTable.outputName
  split
  · exact consistent.assign target name
  · exact consistent.reserve name

end Consistent

end NameLowering.NameTable
