import NameLowering.Types.Lookup

/-!
# Nesting of types

A lookup of a property goes on from an alias to its target and from an intersection or union to the
members, and looks at a bounded number of types in a chain. Where types are not nested deeper than
that, the bound plays no part: an alias has the properties of its target, and an intersection or
union those that the answers of its members add up to.
-/

namespace NameLowering

/-- The types that a lookup of properties goes on to. -/
def TypeForm.parts : TypeForm → List TypeId
  | .alias _ target => [target]
  | .intersection members | .union members => members
  | .intrinsic _ | .uniqueSymbol _ | .object .. | .function .. => []

namespace TypeTable

/-- A type is nested in at most so many levels of aliases, intersections and unions. -/
inductive NestsWithin (table : TypeTable) : Nat → TypeId → Prop
  | simple
      {levels : Nat} {id : TypeId}
      (flat : ∀ form, table.get? id = some form → form.parts = []) :
      NestsWithin table levels id
  | composite
      {levels : Nat} {id : TypeId} {form : TypeForm} (found : table.get? id = some form)
      (inner : ∀ part ∈ form.parts, NestsWithin table levels part) :
      NestsWithin table (levels + 1) id

variable {table : TypeTable} {levels : Nat} {id : TypeId} {form : TypeForm} {name : String}

theorem NestsWithin.part
    (nests : table.NestsWithin levels id) (found : table.get? id = some form)
    {part : TypeId} (member : part ∈ form.parts) :
    ∃ fewer, levels = fewer + 1 ∧ table.NestsWithin fewer part := by
  cases nests with
  | simple flat =>
      rw [flat form found] at member
      contradiction
  | composite otherFound inner =>
      have sameForm := Option.some.inj (found.symm.trans otherFound)
      subst sameForm
      exact ⟨_, rfl, inner part member⟩

/-! ## The bound of a lookup -/

theorem findSome?_congr
    {first second : TypeId → Option TypeId} {members : List TypeId}
    (agree : ∀ member ∈ members, first member = second member) :
    members.findSome? first = members.findSome? second := by
  induction members with
  | nil =>
      rfl
  | cons head rest inductionHypothesis =>
      have headAgrees : first head = second head := agree head List.mem_cons_self
      have restAgrees := inductionHypothesis fun member inRest =>
        agree member (List.mem_cons_of_mem head inRest)
      rw [List.findSome?_cons, List.findSome?_cons, headAgrees, restAgrees]

theorem sharedAnswer?_congr
    {first second : TypeId → Option TypeId} {members : List TypeId}
    (agree : ∀ member ∈ members, first member = second member) :
    sharedAnswer? first members = sharedAnswer? second members := by
  cases members with
  | nil =>
      rfl
  | cons head rest =>
      have headAgrees : first head = second head := agree head List.mem_cons_self
      have restAgrees :
          (rest.all fun id => (first id).isSome) = rest.all fun id => (second id).isSome := by
        rw [Bool.eq_iff_iff, List.all_eq_true, List.all_eq_true]
        refine forall₂_congr fun member inRest => ?_
        rw [agree member (List.mem_cons_of_mem head inRest)]
      simp only [sharedAnswer?, headAgrees, restAgrees]

/-- One level of a lookup depends on the form and on the answers of its parts alone. -/
theorem propertyWithin?_congr
    {other : TypeTable} {fewer more : Nat} (found : table.get? id = some form)
    (alsoFound : other.get? id = some form)
    (agree : ∀ part ∈ form.parts,
      table.propertyWithin? name fewer part = other.propertyWithin? name more part) :
    table.propertyWithin? name (fewer + 1) id = other.propertyWithin? name (more + 1) id := by
  simp only [propertyWithin?, found, alsoFound]
  cases form with
  | «alias» label target =>
      exact agree target List.mem_cons_self
  | intersection members =>
      exact findSome?_congr agree
  | union members =>
      exact sharedAnswer?_congr agree
  | intrinsic | uniqueSymbol | object | function =>
      rfl

/-- Above the levels that a type is nested in, the bound of a lookup plays no part. -/
theorem NestsWithin.propertyWithin?_eq
    (nests : table.NestsWithin levels id) {fewer more : Nat} (enough : levels < fewer)
    (alsoEnough : levels < more) :
    table.propertyWithin? name fewer id = table.propertyWithin? name more id := by
  obtain ⟨fewer, rfl⟩ : ∃ bound, fewer = bound + 1 := ⟨fewer - 1, by omega⟩
  obtain ⟨more, rfl⟩ : ∃ bound, more = bound + 1 := ⟨more - 1, by omega⟩
  induction nests generalizing fewer more with
  | @simple levels id flat =>
      cases found : table.get? id with
      | none =>
          simp only [propertyWithin?, found]
      | some form =>
          refine propertyWithin?_congr found found fun part member => ?_
          rw [flat form found] at member
          contradiction
  | @composite levels id form found inner inductionHypothesis =>
      refine propertyWithin?_congr found found fun part member => ?_
      obtain ⟨fewer, rfl⟩ : ∃ bound, fewer = bound + 1 := ⟨fewer - 1, by omega⟩
      obtain ⟨more, rfl⟩ : ∃ bound, more = bound + 1 := ⟨more - 1, by omega⟩
      exact inductionHypothesis part member fewer (by omega) more (by omega)

/-! ## Properties of composite types -/

/-- Below the bound, the parts of a type answer a lookup as they would on their own. -/
theorem NestsWithin.propertyWithin?_part
    (nests : table.NestsWithin levels id) (fits : levels ≤ Limits.typeNesting)
    (found : table.get? id = some form) :
    ∀ part ∈ form.parts,
      table.propertyWithin? name Limits.typeNesting part = table.property? part name := by
  intro part member
  obtain ⟨fewer, rfl, partNests⟩ := nests.part found member
  exact partNests.propertyWithin?_eq (by omega) (by omega)

theorem NestsWithin.property?_alias
    {label : String} {target : TypeId} (nests : table.NestsWithin levels id)
    (fits : levels ≤ Limits.typeNesting) (found : table.get? id = some (.alias label target)) :
    table.property? id name = table.property? target name := by
  have answer :
      table.propertyWithin? name Limits.typeNesting target = table.property? target name :=
    nests.propertyWithin?_part fits found target List.mem_cons_self
  rw [← answer, property?, propertyWithin?]
  simp only [found]

theorem NestsWithin.property?_intersection
    {members : List TypeId} (nests : table.NestsWithin levels id)
    (fits : levels ≤ Limits.typeNesting) (found : table.get? id = some (.intersection members)) :
    table.property? id name = members.findSome? fun member => table.property? member name := by
  rw [property?, propertyWithin?]
  simp only [found]
  exact findSome?_congr (nests.propertyWithin?_part fits found)

theorem NestsWithin.property?_union
    {members : List TypeId} (nests : table.NestsWithin levels id)
    (fits : levels ≤ Limits.typeNesting) (found : table.get? id = some (.union members)) :
    table.property? id name =
      sharedAnswer? (fun member => table.property? member name) members := by
  rw [property?, propertyWithin?]
  simp only [found]
  exact sharedAnswer?_congr (nests.propertyWithin?_part fits found)

end TypeTable

end NameLowering
