import NameLowering.Extension.Recognize
import NameLowering.Proofs.Types.Nesting

/-!
# Recognition of extensions through composite types

An alias is an extension exactly if its target is. An intersection should be one if some member is,
and a union if every member is. Both hold unless an imitation decides: a type with a property of the
brand's name that lacks the mark. An imitation hides the extensions after it in an intersection, and
passes for an extension after a real one in a union, since a lookup takes the first member's
property and looks for the mark there alone.
-/

namespace NameLowering.TypeTable

/-- Whether a type has a property of the name of an extension's brand, marked or not. -/
def hasBrand (table : TypeTable) (extension : Extension) (id : TypeId) : Bool :=
  (table.property? id extension.brand).isSome

/-- Whether the type of a brand carries the mark. -/
def isMarked (table : TypeTable) (brand : TypeId) : Bool :=
  (table.property? brand Extension.markProperty).any table.isUniqueSymbol

/-- A type has a property of the brand's name, but is not the extension. -/
def Imitates (table : TypeTable) (extension : Extension) (id : TypeId) : Prop :=
  table.hasBrand extension id = true ∧ table.isExtension id extension = false

/-- The first member that has a property of the brand's name is an imitation, although some member
is an extension. -/
def ImitationHides (table : TypeTable) (extension : Extension) (members : List TypeId) : Prop :=
  ∃ imitation, members.find? (table.hasBrand extension) = some imitation ∧
    table.Imitates extension imitation ∧
      ∃ member ∈ members, table.isExtension member extension = true

/-- The first member is an extension and all have a property of the brand's name, although one of
them is an imitation. -/
def ImitationPasses (table : TypeTable) (extension : Extension) (members : List TypeId) : Prop :=
  ∃ first, members.head? = some first ∧ table.isExtension first extension = true ∧
    (∀ member ∈ members, table.hasBrand extension member = true) ∧
      ∃ member ∈ members, table.Imitates extension member

variable {table : TypeTable} {extension : Extension} {levels : Nat} {id : TypeId}
  {members : List TypeId}

theorem isExtension_eq :
    table.isExtension id extension = (table.property? id extension.brand).any table.isMarked := by
  unfold isExtension isMarked
  cases table.property? id extension.brand <;> rfl

theorem hasBrand_of_isExtension (isOne : table.isExtension id extension = true) :
    table.hasBrand extension id = true := by
  rw [isExtension_eq, Option.any_eq_true] at isOne
  obtain ⟨brand, found, _⟩ := isOne
  rw [hasBrand, found, Option.isSome_some]

theorem imitates_of_not_isExtension
    (branded : table.hasBrand extension id = true)
    (isNone : ¬ table.isExtension id extension = true) :
    table.Imitates extension id :=
  ⟨branded, Bool.eq_false_iff.mpr isNone⟩

/-! ## Intersections -/

/-- The first answer passes a test just if the first member with an answer has one that does. -/
theorem any_findSome?
    (answer? : TypeId → Option TypeId) (test : TypeId → Bool) (members : List TypeId) :
    (members.findSome? answer?).any test =
      (members.find? fun member => (answer? member).isSome).any
        fun member => (answer? member).any test := by
  induction members with
  | nil =>
      rfl
  | cons head rest inductionHypothesis =>
      cases answer : answer? head with
      | none =>
          simp [answer, inductionHypothesis]
      | some found =>
          simp [answer]

/-- The first member with a property of the brand's name decides. -/
theorem isExtension_intersection_eq
    (nests : table.NestsWithin levels id) (fits : levels ≤ Limits.typeNesting)
    (found : table.get? id = some (.intersection members)) :
    table.isExtension id extension =
      (members.find? (table.hasBrand extension)).any (table.isExtension · extension) := by
  rw [isExtension_eq, nests.property?_intersection fits found, any_findSome?]
  simp only [isExtension_eq]
  rfl

theorem isExtension_intersection_iff
    (nests : table.NestsWithin levels id) (fits : levels ≤ Limits.typeNesting)
    (found : table.get? id = some (.intersection members)) :
    (table.isExtension id extension = true ↔
        ∃ member ∈ members, table.isExtension member extension = true) ↔
      ¬ table.ImitationHides extension members := by
  have decides :
      table.isExtension id extension =
        (members.find? (table.hasBrand extension)).any (table.isExtension · extension) :=
    isExtension_intersection_eq nests fits found
  cases search : members.find? (table.hasBrand extension) with
  | none =>
      have unbranded := List.find?_eq_none.mp search
      have noMember : ¬ ∃ member ∈ members, table.isExtension member extension = true := by
        rintro ⟨member, inMembers, isOne⟩
        exact unbranded member inMembers (hasBrand_of_isExtension isOne)
      have isNone : ¬ table.isExtension id extension = true := by
        simp [decides, search]
      refine iff_of_true (iff_of_false isNone noMember) ?_
      rintro ⟨imitation, first, _⟩
      rw [search] at first
      contradiction
  | some first =>
      have asFirst : table.isExtension id extension = table.isExtension first extension := by
        simp [decides, search]
      have branded : table.hasBrand extension first = true := List.find?_some search
      by_cases isOne : table.isExtension first extension = true
      · have someMember : ∃ member ∈ members, table.isExtension member extension = true :=
          ⟨first, List.mem_of_find?_eq_some search, isOne⟩
        refine iff_of_true (iff_of_true (asFirst.trans isOne) someMember) ?_
        rintro ⟨imitation, isFirst, imitates, _⟩
        have same := Option.some.inj (search.symm.trans isFirst)
        rw [← same] at imitates
        exact absurd imitates.2 (by simp [isOne])
      · have hides :
            table.ImitationHides extension members ↔
              ∃ member ∈ members, table.isExtension member extension = true :=
          ⟨fun ⟨_, _, _, someMember⟩ => someMember,
            fun someMember =>
              ⟨first, search, imitates_of_not_isExtension branded isOne, someMember⟩⟩
        rw [hides, asFirst]
        simp [isOne]

/-! ## Unions -/

theorem isExtension_union_eq_true_iff
    {first : TypeId} {rest : List TypeId} (nests : table.NestsWithin levels id)
    (fits : levels ≤ Limits.typeNesting)
    (found : table.get? id = some (.union (first :: rest))) :
    table.isExtension id extension = true ↔
      table.isExtension first extension = true ∧
        ∀ member ∈ first :: rest, table.hasBrand extension member = true := by
  rw [isExtension_eq, isExtension_eq, nests.property?_union fits found, sharedAnswer?,
    List.forall_mem_cons, hasBrand]
  cases firstBrand : table.property? first extension.brand with
  | none =>
      simp
  | some brand =>
      dsimp only
      by_cases allBranded : ∀ member ∈ rest, table.hasBrand extension member = true
      · have shared :
            (rest.all fun member => (table.property? member extension.brand).isSome) = true :=
          List.all_eq_true.mpr allBranded
        rw [if_pos shared]
        exact (and_iff_left ⟨rfl, allBranded⟩).symm
      · have notShared :
            ¬ (rest.all fun member => (table.property? member extension.brand).isSome) = true :=
          fun shared => allBranded (List.all_eq_true.mp shared)
        rw [if_neg notShared]
        exact iff_of_false Bool.false_ne_true fun both => allBranded both.2.2

theorem isExtension_union_iff
    (nests : table.NestsWithin levels id) (fits : levels ≤ Limits.typeNesting)
    (found : table.get? id = some (.union members)) (nonempty : members ≠ []) :
    (table.isExtension id extension = true ↔
        ∀ member ∈ members, table.isExtension member extension = true) ↔
      ¬ table.ImitationPasses extension members := by
  obtain ⟨first, rest, rfl⟩ := List.exists_cons_of_ne_nil nonempty
  rw [isExtension_union_eq_true_iff nests fits found]
  constructor
  · rintro composes ⟨_, isFirst, firstIsOne, allBranded, member, inMembers, imitates⟩
    have same := Option.some.inj isFirst
    rw [← same] at firstIsOne
    have memberIsOne := composes.mp ⟨firstIsOne, allBranded⟩ member inMembers
    rw [imitates.2] at memberIsOne
    contradiction
  · intro noImitation
    constructor
    · rintro ⟨firstIsOne, allBranded⟩ member inMembers
      by_cases memberIsOne : table.isExtension member extension = true
      · exact memberIsOne
      · have imitates := imitates_of_not_isExtension (allBranded member inMembers) memberIsOne
        exact absurd ⟨first, rfl, firstIsOne, allBranded, member, inMembers, imitates⟩ noImitation
    · intro allAre
      have firstIsOne := allAre first List.mem_cons_self
      exact ⟨firstIsOne, fun member inMembers => hasBrand_of_isExtension (allAre member inMembers)⟩

/-! ## Composite types -/

/-- Recognition is compositional, but for imitations: an alias is an extension just if its target
is. An intersection is one just if some member is, exactly unless an imitation hides that member,
and a union of some members just if every member is, exactly unless an imitation passes for one. -/
theorem isExtension_compositional_iff
    (table : TypeTable) (extension : Extension) (nests : table.NestsWithin levels id)
    (fits : levels ≤ Limits.typeNesting) :
    (∀ label target, table.get? id = some (.alias label target) →
      table.isExtension id extension = table.isExtension target extension) ∧
    (∀ members, table.get? id = some (.intersection members) →
      ((table.isExtension id extension = true ↔
          ∃ member ∈ members, table.isExtension member extension = true) ↔
        ¬ table.ImitationHides extension members)) ∧
    (∀ members, table.get? id = some (.union members) → members ≠ [] →
      ((table.isExtension id extension = true ↔
          ∀ member ∈ members, table.isExtension member extension = true) ↔
        ¬ table.ImitationPasses extension members)) := by
  refine ⟨fun label target found => ?_, fun members found => ?_, fun members found nonempty => ?_⟩
  · rw [isExtension_eq, isExtension_eq, nests.property?_alias fits found]
  · exact isExtension_intersection_iff nests fits found
  · exact isExtension_union_iff nests fits found nonempty

/-! ## A real brand and an imitation -/

/-- A range function (2) and an imitation of one (4), whose brand is a mere string. The imitation
comes first in the intersection (5), and the function comes first in the union (6). -/
def imitation : TypeTable where
  types :=
    #[.uniqueSymbol Extension.markProperty,
      .object [⟨Extension.markProperty, ⟨0⟩⟩] [],
      .object [⟨Extension.rangeFunction.brand, ⟨1⟩⟩] [],
      .intrinsic .string,
      .object [⟨Extension.rangeFunction.brand, ⟨3⟩⟩] [],
      .intersection [⟨4⟩, ⟨2⟩],
      .union [⟨2⟩, ⟨4⟩]]

theorem isExtension_imitation :
    [2, 4, 5, 6].map (fun place => imitation.isExtension ⟨place⟩ .rangeFunction) =
      [true, false, false, true] := by
  decide +kernel

theorem nestsWithin_imitation :
    imitation.NestsWithin 1 ⟨5⟩ ∧ imitation.NestsWithin 1 ⟨6⟩ := by
  have flat : ∀ place < 5, imitation.NestsWithin 0 ⟨place⟩ := by
    intro place bound
    refine .simple fun form found => ?_
    match place with
    | 0 | 1 | 2 | 3 | 4 =>
      obtain rfl := Option.some.inj found
      rfl
    | place + 5 =>
      omega
  have both : ∀ part ∈ [(⟨4⟩ : TypeId), ⟨2⟩], imitation.NestsWithin 0 part := by
    simp [flat]
  have bothInTurn : ∀ part ∈ [(⟨2⟩ : TypeId), ⟨4⟩], imitation.NestsWithin 0 part := by
    simp [flat]
  have intersection : imitation.get? ⟨5⟩ = some (.intersection [⟨4⟩, ⟨2⟩]) := rfl
  have union : imitation.get? ⟨6⟩ = some (.union [⟨2⟩, ⟨4⟩]) := rfl
  exact ⟨.composite intersection both, .composite union bothInTurn⟩

/-- Neither intersections nor unions are recognised by their members alone. -/
theorem not_isExtension_compositional :
    (¬ ∀ (table : TypeTable) (extension : Extension) (levels : Nat) (id : TypeId)
        (members : List TypeId),
      table.NestsWithin levels id → levels ≤ 60 →
        table.get? id = some (.intersection members) →
          (table.isExtension id extension = true ↔
            ∃ member ∈ members, table.isExtension member extension = true)) ∧
    (¬ ∀ (table : TypeTable) (extension : Extension) (levels : Nat) (id : TypeId)
        (members : List TypeId),
      table.NestsWithin levels id → levels ≤ 60 →
        table.get? id = some (.union members) → members ≠ [] →
          (table.isExtension id extension = true ↔
            ∀ member ∈ members, table.isExtension member extension = true)) := by
  have answers := isExtension_imitation
  simp only [List.map_cons, List.map_nil, List.cons.injEq] at answers
  obtain ⟨real, imitated, hidden, passed, _⟩ := answers
  constructor
  · intro composes
    have isOne := (composes imitation .rangeFunction 1 ⟨5⟩ [⟨4⟩, ⟨2⟩] nestsWithin_imitation.1
      (by decide) rfl).mpr ⟨⟨2⟩, by simp, real⟩
    rw [hidden] at isOne
    contradiction
  · intro composes
    have allAre := (composes imitation .rangeFunction 1 ⟨6⟩ [⟨2⟩, ⟨4⟩] nestsWithin_imitation.2
      (by decide) rfl (by simp)).mp passed
    have isOne := allAre ⟨4⟩ (by simp)
    rw [imitated] at isOne
    contradiction

/-- In the intersection the imitation hides the range function, and in the union it passes for
one. -/
theorem isExtension_compositional_iff_imitation :
    imitation.NestsWithin 1 ⟨5⟩ ∧ imitation.NestsWithin 1 ⟨6⟩ ∧ 1 ≤ Limits.typeNesting ∧
      imitation.ImitationHides .rangeFunction [⟨4⟩, ⟨2⟩] ∧
        imitation.ImitationPasses .rangeFunction [⟨2⟩, ⟨4⟩] := by
  have answers := isExtension_imitation
  simp only [List.map_cons, List.map_nil, List.cons.injEq] at answers
  obtain ⟨real, imitated, hidden, passed, _⟩ := answers
  obtain ⟨intersectionNests, unionNests⟩ := nestsWithin_imitation
  have fits : 1 ≤ Limits.typeNesting := by decide
  refine ⟨intersectionNests, unionNests, fits, ?_, ?_⟩
  · have exactly := (isExtension_compositional_iff imitation .rangeFunction intersectionNests
      fits).2.1 [⟨4⟩, ⟨2⟩] rfl
    refine Classical.byContradiction fun notHidden => ?_
    have isOne := (exactly.mpr notHidden).mpr ⟨⟨2⟩, by simp, real⟩
    rw [hidden] at isOne
    contradiction
  · have exactly := (isExtension_compositional_iff imitation .rangeFunction unionNests
      fits).2.2 [⟨2⟩, ⟨4⟩] rfl (by simp)
    refine Classical.byContradiction fun notPassed => ?_
    have isOne := (exactly.mpr notPassed).mp passed ⟨4⟩ (by simp)
    rw [imitated] at isOne
    contradiction

end NameLowering.TypeTable
