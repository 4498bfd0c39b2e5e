import Mathlib.Logic.Relation
import NameLowering.Proofs.Types.Aliases
import NameLowering.Proofs.Types.Nesting

/-!
# The rules of property lookups

What a lookup of a property should find, said by rules without a bound on the links followed. Where
types nest no deeper than the limit, the lookup finds just that. Anywhere else it may find nothing
instead, but what it finds is the type of a property of some object that the links lead to, and the
rules say that there is such a property.
-/

namespace NameLowering

/-! ## The rules -/

/-- What a form answers to a lookup of a property, given what the types that it links to resolve
to. -/
inductive TypeForm.Gives (name : String) (resolves : TypeId → Option TypeId → Prop) :
    TypeForm → Option TypeId → Prop
  | intrinsic {type : Intrinsic} :
      Gives name resolves (.intrinsic type) none
  | uniqueSymbol {description : String} :
      Gives name resolves (.uniqueSymbol description) none
  | function {parameters : List TypeId} {result : TypeId} {annotations : List Annotation} :
      Gives name resolves (.function parameters result annotations) none
  /-- The first property of the name counts. -/
  | property
      {earlier later : List Property} {property : Property} {annotations : List Annotation}
      (others : ∀ other ∈ earlier, other.name ≠ name) (named : property.name = name) :
      Gives name resolves (.object (earlier ++ property :: later) annotations)
        (some property.type)
  | noProperty
      {properties : List Property} {annotations : List Annotation}
      (others : ∀ property ∈ properties, property.name ≠ name) :
      Gives name resolves (.object properties annotations) none
  | target
      {label : String} {target : TypeId} {answer : Option TypeId}
      (ofTarget : resolves target answer) :
      Gives name resolves (.alias label target) answer
  /-- The first member with the property counts. -/
  | someMember
      {earlier later : List TypeId} {member type : TypeId}
      (others : ∀ other ∈ earlier, resolves other none)
      (ofMember : resolves member (some type)) :
      Gives name resolves (.intersection (earlier ++ member :: later)) (some type)
  | noMember
      {members : List TypeId} (others : ∀ member ∈ members, resolves member none) :
      Gives name resolves (.intersection members) none
  /-- The first member counts, if every member has the property. -/
  | everyMember
      {first : TypeId} {rest : List TypeId} {types : TypeId → TypeId}
      (ofMembers : ∀ member ∈ first :: rest, resolves member (some (types member))) :
      Gives name resolves (.union (first :: rest)) (some (types first))
  | emptyUnion :
      Gives name resolves (.union []) none
  | notEveryMember
      {members : List TypeId} {member : TypeId} (inMembers : member ∈ members)
      (ofMember : resolves member none) :
      Gives name resolves (.union members) none

namespace TypeTable

/-- What the lookup of a property resolves to, if nothing bounds the links that it follows. -/
inductive Resolves (table : TypeTable) (name : String) : TypeId → Option TypeId → Prop
  | missing
      {id : TypeId} (missing : table.get? id = none) :
      Resolves table name id none
  | form
      {id : TypeId} {form : TypeForm} {answer : Option TypeId}
      (found : table.get? id = some form) (gives : form.Gives name (Resolves table name) answer) :
      Resolves table name id answer

/-- The rules say that a type has a property: an object if it lists one, an alias if its target has
it, an intersection if some member has it, and a union if it has members and all have it. -/
inductive HasProperty (table : TypeTable) (name : String) : TypeId → Prop
  | object
      {id : TypeId} {properties : List Property} {annotations : List Annotation}
      {property : Property}
      (found : table.get? id = some (.object properties annotations))
      (listed : property ∈ properties) (named : property.name = name) :
      HasProperty table name id
  | target
      {id target : TypeId} {label : String}
      (found : table.get? id = some (.alias label target))
      (ofTarget : HasProperty table name target) :
      HasProperty table name id
  | someMember
      {id member : TypeId} {members : List TypeId}
      (found : table.get? id = some (.intersection members)) (inMembers : member ∈ members)
      (ofMember : HasProperty table name member) :
      HasProperty table name id
  | everyMember
      {id : TypeId} {members : List TypeId}
      (found : table.get? id = some (.union members)) (nonempty : members ≠ [])
      (ofMembers : ∀ member ∈ members, HasProperty table name member) :
      HasProperty table name id

/-- Lookups go on from the one type to the other. -/
def LinksTo (table : TypeTable) (id part : TypeId) : Prop :=
  ∃ form, table.get? id = some form ∧ part ∈ form.parts

/-! ## Answers shared by all members -/

theorem sharedAnswer?_of_forall
    {answer? : TypeId → Option TypeId} {types : TypeId → TypeId} {first : TypeId}
    {rest : List TypeId}
    (ofMembers : ∀ member ∈ first :: rest, answer? member = some (types member)) :
    sharedAnswer? answer? (first :: rest) = some (types first) := by
  have ofFirst : answer? first = some (types first) := ofMembers first List.mem_cons_self
  have ofRest : (rest.all fun member => (answer? member).isSome) = true := by
    rw [List.all_eq_true]
    intro member inRest
    rw [ofMembers member (List.mem_cons_of_mem first inRest), Option.isSome_some]
  simp only [sharedAnswer?, ofFirst, ofRest, if_true]

theorem sharedAnswer?_of_mem
    {answer? : TypeId → Option TypeId} {members : List TypeId} {member : TypeId}
    (inMembers : member ∈ members) (ofMember : answer? member = none) :
    sharedAnswer? answer? members = none := by
  cases members with
  | nil =>
      rfl
  | cons first rest =>
      cases ofFirst : answer? first with
      | none =>
          simp only [sharedAnswer?, ofFirst]
      | some type =>
          have inRest : member ∈ rest := by
            rcases List.mem_cons.mp inMembers with rfl | inRest
            · rw [ofMember] at ofFirst
              contradiction
            · exact inRest
          have lacking : ¬ (rest.all fun member => (answer? member).isSome) = true := by
            rw [List.all_eq_true]
            intro all
            have someAnswer := all member inRest
            rw [ofMember] at someAnswer
            contradiction
          simp only [sharedAnswer?, ofFirst]
          exact if_neg lacking

end TypeTable

/-! ## The rules for each form -/

namespace TypeForm

variable {name : String} {resolves : TypeId → Option TypeId → Prop}
  {answer? : TypeId → Option TypeId} {answer : Option TypeId}

theorem gives_object_iff {properties : List Property} {annotations : List Annotation} :
    Gives name resolves (.object properties annotations) answer ↔
      (properties.find? (·.name == name)).map Property.type = answer := by
  constructor
  · intro gives
    cases gives with
    | @property earlier later property _ others named =>
        have first :
            (earlier ++ property :: later).find? (·.name == name) = some property := by
          rw [List.find?_eq_some_iff_append]
          exact ⟨by simpa using named, earlier, later, rfl, by simpa using others⟩
        rw [first, Option.map_some]
    | noProperty others =>
        have unlisted : properties.find? (·.name == name) = none := by
          simpa using others
        rw [unlisted, Option.map_none]
  · rintro rfl
    cases search : properties.find? (·.name == name) with
    | none =>
        exact .noProperty (by simpa using search)
    | some property =>
        obtain ⟨named, earlier, later, rfl, others⟩ := List.find?_eq_some_iff_append.mp search
        exact .property (by simpa using others) (by simpa using named)

theorem gives_alias_iff {label : String} {target : TypeId} :
    Gives name resolves (.alias label target) answer ↔ resolves target answer := by
  constructor
  · intro gives
    cases gives with
    | target ofTarget =>
        exact ofTarget
  · exact .target

theorem gives_intersection_iff {members : List TypeId} :
    Gives name (fun part answer => answer? part = answer) (.intersection members) answer ↔
      members.findSome? answer? = answer := by
  constructor
  · intro gives
    cases gives with
    | someMember others ofMember =>
        exact List.findSome?_eq_some_iff.mpr ⟨_, _, _, rfl, ofMember, others⟩
    | noMember others =>
        exact List.findSome?_eq_none_iff.mpr others
  · rintro rfl
    cases search : members.findSome? answer? with
    | none =>
        exact .noMember (List.findSome?_eq_none_iff.mp search)
    | some type =>
        obtain ⟨earlier, member, later, rfl, ofMember, others⟩ :=
          List.findSome?_eq_some_iff.mp search
        exact .someMember others ofMember

theorem gives_union_iff {members : List TypeId} :
    Gives name (fun part answer => answer? part = answer) (.union members) answer ↔
      TypeTable.sharedAnswer? answer? members = answer := by
  constructor
  · intro gives
    cases gives with
    | everyMember ofMembers =>
        exact TypeTable.sharedAnswer?_of_forall ofMembers
    | emptyUnion =>
        rfl
    | notEveryMember inMembers ofMember =>
        exact TypeTable.sharedAnswer?_of_mem inMembers ofMember
  · rintro rfl
    by_cases lacking : ∃ member ∈ members, answer? member = none
    · obtain ⟨member, inMembers, ofMember⟩ := lacking
      rw [TypeTable.sharedAnswer?_of_mem inMembers ofMember]
      exact .notEveryMember inMembers ofMember
    · cases members with
      | nil =>
          exact .emptyUnion
      | cons first rest =>
          obtain ⟨types, ofMembers⟩ : ∃ types : TypeId → TypeId,
              ∀ member ∈ first :: rest, answer? member = some (types member) := by
            refine ⟨fun member => (answer? member).getD first, fun member inMembers => ?_⟩
            cases ofMember : answer? member with
            | none =>
                exact absurd ⟨member, inMembers, ofMember⟩ lacking
            | some type =>
                simp [ofMember]
          rw [TypeTable.sharedAnswer?_of_forall ofMembers]
          exact .everyMember ofMembers

/-- What a form gives depends on what its parts resolve to. -/
theorem Gives.mono
    {other : TypeId → Option TypeId → Prop} {form : TypeForm}
    (gives : form.Gives name resolves answer)
    (agree : ∀ part ∈ form.parts, ∀ answer, resolves part answer → other part answer) :
    form.Gives name other answer := by
  cases gives with
  | intrinsic =>
      exact .intrinsic
  | uniqueSymbol =>
      exact .uniqueSymbol
  | function =>
      exact .function
  | property others named =>
      exact .property others named
  | noProperty others =>
      exact .noProperty others
  | target ofTarget =>
      exact .target (agree _ List.mem_cons_self _ ofTarget)
  | someMember others ofMember =>
      refine .someMember (fun part earlier => ?_) (agree _ (by simp [parts]) _ ofMember)
      exact agree part (List.mem_append_left _ earlier) _ (others part earlier)
  | noMember others =>
      exact .noMember fun member inMembers => agree member inMembers _ (others member inMembers)
  | everyMember ofMembers =>
      exact .everyMember fun member inMembers =>
        agree member inMembers _ (ofMembers member inMembers)
  | emptyUnion =>
      exact .emptyUnion
  | notEveryMember inMembers ofMember =>
      exact .notEveryMember inMembers (agree _ inMembers _ ofMember)

theorem gives_congr
    {other : TypeId → Option TypeId → Prop} {form : TypeForm}
    (agree : ∀ part ∈ form.parts, ∀ answer, resolves part answer ↔ other part answer) :
    form.Gives name resolves answer ↔ form.Gives name other answer := by
  constructor
  · intro gives
    exact gives.mono fun part isPart answer => (agree part isPart answer).mp
  · intro gives
    exact gives.mono fun part isPart answer => (agree part isPart answer).mpr

end TypeForm

namespace TypeTable

variable {table : TypeTable} {name : String} {levels bound : Nat} {id type : TypeId}
  {form : TypeForm} {answer : Option TypeId}

/-- One level of a lookup follows the rules, given the lookups with one level less. -/
theorem gives_iff_propertyWithin?_eq (found : table.get? id = some form) :
    form.Gives name (fun part answer => table.propertyWithin? name levels part = answer) answer ↔
      table.propertyWithin? name (levels + 1) id = answer := by
  cases form with
  | intrinsic | uniqueSymbol | function =>
      simp only [propertyWithin?, found]
      constructor
      · intro gives
        cases gives
        rfl
      · rintro rfl
        constructor
  | object =>
      simp only [propertyWithin?, found]
      exact TypeForm.gives_object_iff
  | «alias» =>
      simp only [propertyWithin?, found]
      exact TypeForm.gives_alias_iff
  | intersection =>
      simp only [propertyWithin?, found]
      exact TypeForm.gives_intersection_iff
  | union =>
      simp only [propertyWithin?, found]
      exact TypeForm.gives_union_iff

/-! ## Within the limit -/

theorem resolves_iff_gives (found : table.get? id = some form) :
    table.Resolves name id answer ↔ form.Gives name (table.Resolves name) answer := by
  constructor
  · intro resolves
    cases resolves with
    | missing missing =>
        rw [found] at missing
        contradiction
    | form otherFound gives =>
        obtain rfl := Option.some.inj (found.symm.trans otherFound)
        exact gives
  · exact .form found

theorem resolves_iff_of_missing (missing : table.get? id = none) :
    table.Resolves name id answer ↔ none = answer := by
  constructor
  · intro resolves
    cases resolves with
    | missing =>
        rfl
    | form found gives =>
        rw [missing] at found
        contradiction
  · rintro rfl
    exact .missing missing

/-- A lookup with more levels than the type is nested in finds what the rules say. -/
theorem NestsWithin.resolves_iff
    (nests : table.NestsWithin levels id) (enough : levels < bound) :
    table.Resolves name id answer ↔ table.propertyWithin? name bound id = answer := by
  obtain ⟨bound, rfl⟩ : ∃ fewer, bound = fewer + 1 := ⟨bound - 1, by omega⟩
  induction nests generalizing bound answer with
  | @simple levels id flat =>
      cases found : table.get? id with
      | none =>
          rw [resolves_iff_of_missing found]
          simp only [propertyWithin?, found]
      | some form =>
          rw [resolves_iff_gives found, ← gives_iff_propertyWithin?_eq found]
          refine TypeForm.gives_congr fun part isPart => ?_
          rw [flat form found] at isPart
          contradiction
  | @composite levels id form found inner inductionHypothesis =>
      rw [resolves_iff_gives found, ← gives_iff_propertyWithin?_eq found]
      refine TypeForm.gives_congr fun part isPart answer => ?_
      obtain ⟨bound, rfl⟩ : ∃ fewer, bound = fewer + 1 := ⟨bound - 1, by omega⟩
      exact inductionHypothesis part isPart bound (by omega)

/-! ## Beyond the limit -/

/-- What a lookup finds is a property of an object that the links lead to. -/
theorem exists_object_of_propertyWithin?
    (answered : table.propertyWithin? name levels id = some type) :
    ∃ object properties annotations,
      Relation.ReflTransGen table.LinksTo id object ∧
        table.get? object = some (.object properties annotations) ∧
          ⟨name, type⟩ ∈ properties := by
  induction levels generalizing id type with
  | zero =>
      contradiction
  | succ levels inductionHypothesis =>
      cases found : table.get? id with
      | none =>
          simp [propertyWithin?, found] at answered
      | some form =>
          have onwards (part : TypeId) (isPart : part ∈ form.parts)
              (partAnswered : table.propertyWithin? name levels part = some type) :
              ∃ object properties annotations,
                Relation.ReflTransGen table.LinksTo id object ∧
                  table.get? object = some (.object properties annotations) ∧
                    ⟨name, type⟩ ∈ properties := by
            obtain ⟨object, properties, annotations, reached, isObject, listed⟩ :=
              inductionHypothesis partAnswered
            exact ⟨object, properties, annotations, .head ⟨form, found, isPart⟩ reached, isObject,
              listed⟩
          have gives := (gives_iff_propertyWithin?_eq found).mpr answered
          cases gives with
          | @property earlier later property annotations others named =>
              subst named
              exact ⟨id, _, _, .refl, found, by simp⟩
          | target ofTarget =>
              exact onwards _ List.mem_cons_self ofTarget
          | someMember others ofMember =>
              exact onwards _ (by simp [TypeForm.parts]) ofMember
          | everyMember ofMembers =>
              exact onwards _ List.mem_cons_self (ofMembers _ List.mem_cons_self)

/-- Where a lookup finds something, the rules say that there is a property. -/
theorem hasProperty_of_propertyWithin?
    (answered : table.propertyWithin? name levels id = some type) :
    table.HasProperty name id := by
  induction levels generalizing id type with
  | zero =>
      contradiction
  | succ levels inductionHypothesis =>
      cases found : table.get? id with
      | none =>
          simp [propertyWithin?, found] at answered
      | some form =>
          have gives := (gives_iff_propertyWithin?_eq found).mpr answered
          cases gives with
          | @property earlier later property annotations others named =>
              exact .object found (by simp) named
          | target ofTarget =>
              exact .target found (inductionHypothesis ofTarget)
          | someMember others ofMember =>
              exact .someMember found (by simp) (inductionHypothesis ofMember)
          | everyMember ofMembers =>
              exact .everyMember found (List.cons_ne_nil _ _) fun member inMembers =>
                inductionHypothesis (ofMembers member inMembers)

/-- A lookup that finds nothing does not find more with fewer levels. -/
theorem propertyWithin?_eq_none_of_le
    {fewer : Nat} (unanswered : table.propertyWithin? name levels id = none)
    (enough : fewer ≤ levels) :
    table.propertyWithin? name fewer id = none := by
  induction fewer generalizing levels id with
  | zero =>
      rfl
  | succ fewer inductionHypothesis =>
      obtain ⟨levels, rfl⟩ : ∃ rest, levels = rest + 1 := ⟨levels - 1, by omega⟩
      have enoughOnwards : fewer ≤ levels := Nat.le_of_succ_le_succ enough
      cases found : table.get? id with
      | none =>
          simp only [propertyWithin?, found]
      | some form =>
          -- A rule without an answer asks for nothing but missing answers of the parts.
          have gives := (gives_iff_propertyWithin?_eq found).mpr unanswered
          refine (gives_iff_propertyWithin?_eq found).mp ?_
          cases gives with
          | intrinsic =>
              exact .intrinsic
          | uniqueSymbol =>
              exact .uniqueSymbol
          | function =>
              exact .function
          | noProperty others =>
              exact .noProperty others
          | target ofTarget =>
              exact .target (inductionHypothesis ofTarget enoughOnwards)
          | noMember others =>
              exact .noMember fun member inMembers =>
                inductionHypothesis (others member inMembers) enoughOnwards
          | emptyUnion =>
              exact .emptyUnion
          | notEveryMember inMembers ofMember =>
              exact .notEveryMember inMembers (inductionHypothesis ofMember enoughOnwards)

theorem Behind.hasProperty
    {base : TypeId} {aliases : Nat} (behind : table.Behind base aliases id)
    (atBase : table.HasProperty name base) :
    table.HasProperty name id := by
  induction behind with
  | itself =>
      exact atBase
  | through found rest inductionHypothesis =>
      exact .target found inductionHypothesis

/-- An object with one property, below one alias more than the limit. -/
def hiddenProperty (name : String) : TypeTable :=
  aliasTowers [.object [⟨name, ⟨0⟩⟩] []] (Limits.typeNesting + 1)

theorem behind_hiddenProperty (name : String) :
    (hiddenProperty name).Behind ⟨0⟩ (Limits.typeNesting + 1) ⟨Limits.typeNesting + 1⟩ := by
  have behind :
      (hiddenProperty name).Behind ⟨0⟩ (Limits.typeNesting + 1)
        ⟨0 + (Limits.typeNesting + 1) * 1⟩ :=
    behind_aliasTowers Nat.one_pos (Nat.le_refl _)
  rwa [Nat.mul_one, Nat.zero_add] at behind

theorem hasProperty_hiddenProperty (name : String) :
    (hiddenProperty name).HasProperty name ⟨Limits.typeNesting + 1⟩ := by
  have atBase : (hiddenProperty name).get? ⟨0⟩ = some (.object [⟨name, ⟨0⟩⟩] []) :=
    get?_aliasTowers_of_lt Nat.one_pos
  exact (behind_hiddenProperty name).hasProperty
    (.object atBase (List.mem_singleton_self _) rfl)

theorem property?_hiddenProperty (name : String) :
    (hiddenProperty name).property? ⟨Limits.typeNesting + 1⟩ name = none :=
  (seesThrough_propertyWithin? _ name).resolve_of_le (behind_hiddenProperty name) (Nat.le_refl _)

/-- For types that are nested no deeper than the limit, the lookup of a property finds just what the
rules say. For all types, what it finds is the type of a property of some object that the links lead
to, and the rules say that there is such a property; but a property that the rules give may be
missed. -/
theorem property?_resolves (table : TypeTable) (name : String) :
    (∀ id levels, table.NestsWithin levels id → levels ≤ Limits.typeNesting →
      ∀ answer, table.Resolves name id answer ↔ table.property? id name = answer) ∧
    (∀ id type, table.property? id name = some type →
      (∃ object properties annotations,
        Relation.ReflTransGen table.LinksTo id object ∧
          table.get? object = some (.object properties annotations) ∧
            ⟨name, type⟩ ∈ properties) ∧
        table.HasProperty name id) ∧
    (∃ (deep : TypeTable) (id : TypeId),
      deep.HasProperty name id ∧ deep.property? id name = none) := by
  refine ⟨?_, ?_, ?_⟩
  · intro id levels nests fits answer
    exact nests.resolves_iff (Nat.lt_succ_of_le fits)
  · intro id type answered
    exact ⟨exists_object_of_propertyWithin? answered, hasProperty_of_propertyWithin? answered⟩
  · exact ⟨_, _, hasProperty_hiddenProperty name, property?_hiddenProperty name⟩

/-! ## An alias, an intersection and a union -/

/-- An alias (6) of an intersection (5), of which the second member is a union (4) of two objects
with a property of one name but of different types. -/
def layered : TypeTable where
  types :=
    #[.intrinsic .string,
      .intrinsic .number,
      .object [⟨"x", ⟨0⟩⟩] [],
      .object [⟨"x", ⟨1⟩⟩] [],
      .union [⟨3⟩, ⟨2⟩],
      .intersection [⟨0⟩, ⟨4⟩, ⟨2⟩],
      .alias "A" ⟨5⟩]

theorem nestsWithin_layered : layered.NestsWithin 3 ⟨6⟩ := by
  have flat (levels : Nat) : ∀ place < 4, layered.NestsWithin levels ⟨place⟩ := by
    intro place bound
    refine .simple fun form found => ?_
    match place with
    | 0 | 1 | 2 | 3 =>
      obtain rfl := Option.some.inj found
      rfl
    | place + 4 =>
      omega
  have union : layered.get? ⟨4⟩ = some (.union [⟨3⟩, ⟨2⟩]) := rfl
  have nestedUnion : layered.NestsWithin 1 ⟨4⟩ :=
    .composite union (by simp [TypeForm.parts, flat])
  have intersection : layered.get? ⟨5⟩ = some (.intersection [⟨0⟩, ⟨4⟩, ⟨2⟩]) := rfl
  have nestedIntersection : layered.NestsWithin 2 ⟨5⟩ :=
    .composite intersection (by simp [TypeForm.parts, flat, nestedUnion])
  have outermost : layered.get? ⟨6⟩ = some (.alias "A" ⟨5⟩) := rfl
  exact .composite outermost (by simp [TypeForm.parts, nestedIntersection])

/-- The first member of the union decides. -/
theorem property?_resolves_layered :
    layered.NestsWithin 3 ⟨6⟩ ∧ 3 ≤ Limits.typeNesting ∧
      layered.Resolves "x" ⟨6⟩ (some ⟨1⟩) ∧ layered.HasProperty "x" ⟨6⟩ := by
  have fits : 3 ≤ Limits.typeNesting := by decide
  have answered : layered.property? ⟨6⟩ "x" = some ⟨1⟩ := by decide +kernel
  obtain ⟨within, beyond, _⟩ := property?_resolves layered "x"
  exact ⟨nestsWithin_layered, fits, (within ⟨6⟩ 3 nestsWithin_layered fits _).mpr answered,
    (beyond ⟨6⟩ ⟨1⟩ answered).2⟩

end TypeTable

end NameLowering
