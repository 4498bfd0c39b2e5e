import Mathlib.Data.List.Nodup
import NameLowering.Proofs.Types.Growth

/-!
# Branded types

A branded type is the intersection of a base with an object that holds the brand of an extension.
It is recognised as that extension and as no other, unless the base has a brand of its own. It can
be wrapped in aliases and in intersections with types without brands, as long as a lookup still gets
from the outermost type to the brand. The types that were there before are not affected.
-/

namespace NameLowering

/-! ## Brands tell extensions apart -/

theorem Extension.mem_all (extension : Extension) : extension ∈ Extension.all := by
  cases extension with
  | operator operator form =>
      cases operator <;> cases form <;> decide
  | tableGet form | tableSet form =>
      cases form <;> decide
  | multiFunction | multiType | rangeFunction | iterableType | tableNew =>
      decide

theorem Extension.brand_injective : Function.Injective Extension.brand := by
  have different : (Extension.all.map Extension.brand).Nodup := by
    decide +kernel
  intro first second sameBrand
  exact List.inj_on_of_nodup_map different first.mem_all second.mem_all sameBrand

namespace TypeTable

/-- No brand of an extension is found on a type. -/
def Unbranded (table : TypeTable) (id : TypeId) : Prop :=
  ∀ extension : Extension, table.property? id extension.brand = none

/-- A type is the intersection of a base with an object that holds the brand of an extension. -/
inductive IsBranding (table : TypeTable) (extension : Extension) (base : TypeId) : TypeId → Prop
  | intro
      {id mark brand branded : TypeId}
      (isMark : table.get? mark = some (.uniqueSymbol Extension.markProperty))
      (isBrand : table.get? brand = some (.object [⟨Extension.markProperty, mark⟩] []))
      (isBranded : table.get? branded = some (.object [⟨extension.brand, brand⟩] []))
      (isIntersection : table.get? id = some (.intersection [base, branded])) :
      IsBranding table extension base id

/-- A type leads to `core` through a number of aliases and of intersections with types that have no
brands. -/
inductive Wraps (table : TypeTable) (core : TypeId) : (layers : Nat) → TypeId → Prop
  | itself : Wraps table core 0 core
  | inAlias
      {layers : Nat} {id inner : TypeId} {label : String}
      (found : table.get? id = some (.alias label inner))
      (rest : Wraps table core layers inner) :
      Wraps table core (layers + 1) id
  | inIntersection
      {layers : Nat} {id inner : TypeId} {before after : List TypeId}
      (found : table.get? id = some (.intersection (before ++ inner :: after)))
      (unbranded : ∀ other ∈ before ++ after, table.Unbranded other)
      (rest : Wraps table core layers inner) :
      Wraps table core (layers + 1) id

variable {table later : TypeTable} {extension : Extension} {base core id : TypeId}
  {layers levels : Nat}

/-! ## Lookups of brands -/

theorem Unbranded.propertyWithin?_eq_none
    (unbranded : table.Unbranded id) (extension : Extension)
    (fits : levels ≤ Limits.typeNesting + 1) :
    table.propertyWithin? extension.brand levels id = none :=
  propertyWithin?_eq_none_of_le (unbranded extension) fits

theorem Unbranded.of_extends
    (unbranded : table.Unbranded id) (closed : table.Closed) (grows : table.Extends later)
    (held : table.Holds id) :
    later.Unbranded id := by
  intro extension
  rw [closed.property?_eq grows extension.brand held]
  exact unbranded extension

theorem findSome?_of_others
    {answer? : TypeId → Option TypeId} {before after : List TypeId} (inner : TypeId)
    (others : ∀ other ∈ before ++ after, answer? other = none) :
    (before ++ inner :: after).findSome? answer? = answer? inner := by
  have ofBefore : before.findSome? answer? = none :=
    List.findSome?_eq_none_iff.mpr fun other isBefore =>
      others other (List.mem_append_left after isBefore)
  have ofAfter : after.findSome? answer? = none :=
    List.findSome?_eq_none_iff.mpr fun other isAfter =>
      others other (List.mem_append_right before isAfter)
  rw [List.findSome?_append, List.findSome?_cons, ofBefore, ofAfter, Option.none_or]
  cases answer? inner <;> rfl

/-- Members without brands do not get in the way of the one that may have some. -/
theorem propertyWithin?_intersection
    {inner : TypeId} {before after : List TypeId}
    (found : table.get? id = some (.intersection (before ++ inner :: after)))
    (unbranded : ∀ other ∈ before ++ after, table.Unbranded other) (extension : Extension)
    (fits : levels ≤ Limits.typeNesting + 1) :
    table.propertyWithin? extension.brand (levels + 1) id =
      table.propertyWithin? extension.brand levels inner := by
  rw [propertyWithin?]
  simp only [found]
  apply findSome?_of_others
  -- The others are looked at with fewer levels than on their own, which finds no more.
  intro other isOther
  exact (unbranded other isOther).propertyWithin?_eq_none extension fits

/-- Each layer takes one level of a lookup of brands, and changes nothing else. -/
theorem Wraps.propertyWithin?_add
    (wraps : table.Wraps core layers id) (extension : Extension)
    (fits : layers + levels ≤ Limits.typeNesting + 1) :
    table.propertyWithin? extension.brand (layers + levels) id =
      table.propertyWithin? extension.brand levels core := by
  induction wraps with
  | itself =>
      rw [Nat.zero_add]
  | @inAlias layers id inner label found rest inductionHypothesis =>
      rw [Nat.add_right_comm] at fits ⊢
      rw [← inductionHypothesis (Nat.le_of_succ_le fits), propertyWithin?]
      simp only [found]
  | @inIntersection layers id inner before after found unbranded rest inductionHypothesis =>
      rw [Nat.add_right_comm] at fits ⊢
      have enough : layers + levels ≤ Limits.typeNesting + 1 := Nat.le_of_succ_le fits
      rw [propertyWithin?_intersection found unbranded extension enough]
      exact inductionHypothesis enough

theorem isMarked_of_mark
    {mark brand : TypeId}
    (isMark : table.get? mark = some (.uniqueSymbol Extension.markProperty))
    (isBrand : table.get? brand = some (.object [⟨Extension.markProperty, mark⟩] [])) :
    table.isMarked brand = true := by
  have markFound : table.property? brand Extension.markProperty = some mark := by
    simp [property?, propertyWithin?, isBrand]
  have markUnique : table.isUniqueSymbol mark = true := by
    simp [isUniqueSymbol, Limits.typeNesting, isUniqueSymbolWithin, isMark]
  rw [isMarked, markFound, Option.any_some, markUnique]

theorem propertyWithin?_branded
    {brand branded : TypeId}
    (isBranded : table.get? branded = some (.object [⟨extension.brand, brand⟩] []))
    (other : Extension) :
    table.propertyWithin? other.brand (levels + 1) branded =
      if other = extension then some brand else none := by
  by_cases same : other = extension
  · subst same
    simp [propertyWithin?, isBranded]
  · have otherBrand : extension.brand ≠ other.brand := by
      intro sameBrand
      exact same (Extension.brand_injective sameBrand).symm
    simp [propertyWithin?, isBranded, same, otherBrand]

/-- The only brand of a branded type is that of the extension. -/
theorem IsBranding.propertyWithin?_eq
    (branding : table.IsBranding extension base core) (unbranded : table.Unbranded base) :
    ∃ brand, table.isMarked brand = true ∧
      ∀ (other : Extension) (levels : Nat), levels + 2 ≤ Limits.typeNesting + 1 →
        table.propertyWithin? other.brand (levels + 2) core =
          if other = extension then some brand else none := by
  cases branding with
  | @intro mark brand branded isMark isBrand isBranded isIntersection =>
      refine ⟨brand, isMarked_of_mark isMark isBrand, ?_⟩
      intro other levels fits
      have onlyBase : ∀ one ∈ [base] ++ [], table.Unbranded one := by
        simpa using unbranded
      rw [propertyWithin?_intersection isIntersection onlyBase other (Nat.le_of_succ_le fits)]
      exact propertyWithin?_branded isBranded other

/-! ## Recognition -/

theorem extension?_eq_some
    (onlyOne : ∀ other, table.isExtension id other = true ↔ other = extension) :
    table.extension? id = some extension := by
  cases search : table.extension? id with
  | none =>
      have unrecognised := List.find?_eq_none.mp search extension extension.mem_all
      exact absurd ((onlyOne extension).mpr rfl) unrecognised
  | some other =>
      rw [(onlyOne other).mp (List.find?_some search)]

/-- A branded type is recognised through as many layers as a lookup sees through, but for the last
one, which leads to the brand. -/
theorem IsBranding.extension?_eq
    (branding : table.IsBranding extension base core) (unbranded : table.Unbranded base)
    (wraps : table.Wraps core layers id) (fits : layers < Limits.typeNesting) :
    table.extension? id = some extension := by
  obtain ⟨brand, marked, brandOfCore⟩ := branding.propertyWithin?_eq unbranded
  -- Below the layers, a lookup needs a level for the intersection and one for the branded object.
  obtain ⟨levels, allLevels⟩ : ∃ levels, Limits.typeNesting + 1 = layers + (levels + 2) :=
    ⟨Limits.typeNesting - layers - 1, by omega⟩
  apply extension?_eq_some
  intro other
  have brandFound :
      table.property? id other.brand = if other = extension then some brand else none := by
    rw [property?, allLevels, wraps.propertyWithin?_add other (Nat.le_of_eq allLevels.symm)]
    exact brandOfCore other levels (by omega)
  rw [isExtension_eq, brandFound]
  by_cases same : other = extension
  · rw [if_pos same, Option.any_some]
    exact iff_of_true marked same
  · rw [if_neg same, Option.any_none]
    exact iff_of_false Bool.false_ne_true same

/-! ## The constructor -/

theorem IsBranding.of_extends
    (branding : table.IsBranding extension base id) (grows : table.Extends later) :
    later.IsBranding extension base id := by
  cases branding with
  | intro isMark isBrand isBranded isIntersection =>
      exact .intro (grows _ _ isMark) (grows _ _ isBrand) (grows _ _ isBranded)
        (grows _ _ isIntersection)

theorem extends_addExtension (table : TypeTable) (extension : Extension) (base : TypeId) :
    table.Extends (table.addExtension extension base).2 :=
  (table.extends_add _).trans ((extends_add _ _).trans
    ((extends_add _ _).trans (extends_add _ _)))

theorem isBranding_addExtension (table : TypeTable) (extension : Extension) (base : TypeId) :
    (table.addExtension extension base).2.IsBranding extension base
      (table.addExtension extension base).1 :=
  .intro
    (((extends_add _ _).trans ((extends_add _ _).trans (extends_add _ _))) _ _
      (table.get?_add (.uniqueSymbol Extension.markProperty)))
    (((extends_add _ _).trans (extends_add _ _)) _ _ (get?_add _ _))
    (extends_add _ _ _ _ (get?_add _ _))
    (get?_add _ _)

/-- Branding a type without brands makes a type of the extension, and it stays one when it is
wrapped in fewer layers than the limit says, whatever else is added to the table meanwhile. The
types that were there before stay what they were. -/
theorem extension?_addExtension
    (closed : table.Closed) (extension : Extension) (base : TypeId) :
    (table.Holds base → table.Unbranded base →
      (table.addExtension extension base).2.extension? (table.addExtension extension base).1 =
          some extension ∧
        ∀ later, (table.addExtension extension base).2.Extends later →
          ∀ layers id, later.Wraps (table.addExtension extension base).1 layers id →
            layers < Limits.typeNesting → later.extension? id = some extension) ∧
    (∀ id, table.Holds id →
      (table.addExtension extension base).2.extension? id = table.extension? id ∧
        (table.addExtension extension base).2.isUniqueSymbol id = table.isUniqueSymbol id ∧
          (table.addExtension extension base).2.annotations id = table.annotations id) := by
  have branding := isBranding_addExtension table extension base
  have grows := extends_addExtension table extension base
  constructor
  · intro held unbranded
    have recognised (later : TypeTable)
        (growsOn : (table.addExtension extension base).2.Extends later) (layers : Nat)
        (id : TypeId) (wraps : later.Wraps (table.addExtension extension base).1 layers id)
        (fits : layers < Limits.typeNesting) :
        later.extension? id = some extension :=
      (branding.of_extends growsOn).extension?_eq
        (unbranded.of_extends closed (grows.trans growsOn) held) wraps fits
    exact ⟨recognised _ (fun _ _ found => found) 0 _ .itself (by decide), recognised⟩
  · intro id held
    exact ⟨closed.extension?_eq grows held, closed.isUniqueSymbolWithin_eq grows held,
      closed.collectAnnotations_eq grows held []⟩

/-! ## A wrapped range function -/

/-- A number (0) and an object (1). -/
def plain : TypeTable where
  types := #[.intrinsic .number, .object [⟨"x", ⟨0⟩⟩] [.forRange]]

/-- The object branded as a range function (5), an intersection of it with the number (6), and an
alias of that (7). -/
def wrapped : TypeTable :=
  let (core, branded) := plain.addExtension .rangeFunction ⟨1⟩
  let (both, branded) := branded.add (.intersection [⟨0⟩, core])
  (branded.add (.alias "A" both)).2

theorem closed_plain : plain.Closed := by
  rintro ⟨place⟩ form found mentioned isMentioned
  match place with
  | 0 =>
      obtain rfl := Option.some.inj found
      contradiction
  | 1 =>
      obtain rfl := Option.some.inj found
      obtain rfl := List.mem_singleton.mp isMentioned
      exact ⟨_, rfl⟩
  | place + 2 =>
      contradiction

theorem unbranded_plain : plain.Unbranded ⟨1⟩ := by
  intro extension
  have noBrand : ∀ one ∈ Extension.all, plain.property? ⟨1⟩ one.brand = none := by
    decide +kernel
  exact noBrand extension extension.mem_all

theorem wraps_wrapped : wrapped.Wraps ⟨5⟩ 2 ⟨7⟩ := by
  have isAlias : wrapped.get? ⟨7⟩ = some (.alias "A" ⟨6⟩) := rfl
  have isIntersection : wrapped.get? ⟨6⟩ = some (.intersection ([⟨0⟩] ++ ⟨5⟩ :: [])) := rfl
  refine .inAlias isAlias (.inIntersection isIntersection ?_ .itself)
  intro other isOther
  obtain rfl := List.mem_singleton.mp isOther
  exact fun _ => rfl

theorem extension?_addExtension_plain :
    plain.Closed ∧ plain.Holds ⟨1⟩ ∧ plain.Unbranded ⟨1⟩ ∧
      (plain.addExtension .rangeFunction ⟨1⟩).2.Extends wrapped ∧ wrapped.Wraps ⟨5⟩ 2 ⟨7⟩ ∧
        2 < Limits.typeNesting ∧ wrapped.extension? ⟨7⟩ = some .rangeFunction ∧
          (plain.addExtension .rangeFunction ⟨1⟩).2.annotations ⟨1⟩ = plain.annotations ⟨1⟩ := by
  have held : plain.Holds ⟨1⟩ := ⟨_, rfl⟩
  have growsOn : (plain.addExtension .rangeFunction ⟨1⟩).2.Extends wrapped :=
    (extends_add _ _).trans (extends_add _ _)
  have fits : 2 < Limits.typeNesting := by decide
  obtain ⟨recognised, unchanged⟩ := extension?_addExtension closed_plain .rangeFunction ⟨1⟩
  refine ⟨closed_plain, held, unbranded_plain, growsOn, wraps_wrapped, fits, ?_, ?_⟩
  · exact (recognised held unbranded_plain).2 wrapped growsOn 2 ⟨7⟩ wraps_wrapped fits
  · exact (unchanged ⟨1⟩ held).2.2

end TypeTable

end NameLowering
