import NameLowering.Proofs.Types.Gathering

/-!
# Chains of aliases

How many aliases the resolutions of types see through. The lookup of a property and the gathering
of annotations follow as many links as the limit says. The recognition of unique symbols looks at
as many types as the limit says, the first of which is the outermost alias, so it follows one link
less.
-/

namespace NameLowering

namespace TypeTable

/-! ## Resolutions at the end of a chain -/

/-- A type leads to `base` through a number of aliases. -/
inductive Behind (table : TypeTable) (base : TypeId) : (aliases : Nat) → TypeId → Prop
  | itself : Behind table base 0 base
  | through
      {aliases : Nat} {id target : TypeId} {label : String}
      (found : table.get? id = some (.alias label target))
      (rest : Behind table base aliases target) :
      Behind table base (aliases + 1) id

/-- A resolution looks at a bounded number of types, and goes on from an alias to its target. -/
structure SeesThrough {α : Type} (table : TypeTable) (resolve : Nat → TypeId → α) (nothing : α) :
    Prop where
  atBound : ∀ id, resolve 0 id = nothing
  atAlias : ∀ levels id label target, table.get? id = some (.alias label target) →
    resolve (levels + 1) id = resolve levels target

variable {table : TypeTable} {base id : TypeId} {aliases levels : Nat} {name : String}

section SeesThrough

variable {α : Type} {resolve : Nat → TypeId → α} {nothing : α}

/-- Each alias takes one level, and the rest of the levels is left for what is behind them. -/
theorem SeesThrough.resolve_add
    (sees : table.SeesThrough resolve nothing) (behind : table.Behind base aliases id) :
    resolve (aliases + levels) id = resolve levels base := by
  induction behind with
  | itself =>
      rw [Nat.zero_add]
  | @through aliases id target label found rest inductionHypothesis =>
      rw [Nat.add_right_comm, sees.atAlias _ _ _ _ found]
      exact inductionHypothesis

/-- Where there are as many aliases as levels, nothing is left for what is behind them. -/
theorem SeesThrough.resolve_of_le
    (sees : table.SeesThrough resolve nothing) (behind : table.Behind base aliases id)
    (tooDeep : levels ≤ aliases) :
    resolve levels id = nothing := by
  induction behind generalizing levels with
  | itself =>
      rw [Nat.le_zero.mp tooDeep]
      exact sees.atBound base
  | @through aliases id target label found rest inductionHypothesis =>
      cases levels with
      | zero =>
          exact sees.atBound id
      | succ fewer =>
          rw [sees.atAlias _ _ _ _ found]
          exact inductionHypothesis (Nat.le_of_succ_le_succ tooDeep)

/-- What the resolution of `base` finds at one level is found through fewer aliases than levels, and
nothing through more. -/
theorem SeesThrough.resolve_eq
    (sees : table.SeesThrough resolve nothing) (behind : table.Behind base aliases id)
    {answer : α} (atBase : ∀ fewer, resolve (fewer + 1) base = answer) (levels : Nat) :
    resolve levels id = if aliases < levels then answer else nothing := by
  by_cases fits : aliases < levels
  · obtain ⟨fewer, rfl⟩ : ∃ fewer, levels = aliases + (fewer + 1) :=
      ⟨levels - aliases - 1, by omega⟩
    rw [if_pos fits, sees.resolve_add behind, atBase]
  · rw [if_neg fits, sees.resolve_of_le behind (Nat.le_of_not_lt fits)]

end SeesThrough

theorem seesThrough_propertyWithin? (table : TypeTable) (name : String) :
    table.SeesThrough (table.propertyWithin? name) none where
  atBound _ := rfl
  atAlias levels id label target found := by simp only [propertyWithin?, found]

theorem seesThrough_isUniqueSymbolWithin (table : TypeTable) :
    table.SeesThrough table.isUniqueSymbolWithin false where
  atBound _ := rfl
  atAlias levels id label target found := by simp only [isUniqueSymbolWithin, found]

theorem seesThrough_collectAnnotations (table : TypeTable) (found : List Annotation) :
    table.SeesThrough (fun levels id => table.collectAnnotations levels found id) found where
  atBound _ := rfl
  atAlias levels id label target isAlias := by simp only [collectAnnotations, isAlias]

/-! ## The three limits -/

theorem Behind.isSome_property?_iff
    (behind : table.Behind base aliases id)
    {properties : List Property} {annotations : List Annotation}
    (isObject : table.get? base = some (.object properties annotations))
    (named : ∃ property ∈ properties, property.name = name) :
    (table.property? id name).isSome = true ↔ aliases ≤ Limits.typeNesting := by
  have atBase (fewer : Nat) :
      table.propertyWithin? name (fewer + 1) base =
        (properties.find? (·.name == name)).map Property.type := by
    simp only [propertyWithin?, isObject]
  rw [property?, (table.seesThrough_propertyWithin? name).resolve_eq behind atBase]
  by_cases fits : aliases < Limits.typeNesting + 1
  · have listed : (properties.find? (·.name == name)).isSome = true := by
      simpa [List.find?_isSome] using named
    rw [if_pos fits, Option.isSome_map, listed]
    exact iff_of_true rfl (Nat.le_of_lt_succ fits)
  · rw [if_neg fits]
    exact iff_of_false Bool.false_ne_true fun within => fits (Nat.lt_succ_of_le within)

theorem Behind.isUniqueSymbol_iff
    (behind : table.Behind base aliases id) {description : String}
    (isSymbol : table.get? base = some (.uniqueSymbol description)) :
    table.isUniqueSymbol id = true ↔ aliases < Limits.typeNesting := by
  have atBase (fewer : Nat) : table.isUniqueSymbolWithin (fewer + 1) base = true := by
    simp only [isUniqueSymbolWithin, isSymbol]
  rw [isUniqueSymbol, table.seesThrough_isUniqueSymbolWithin.resolve_eq behind atBase]
  by_cases fits : aliases < Limits.typeNesting
  · rw [if_pos fits]
    exact iff_of_true rfl fits
  · rw [if_neg fits]
    exact iff_of_false Bool.false_ne_true fits

theorem Behind.mem_annotations_iff
    (behind : table.Behind base aliases id)
    {parameters : List TypeId} {result : TypeId} {annotations : List Annotation}
    {note : Annotation}
    (isFunction : table.get? base = some (.function parameters result annotations))
    (annotated : note ∈ annotations) :
    note ∈ table.annotations id ↔ aliases ≤ Limits.typeNesting := by
  have atBase (fewer : Nat) :
      table.collectAnnotations (fewer + 1) [] base =
        annotations.foldl (fun found added => added.insert found) [] := by
    simp only [collectAnnotations, isFunction]
  rw [TypeTable.annotations, (table.seesThrough_collectAnnotations []).resolve_eq behind atBase]
  by_cases fits : aliases < Limits.typeNesting + 1
  · rw [if_pos fits, Annotation.mem_foldl_insert]
    exact iff_of_true (Or.inr annotated) (Nat.le_of_lt_succ fits)
  · rw [if_neg fits]
    exact iff_of_false List.not_mem_nil fun within => fits (Nat.lt_succ_of_le within)

/-! ## The limits compared -/

/-- An object with a property of a name, a unique symbol and a function with an annotation are each
behind the same number of aliases. -/
structure BehindAlike (table : TypeTable) (aliases : Nat) (name : String)
    (note : Annotation) (ofObject ofSymbol ofFunction : TypeId) : Prop where
  object : ∃ object properties annotations,
    table.Behind object aliases ofObject ∧
      table.get? object = some (.object properties annotations) ∧
        ∃ property ∈ properties, property.name = name
  symbol : ∃ symbol description,
    table.Behind symbol aliases ofSymbol ∧
      table.get? symbol = some (.uniqueSymbol description)
  function : ∃ function parameters result annotations,
    table.Behind function aliases ofFunction ∧
      table.get? function = some (.function parameters result annotations) ∧
        note ∈ annotations

/-- The lookup of a property and the gathering of annotations see through as many aliases as the
limit says, and the recognition of unique symbols through one less. So the three agree exactly
unless there are as many aliases as the limit says. -/
theorem seen_alike_iff
    {note : Annotation} {ofObject ofSymbol ofFunction : TypeId}
    (alike : table.BehindAlike aliases name note ofObject ofSymbol ofFunction) :
    ((table.property? ofObject name).isSome = true ↔ aliases ≤ Limits.typeNesting) ∧
    (table.isUniqueSymbol ofSymbol = true ↔ aliases < Limits.typeNesting) ∧
    (note ∈ table.annotations ofFunction ↔ aliases ≤ Limits.typeNesting) ∧
    ((((table.property? ofObject name).isSome = true ↔ table.isUniqueSymbol ofSymbol = true) ∧
        (table.isUniqueSymbol ofSymbol = true ↔ note ∈ table.annotations ofFunction)) ↔
      aliases ≠ Limits.typeNesting) := by
  obtain ⟨_, _, _, objectBehind, isObject, named⟩ := alike.object
  have property := objectBehind.isSome_property?_iff isObject named
  obtain ⟨_, _, symbolBehind, isSymbol⟩ := alike.symbol
  have symbol := symbolBehind.isUniqueSymbol_iff isSymbol
  obtain ⟨_, _, _, _, functionBehind, isFunction, annotated⟩ := alike.function
  have annotations := functionBehind.mem_annotations_iff isFunction annotated
  refine ⟨property, symbol, annotations, ?_⟩
  rw [property, symbol, annotations]
  omega

/-! ## Towers of aliases -/

/-- Some types, and above each of them as many stories of aliases as the height says. -/
def aliasTowers (bases : List TypeForm) (height : Nat) : TypeTable where
  types :=
    (bases ++
      (List.range (height * bases.length)).map fun place => TypeForm.alias "A" ⟨place⟩).toArray

section aliasTowers

variable {bases : List TypeForm} {height stories place : Nat}

theorem get?_aliasTowers_of_lt (onGround : place < bases.length) :
    (aliasTowers bases height).get? ⟨place⟩ = some bases[place] := by
  simp [aliasTowers, get?, List.getElem?_append_left onGround]

theorem get?_aliasTowers_add (inside : place < height * bases.length) :
    (aliasTowers bases height).get? ⟨place + bases.length⟩ = some (.alias "A" ⟨place⟩) := by
  simp [aliasTowers, get?, List.getElem?_append_right (Nat.le_add_left _ place), inside]

theorem behind_aliasTowers (onGround : place < bases.length) (fits : stories ≤ height) :
    (aliasTowers bases height).Behind ⟨place⟩ stories ⟨place + stories * bases.length⟩ := by
  induction stories with
  | zero =>
      rw [Nat.zero_mul, Nat.add_zero]
      exact .itself
  | succ stories inductionHypothesis =>
      have inside : place + stories * bases.length < height * bases.length :=
        calc
          place + stories * bases.length
          _ < bases.length + stories * bases.length := Nat.add_lt_add_right onGround _
          _ = (stories + 1) * bases.length := by rw [Nat.succ_mul, Nat.add_comm]
          _ ≤ height * bases.length := Nat.mul_le_mul_right _ fits
      rw [Nat.succ_mul, ← Nat.add_assoc]
      exact .through (get?_aliasTowers_add inside)
        (inductionHypothesis (Nat.le_of_succ_le fits))

end aliasTowers

/-! ## At the limit -/

/-- An object (0), a unique symbol (1) and an annotated function (2), with 64 aliases above each. -/
def atLimit : TypeTable :=
  aliasTowers
    [.object [⟨"x", ⟨0⟩⟩] [], .uniqueSymbol "s", .function [] ⟨0⟩ [.forRange]] 64

theorem behindAlike_atLimit : atLimit.BehindAlike 64 "x" .forRange ⟨192⟩ ⟨193⟩ ⟨194⟩ where
  object :=
    ⟨⟨0⟩, _, _, behind_aliasTowers (by decide) (Nat.le_refl 64), get?_aliasTowers_of_lt (by decide),
      ⟨"x", ⟨0⟩⟩, List.mem_singleton_self _, rfl⟩
  symbol :=
    ⟨⟨1⟩, _, behind_aliasTowers (by decide) (Nat.le_refl 64), get?_aliasTowers_of_lt (by decide)⟩
  function :=
    ⟨⟨2⟩, _, _, _, behind_aliasTowers (by decide) (Nat.le_refl 64),
      get?_aliasTowers_of_lt (by decide), List.mem_singleton_self _⟩

/-- The property is found through 64 aliases, but the unique symbol is not recognised. -/
theorem not_seen_alike :
    ¬ ∀ (table : TypeTable) (aliases : Nat) (name : String) (note : Annotation)
        (ofObject ofSymbol ofFunction : TypeId),
      table.BehindAlike aliases name note ofObject ofSymbol ofFunction →
        (((table.property? ofObject name).isSome = true ↔ table.isUniqueSymbol ofSymbol = true) ∧
          (table.isUniqueSymbol ofSymbol = true ↔
            note ∈ table.annotations ofFunction)) := by
  intro seenAlike
  have agree := (seenAlike atLimit 64 "x" .forRange ⟨192⟩ ⟨193⟩ ⟨194⟩ behindAlike_atLimit).1
  have found : (atLimit.property? ⟨192⟩ "x").isSome = true := by decide +kernel
  have unrecognised : atLimit.isUniqueSymbol ⟨193⟩ = false := by decide +kernel
  exact Bool.false_ne_true (unrecognised.symm.trans (agree.mp found))

/-- With 64 aliases the three resolutions do not agree. -/
theorem seen_alike_iff_atLimit :
    atLimit.BehindAlike 64 "x" .forRange ⟨192⟩ ⟨193⟩ ⟨194⟩ ∧
      ¬ (((atLimit.property? ⟨192⟩ "x").isSome = true ↔ atLimit.isUniqueSymbol ⟨193⟩ = true) ∧
        (atLimit.isUniqueSymbol ⟨193⟩ = true ↔
          Annotation.forRange ∈ atLimit.annotations ⟨194⟩)) := by
  obtain ⟨_, _, _, agreeIff⟩ := seen_alike_iff behindAlike_atLimit
  exact ⟨behindAlike_atLimit, fun agree => agreeIff.mp agree rfl⟩

end TypeTable

end NameLowering
