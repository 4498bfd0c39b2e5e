import Mathlib.Data.List.Nodup
import NameLowering.Types.Lookup

/-!
# Gathering of annotations

The annotations of a type are those of the object and function types that it leads to through
aliases and members of intersections. All branches of the search add to one list, and the links may
run in circles, so what is found is said by chains of links of a bounded length.
-/

namespace NameLowering

/-- Sources that each add to what was found before add up to what any of them gives. -/
theorem mem_foldl_iff_of_step
    {Source Item : Type} {gather : List Item → Source → List Item} {gives : Source → Prop}
    {item : Item}
    (step : ∀ found source, item ∈ gather found source ↔ item ∈ found ∨ gives source)
    (sources : List Source) (found : List Item) :
    item ∈ sources.foldl gather found ↔ item ∈ found ∨ ∃ source ∈ sources, gives source := by
  induction sources generalizing found with
  | nil =>
      simp
  | cons first rest inductionHypothesis =>
      rw [List.foldl_cons, inductionHypothesis, step, List.exists_mem_cons_iff, or_assoc]

/-! ## Lists of annotations -/

namespace Annotation

variable {added note : Annotation} {annotations found : List Annotation}

theorem mem_insert :
    note ∈ added.insert annotations ↔ note ∈ annotations ∨ note = added := by
  unfold Annotation.insert
  by_cases known : annotations.contains added
  · rw [if_pos known]
    constructor
    · exact Or.inl
    · rintro (member | rfl)
      · exact member
      · simpa using known
  · rw [if_neg known, List.mem_append, List.mem_singleton]

theorem mem_foldl_insert :
    note ∈ annotations.foldl (fun found one => one.insert found) found ↔
      note ∈ found ∨ note ∈ annotations := by
  have step (found : List Annotation) (one : Annotation) :
      note ∈ one.insert found ↔ note ∈ found ∨ note = one := mem_insert
  rw [mem_foldl_iff_of_step step]
  simp

theorem nodup_insert (once : annotations.Nodup) : (added.insert annotations).Nodup := by
  unfold Annotation.insert
  by_cases known : annotations.contains added
  · rwa [if_pos known]
  · rw [if_neg known, ← List.concat_eq_append]
    exact once.concat (by simpa using known)

theorem nodup_foldl_insert (once : found.Nodup) :
    (annotations.foldl (fun found one => one.insert found) found).Nodup :=
  List.foldlRecOn annotations _ once fun _ once _ _ => nodup_insert once

end Annotation

/-! ## Chains of links -/

namespace TypeForm

/-- The annotations on a form itself. -/
def ownAnnotations : TypeForm → List Annotation
  | .object _ annotations | .function _ _ annotations => annotations
  | .intrinsic _ | .uniqueSymbol _ | .intersection _ | .union _ | .alias .. => []

/-- The types that a form takes annotations over from. -/
def annotationSources : TypeForm → List TypeId
  | .alias _ target => [target]
  | .intersection members => members
  | .intrinsic _ | .uniqueSymbol _ | .object .. | .function .. | .union _ => []

end TypeForm

namespace TypeTable

/-- So many links lead from a type to another one, each from an alias to its target or from an
intersection to a member. -/
inductive LeadsTo (table : TypeTable) : (links : Nat) → TypeId → TypeId → Prop
  | here {id : TypeId} : LeadsTo table 0 id id
  | link
      {links : Nat} {id next carrier : TypeId} {form : TypeForm}
      (found : table.get? id = some form) (isSource : next ∈ form.annotationSources)
      (rest : LeadsTo table links next carrier) :
      LeadsTo table (links + 1) id carrier

/-- An object or function type has an annotation of its own. -/
def Carries (table : TypeTable) (carrier : TypeId) (note : Annotation) : Prop :=
  ∃ form, table.get? carrier = some form ∧ note ∈ form.ownAnnotations

/-- A type has an annotation or is fewer than so many links away from one that has it. -/
def CarriesWithin (table : TypeTable) (note : Annotation) (levels : Nat) (id : TypeId) : Prop :=
  ∃ links < levels, ∃ carrier, table.LeadsTo links id carrier ∧ table.Carries carrier note

variable {table : TypeTable} {note : Annotation} {levels : Nat} {id : TypeId} {form : TypeForm}
  {found : List Annotation}

theorem not_carriesWithin_of_missing (missing : table.get? id = none) :
    ¬ table.CarriesWithin note levels id := by
  rintro ⟨links, _, carrier, leads, form, held, _⟩
  cases leads with
  | here =>
      rw [missing] at held
      contradiction
  | link found =>
      rw [missing] at found
      contradiction

/-- An annotation is on the type itself, or one link less away from a source. -/
theorem carriesWithin_succ_iff (held : table.get? id = some form) :
    table.CarriesWithin note (levels + 1) id ↔
      note ∈ form.ownAnnotations ∨
        ∃ source ∈ form.annotationSources, table.CarriesWithin note levels source := by
  constructor
  · rintro ⟨links, bound, carrier, leads, carries⟩
    cases leads with
    | here =>
        obtain ⟨other, otherHeld, own⟩ := carries
        obtain rfl := Option.some.inj (held.symm.trans otherHeld)
        exact Or.inl own
    | @link links _ next _ other otherHeld isSource rest =>
        obtain rfl := Option.some.inj (held.symm.trans otherHeld)
        exact Or.inr ⟨next, isSource, links, Nat.lt_of_succ_lt_succ bound, carrier, rest, carries⟩
  · rintro (own | ⟨source, isSource, links, bound, carrier, rest, carries⟩)
    · exact ⟨0, Nat.succ_pos levels, id, .here, form, held, own⟩
    · exact ⟨links + 1, Nat.succ_lt_succ bound, carrier, .link held isSource rest, carries⟩

/-! ## What is found -/

/-- The search adds what it can reach to what was found before. -/
theorem mem_collectAnnotations_iff (found : List Annotation) (id : TypeId) :
    note ∈ table.collectAnnotations levels found id ↔
      note ∈ found ∨ table.CarriesWithin note levels id := by
  induction levels generalizing found id with
  | zero =>
      simp [collectAnnotations, CarriesWithin]
  | succ levels inductionHypothesis =>
      cases held : table.get? id with
      | none =>
          simp [collectAnnotations, held, not_carriesWithin_of_missing held]
      | some form =>
          rw [carriesWithin_succ_iff held]
          simp only [collectAnnotations, held]
          cases form with
          | object | function =>
              simp [TypeForm.ownAnnotations, TypeForm.annotationSources,
                Annotation.mem_foldl_insert]
          | «alias» =>
              simp [inductionHypothesis, TypeForm.ownAnnotations, TypeForm.annotationSources]
          | intersection members =>
              have gathered := mem_foldl_iff_of_step inductionHypothesis members found
              simp [gathered, TypeForm.ownAnnotations, TypeForm.annotationSources]
          | intrinsic | uniqueSymbol | union =>
              simp [TypeForm.ownAnnotations, TypeForm.annotationSources]

theorem nodup_collectAnnotations (once : found.Nodup) :
    (table.collectAnnotations levels found id).Nodup := by
  induction levels generalizing found id with
  | zero =>
      exact once
  | succ levels inductionHypothesis =>
      unfold collectAnnotations
      split
      · exact Annotation.nodup_foldl_insert once
      · exact Annotation.nodup_foldl_insert once
      · exact inductionHypothesis once
      · exact List.foldlRecOn _ _ once fun _ once _ _ => inductionHypothesis once
      · exact once

/-- A type has the annotations of the object and function types that it leads to by no more links
than the limit says, each once. So a type that is neither an alias nor an intersection has its own
annotations alone, whatever types it mentions. -/
theorem annotations_gathered (table : TypeTable) (id : TypeId) :
    (∀ note, note ∈ table.annotations id ↔
      ∃ links ≤ Limits.typeNesting, ∃ carrier,
        table.LeadsTo links id carrier ∧ table.Carries carrier note) ∧
    (table.annotations id).Nodup ∧
    (∀ form, table.get? id = some form → form.annotationSources = [] →
      ∀ note, note ∈ table.annotations id ↔ note ∈ form.ownAnnotations) := by
  refine ⟨?_, nodup_collectAnnotations List.nodup_nil, ?_⟩
  · intro note
    rw [annotations, mem_collectAnnotations_iff]
    simp only [List.not_mem_nil, false_or, CarriesWithin, Nat.lt_succ_iff]
  · intro form held noSources note
    rw [annotations, mem_collectAnnotations_iff, carriesWithin_succ_iff held, noSources]
    simp

/-- An intersection (0) of itself, an alias (1) of a function, and the alias again; a union (3) of
the function. -/
def roundabout : TypeTable where
  types :=
    #[.intersection [⟨0⟩, ⟨1⟩, ⟨1⟩],
      .alias "A" ⟨2⟩,
      .function [] ⟨2⟩ [.forRange],
      .union [⟨2⟩]]

example : roundabout.annotations ⟨0⟩ = [.forRange] ∧ roundabout.annotations ⟨3⟩ = [] := by
  decide +kernel

end TypeTable

end NameLowering
