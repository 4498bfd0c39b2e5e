import Mathlib.Data.List.Basic
import Mathlib.Data.List.Induction
import Mathlib.Data.List.Nodup
import NameLowering.References.Numbering

/-!
# Laws of the numbering

A symbol keeps the number that it got when it was first seen, and that is its place among the
symbols in the order of first sight.
-/

namespace NameLowering

/-- An element after a list is distinct from the others unless it is one of them. -/
theorem eraseDups_append_singleton {α : Type} [DecidableEq α] (earlier : List α) (last : α) :
    (earlier ++ [last]).eraseDups =
      if last ∈ earlier then earlier.eraseDups else earlier.eraseDups ++ [last] := by
  rw [List.eraseDups_append]
  by_cases seen : last ∈ earlier <;> simp [seen, List.removeAll, List.eraseDups_cons]

theorem nodup_eraseDups {α : Type} [DecidableEq α] (elements : List α) :
    elements.eraseDups.Nodup := by
  induction elements using List.reverseRecOn with
  | nil =>
      exact List.nodup_nil
  | append_singleton earlier last inductionHypothesis =>
      rw [eraseDups_append_singleton]
      by_cases seen : last ∈ earlier
      · rwa [if_pos seen]
      · rw [if_neg seen, ← List.concat_eq_append]
        exact inductionHypothesis.concat fun member => seen (List.mem_eraseDups.mp member)

/-- The places of the elements of a list, each among the distinct elements, come up in order. -/
theorem eraseDups_map_place
    {symbols whole : List SymbolRef} (first : symbols.eraseDups <+: whole) :
    (symbols.map fun symbol => SymbolNumber.mk (whole.idxOf symbol + 1)).eraseDups =
      (List.range' 1 symbols.eraseDups.length).map SymbolNumber.mk := by
  induction symbols using List.reverseRecOn with
  | nil =>
      rfl
  | append_singleton earlier symbol inductionHypothesis =>
      rw [List.map_append, List.map_singleton, eraseDups_append_singleton]
      rw [eraseDups_append_singleton] at first ⊢
      by_cases seen : symbol ∈ earlier
      · rw [if_pos seen] at first ⊢
        rw [if_pos (List.mem_map_of_mem seen), inductionHypothesis first]
      · rw [if_neg seen] at first ⊢
        have earlierPlaces := inductionHypothesis ((List.prefix_append _ _).trans first)
        -- A new symbol has the place after all the earlier ones.
        have place : whole.idxOf symbol = earlier.eraseDups.length := by
          obtain ⟨later, rfl⟩ := first
          have notBefore : symbol ∉ earlier.eraseDups :=
            fun member => seen (List.mem_eraseDups.mp member)
          rw [List.append_assoc, List.idxOf_append_of_notMem notBefore]
          simp
        have newPlace :
            SymbolNumber.mk (whole.idxOf symbol + 1) ∉
              earlier.map fun symbol => SymbolNumber.mk (whole.idxOf symbol + 1) := by
          rw [← List.mem_eraseDups, earlierPlaces, place]
          simp [Nat.add_comm]
        rw [if_neg newPlace, earlierPlaces, place, List.length_append, List.length_singleton,
          List.range'_concat, List.map_append]
        simp [Nat.add_comm]

namespace Numbering

variable {numbering : Numbering} {symbol : SymbolRef} {number : SymbolNumber} {ref : NodeRef}

theorem see_of_known (known : numbering.number? symbol = some number) :
    numbering.see symbol ref = (number, numbering) := by
  simp only [see, known]

/-- A symbol that was not seen before gets the next number. -/
theorem see_of_new (new : numbering.number? symbol = none) :
    numbering.see symbol ref =
      (⟨numbering.size + 1⟩,
        { sightings := numbering.sightings.push { symbol, firstSeenAt := ref } }) := by
  simp only [see, new, size, Array.size_push]

theorem number?_push
    (numbering : Numbering) (sighting : Sighting) (symbol : SymbolRef) :
    number? { sightings := numbering.sightings.push sighting } symbol =
      (numbering.number? symbol).or
        (if sighting.symbol = symbol then some ⟨numbering.size + 1⟩ else none) := by
  simp only [number?, Array.findIdx?_push, size]
  cases numbering.sightings.findIdx? (·.symbol == symbol) with
  | none =>
      by_cases same : sighting.symbol = symbol <;> simp [same]
  | some place =>
      rfl

/-- The later numbering gives every symbol that the earlier one knows the same number. -/
def Extends (earlier later : Numbering) : Prop :=
  ∀ ⦃symbol : SymbolRef⦄ ⦃number : SymbolNumber⦄,
    earlier.number? symbol = some number → later.number? symbol = some number

theorem extends_see (numbering : Numbering) (symbol : SymbolRef) (ref : NodeRef) :
    numbering.Extends (numbering.see symbol ref).2 := by
  intro other number otherKnown
  cases known : numbering.number? symbol with
  | some _ =>
      rwa [see_of_known known]
  | none =>
      rw [see_of_new known, number?_push, otherKnown, Option.some_or]

/-- What a number stands for does not change. -/
theorem sighting?_see
    {sighting : Sighting} (known : numbering.sighting? number = some sighting)
    (symbol : SymbolRef) (ref : NodeRef) :
    (numbering.see symbol ref).2.sighting? number = some sighting := by
  cases seen : numbering.number? symbol with
  | some _ =>
      rwa [see_of_known seen]
  | none =>
      rw [see_of_new seen]
      obtain ⟨_ | place⟩ := number
      · contradiction
      · have inside : place < numbering.sightings.size :=
          (Array.getElem?_eq_some_iff.mp known).1
        rw [sighting?, Array.getElem?_push_lt inside]
        exact (Array.getElem?_eq_getElem inside).symm.trans known

theorem number?_see_self (numbering : Numbering) (symbol : SymbolRef) (ref : NodeRef) :
    (numbering.see symbol ref).2.number? symbol = some (numbering.see symbol ref).1 := by
  cases known : numbering.number? symbol with
  | some _ =>
      rw [see_of_known known, known]
  | none =>
      rw [see_of_new known, number?_push, known, Option.none_or, if_pos rfl]

/-- The number of a symbol does not depend on the reference that it is seen at. -/
theorem fst_see_eq (first second : NodeRef) :
    (numbering.see symbol first).1 = (numbering.see symbol second).1 := by
  cases known : numbering.number? symbol with
  | some _ =>
      rw [see_of_known known, see_of_known known]
  | none =>
      rw [see_of_new known, see_of_new known]

/-- Seen again at any later time, a symbol has the same number. -/
theorem see_stable
    {later : Numbering} (extension : (numbering.see symbol ref).2.Extends later)
    (again : NodeRef) :
    (later.see symbol again).1 = (numbering.see symbol ref).1 := by
  rw [see_of_known (extension (number?_see_self numbering symbol ref))]

/-! ## The order of first sight -/

/-- The symbols that were seen, each once. -/
def symbols (numbering : Numbering) : List SymbolRef :=
  numbering.sightings.toList.map Sighting.symbol

theorem findIdx?_sightings (numbering : Numbering) (symbol : SymbolRef) :
    numbering.sightings.findIdx? (·.symbol == symbol) =
      numbering.symbols.findIdx? (· == symbol) := by
  obtain ⟨⟨sightings⟩⟩ := numbering
  rw [symbols, List.findIdx?_map, List.findIdx?_toArray]
  rfl

theorem number?_of_mem (seen : symbol ∈ numbering.symbols) :
    numbering.number? symbol = some ⟨numbering.symbols.idxOf symbol + 1⟩ := by
  have inside := List.idxOf_lt_length_iff.mpr seen
  have found :
      numbering.symbols.findIdx? (· == symbol) = some (numbering.symbols.idxOf symbol) := by
    rw [List.findIdx?_eq_guard_findIdx_lt, Option.guard_eq_some_iff]
    exact ⟨rfl, by simpa [List.idxOf] using inside⟩
  rw [number?, findIdx?_sightings, found, Option.map_some]

theorem number?_of_not_mem (new : symbol ∉ numbering.symbols) :
    numbering.number? symbol = none := by
  have missing : numbering.symbols.findIdx? (· == symbol) = none := by
    rw [List.findIdx?_eq_none_iff]
    intro other member
    rw [beq_eq_false_iff_ne]
    rintro rfl
    exact new member
  rw [number?, findIdx?_sightings, missing, Option.map_none]

/-- Also the number that a symbol would get is its place. -/
theorem fst_see (numbering : Numbering) (symbol : SymbolRef) (ref : NodeRef) :
    (numbering.see symbol ref).1 = ⟨numbering.symbols.idxOf symbol + 1⟩ := by
  by_cases seen : symbol ∈ numbering.symbols
  · rw [see_of_known (number?_of_mem seen)]
  · rw [see_of_new (number?_of_not_mem seen), List.idxOf_eq_length seen]
    simp [symbols, size]

theorem symbols_see (numbering : Numbering) (symbol : SymbolRef) (ref : NodeRef) :
    (numbering.see symbol ref).2.symbols =
      if symbol ∈ numbering.symbols then numbering.symbols else numbering.symbols ++ [symbol] := by
  by_cases seen : symbol ∈ numbering.symbols
  · rw [if_pos seen, see_of_known (number?_of_mem seen)]
  · rw [if_neg seen, see_of_new (number?_of_not_mem seen)]
    simp [symbols]

/-- Seeing the symbols of a list in order leaves each in the place of its first occurrence. -/
theorem symbols_see_of_eraseDups
    {seen : List SymbolRef} (first : numbering.symbols = seen.eraseDups)
    (symbol : SymbolRef) (ref : NodeRef) :
    (numbering.see symbol ref).2.symbols = (seen ++ [symbol]).eraseDups := by
  simp only [symbols_see, first, eraseDups_append_singleton, List.mem_eraseDups]

end Numbering

end NameLowering
