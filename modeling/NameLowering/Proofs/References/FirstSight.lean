import Mathlib.Algebra.Group.Nat.Defs
import Mathlib.Data.List.Nodup
import NameLowering.Proofs.References.Numbering

/-!
# Histories of the numbering

Symbols are seen one after the other, each at a node that refers to it, and some of them again and
again. Whatever the history, the numbers count the different symbols in the order of first sight. A
numbering can be asked for the number of a symbol and for the symbol of a number, and each of the
two answers is the inverse of the other.
-/

namespace NameLowering

/-- A symbol with a node that refers to it. -/
structure Reference where
  symbol : SymbolRef
  node : NodeRef
deriving DecidableEq, Repr

/-- The different symbols that are referred to, in the order of first reference. -/
def Reference.symbols (references : List Reference) : List SymbolRef :=
  (references.map Reference.symbol).eraseDups

namespace Numbering

/-! ## Runs -/

def seeAll (references : List Reference) (numbering : Numbering) : Numbering :=
  references.foldl
    (fun numbering reference => (numbering.see reference.symbol reference.node).2) numbering

/-- The numbers that the symbols get, each when it is seen. -/
def numbersOf : List Reference → Numbering → List SymbolNumber
  | [], _ => []
  | reference :: rest, numbering =>
    (numbering.see reference.symbol reference.node).1 ::
      numbersOf rest (numbering.see reference.symbol reference.node).2

variable {numbering : Numbering} {symbol : SymbolRef} {number : SymbolNumber}
  {sighting : Sighting} {references : List Reference}

theorem seeAll_concat (before : List Reference) (last : Reference) (numbering : Numbering) :
    seeAll (before ++ [last]) numbering =
      ((seeAll before numbering).see last.symbol last.node).2 := by
  rw [seeAll, List.foldl_append]
  rfl

theorem extends_seeAll (references : List Reference) (numbering : Numbering) :
    numbering.Extends (seeAll references numbering) := by
  induction references generalizing numbering with
  | nil =>
      intro symbol number known
      exact known
  | cons reference rest inductionHypothesis =>
      intro symbol number known
      apply inductionHypothesis
      exact extends_see numbering reference.symbol reference.node known

/-- In the end the numbering still knows the number that a symbol got at any time. -/
theorem map_some_numbersOf (references : List Reference) (numbering : Numbering) :
    (numbersOf references numbering).map some =
      references.map fun reference => (seeAll references numbering).number? reference.symbol := by
  induction references generalizing numbering with
  | nil =>
      rfl
  | cons reference rest inductionHypothesis =>
      have atFirst := number?_see_self numbering reference.symbol reference.node
      have atLast := extends_seeAll rest (numbering.see reference.symbol reference.node).2 atFirst
      rw [numbersOf, List.map_cons, List.map_cons, inductionHypothesis]
      exact congrArg (· :: _) atLast.symm

theorem symbols_seeAll (references : List Reference) :
    (seeAll references {}).symbols = Reference.symbols references := by
  induction references using List.reverseRecOn with
  | nil =>
      rfl
  | append_singleton before last inductionHypothesis =>
      rw [seeAll_concat, symbols_see_of_eraseDups inductionHypothesis, Reference.symbols,
        List.map_append, List.map_singleton]

/-- No symbol is noted twice. -/
theorem nodup_symbols_seeAll (references : List Reference) :
    (seeAll references {}).symbols.Nodup := by
  rw [symbols_seeAll]
  exact nodup_eraseDups _

theorem mem_symbols_seeAll_iff :
    symbol ∈ (seeAll references {}).symbols ↔
      ∃ reference ∈ references, reference.symbol = symbol := by
  rw [symbols_seeAll, Reference.symbols, List.mem_eraseDups, List.mem_map]

theorem number?_seeAll_of_mem {reference : Reference} (member : reference ∈ references) :
    (seeAll references {}).number? reference.symbol =
      some ⟨(Reference.symbols references).idxOf reference.symbol + 1⟩ := by
  rw [← symbols_seeAll]
  exact number?_of_mem (mem_symbols_seeAll_iff.mpr ⟨reference, member, rfl⟩)

/-- A symbol gets its place among the different symbols of the whole history. -/
theorem numbersOf_eq (references : List Reference) :
    numbersOf references {} =
      references.map fun reference =>
        ⟨(Reference.symbols references).idxOf reference.symbol + 1⟩ := by
  apply List.map_injective_iff.mpr fun _ _ => Option.some.inj
  rw [map_some_numbersOf, List.map_map]
  exact List.map_congr_left fun reference member => number?_seeAll_of_mem member

/-- The numbers in the order in which they are first given. -/
theorem eraseDups_numbersOf (references : List Reference) :
    (numbersOf references {}).eraseDups =
      (List.range' 1 (Reference.symbols references).length).map SymbolNumber.mk := by
  have places := eraseDups_map_place (List.prefix_refl (references.map Reference.symbol).eraseDups)
  rw [List.map_map] at places
  rw [numbersOf_eq]
  exact places

theorem mem_zip_numbersOf_iff {given : Reference × SymbolNumber} :
    given ∈ references.zip (numbersOf references {}) ↔
      given.1 ∈ references ∧
        given.2 = ⟨(Reference.symbols references).idxOf given.1.symbol + 1⟩ := by
  have zipped : references.zip (numbersOf references {}) =
      references.map fun reference =>
        (reference, ⟨(Reference.symbols references).idxOf reference.symbol + 1⟩) := by
    rw [numbersOf_eq]
    simpa only [List.map_id, id] using List.zip_map' (f := id) (l := references)
  obtain ⟨reference, number⟩ := given
  rw [zipped, List.mem_map]
  constructor
  · rintro ⟨other, isReference, same⟩
    obtain ⟨rfl, rfl⟩ := Prod.mk.inj same
    exact ⟨isReference, rfl⟩
  · rintro ⟨isReference, isNumber⟩
    exact ⟨reference, isReference, Prod.ext rfl isNumber.symm⟩

theorem number_eq_iff_of_mem_zip {first second : Reference × SymbolNumber}
    (isFirst : first ∈ references.zip (numbersOf references {}))
    (isSecond : second ∈ references.zip (numbersOf references {})) :
    first.2 = second.2 ↔ first.1.symbol = second.1.symbol := by
  obtain ⟨firstMember, firstNumber⟩ := mem_zip_numbersOf_iff.mp isFirst
  obtain ⟨_, secondNumber⟩ := mem_zip_numbersOf_iff.mp isSecond
  rw [firstNumber, secondNumber, SymbolNumber.mk.injEq, Nat.add_right_cancel_iff]
  exact List.idxOf_inj (List.mem_eraseDups.mpr (List.mem_map_of_mem firstMember))

/-- The number of a symbol is the one that it got whenever it was seen. -/
theorem number?_seeAll_eq_some_iff :
    (seeAll references {}).number? symbol = some number ↔
      ∃ given ∈ references.zip (numbersOf references {}),
        given.1.symbol = symbol ∧ given.2 = number := by
  constructor
  · intro known
    by_cases seen : symbol ∈ (seeAll references {}).symbols
    · obtain ⟨reference, member, rfl⟩ := mem_symbols_seeAll_iff.mp seen
      rw [number?_seeAll_of_mem member, Option.some.injEq] at known
      exact ⟨(reference, number), mem_zip_numbersOf_iff.mpr ⟨member, known.symm⟩, rfl, rfl⟩
    · rw [number?_of_not_mem seen] at known
      contradiction
  · rintro ⟨given, isGiven, rfl, rfl⟩
    obtain ⟨member, isNumber⟩ := mem_zip_numbersOf_iff.mp isGiven
    rw [isNumber]
    exact number?_seeAll_of_mem member

theorem size_seeAll (references : List Reference) :
    (seeAll references {}).size = (Reference.symbols references).length := by
  rw [← symbols_seeAll, symbols, List.length_map, Array.length_toList, size]

/-! ## The symbol of a number -/

theorem sighting?_eq_none_iff :
    numbering.sighting? number = none ↔ number.value = 0 ∨ numbering.size < number.value := by
  obtain ⟨_ | place⟩ := number
  · simp [sighting?]
  · rw [sighting?, Array.getElem?_eq_none_iff, size, Nat.lt_succ_iff]
    exact (or_iff_right (Nat.succ_ne_zero place)).symm

theorem mem_sightings_of_sighting? (known : numbering.sighting? number = some sighting) :
    sighting ∈ numbering.sightings := by
  obtain ⟨_ | place⟩ := number
  · contradiction
  · exact Array.mem_of_getElem? known

/-- Where every symbol was noted once, asking for numbers and asking for symbols are inverse. -/
theorem number?_eq_some_iff (once : numbering.symbols.Nodup) :
    numbering.number? symbol = some number ↔
      ∃ sighting, numbering.sighting? number = some sighting ∧ sighting.symbol = symbol := by
  have atPlace (place : Nat) :
      (∃ sighting, numbering.sightings[place]? = some sighting ∧ sighting.symbol = symbol) ↔
        numbering.symbols[place]? = some symbol := by
    rw [symbols, List.getElem?_map, Array.getElem?_toList, Option.map_eq_some_iff]
  constructor
  · intro known
    by_cases seen : symbol ∈ numbering.symbols
    · rw [number?_of_mem seen, Option.some.injEq] at known
      rw [← known]
      exact (atPlace _).mpr (List.getElem?_idxOf seen)
    · rw [number?_of_not_mem seen] at known
      contradiction
  · obtain ⟨_ | place⟩ := number
    · rintro ⟨sighting, known, _⟩
      contradiction
    · intro known
      have held := (atPlace place).mp known
      have inside : place < numbering.symbols.length := (List.getElem?_eq_some_iff.mp held).1
      have isPlace : numbering.symbols.idxOf symbol = place := by
        rw [← (List.getElem?_eq_some_iff.mp held).2]
        exact once.idxOf_getElem place inside
      rw [number?_of_mem (List.mem_of_getElem? held), isPlace]

/-- What is noted of a symbol is the first reference to it. -/
theorem mem_sightings_seeAll_iff :
    sighting ∈ (seeAll references {}).sightings ↔
      references.find? (·.symbol == sighting.symbol) =
        some ⟨sighting.symbol, sighting.firstSeenAt⟩ := by
  induction references using List.reverseRecOn with
  | nil =>
      simp [seeAll]
  | append_singleton before last inductionHypothesis =>
      rw [seeAll_concat, List.find?_append]
      by_cases seen : last.symbol ∈ (seeAll before {}).symbols
      · rw [see_of_known (number?_of_mem seen), inductionHypothesis]
        cases found : before.find? (·.symbol == sighting.symbol) with
        | some reference =>
            rw [Option.some_or]
        | none =>
            -- The last reference is to a symbol that was referred to before.
            have different : last.symbol ≠ sighting.symbol := by
              intro same
              obtain ⟨reference, member, isSame⟩ := mem_symbols_seeAll_iff.mp seen
              have missed := List.find?_eq_none.mp found reference member
              simp [isSame, same] at missed
            simp [different]
      · rw [see_of_new (number?_of_not_mem seen), Array.mem_push, inductionHypothesis]
        by_cases same : last.symbol = sighting.symbol
        · have missed : before.find? (·.symbol == sighting.symbol) = none := by
            rw [List.find?_eq_none]
            intro reference member isSame
            have isSymbol : reference.symbol = last.symbol := by simpa [same] using isSame
            exact seen (mem_symbols_seeAll_iff.mpr ⟨reference, member, isSymbol⟩)
          obtain ⟨symbol, node⟩ := last
          obtain ⟨noted, firstSeenAt⟩ := sighting
          obtain rfl : symbol = noted := same
          rw [missed, Option.none_or]
          simp [eq_comm]
        · have notLast : sighting ≠ { symbol := last.symbol, firstSeenAt := last.node } := by
            rintro rfl
            exact same rfl
          simp [same, notLast]

/-! ## Every history -/

example :
    numbersOf [⟨⟨10⟩, .node 1⟩, ⟨⟨3⟩, .node 2⟩, ⟨⟨10⟩, .node 5⟩] {} = [⟨1⟩, ⟨2⟩, ⟨1⟩] := by
  decide +kernel

end Numbering

end NameLowering
