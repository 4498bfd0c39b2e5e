import Mathlib.Data.List.Nodup
import NameLowering.Names.Table
import NameLowering.Proofs.Names.Spelling

/-!
# The search for a free candidate

The numbered candidates for an escaped name are pairwise different, so among the first `n + 1` of
them one is not in a list of `n` names. The search finds the first such candidate.
-/

namespace NameLowering.NameTable

/-! ## Candidates -/

theorem toString_nat_injective {left right : Nat} (equal : toString left = toString right) :
    left = right := by
  have digits : Nat.toDigits 10 left = Nat.toDigits 10 right := by
    simpa only [Nat.toString_eq_repr, Nat.toList_repr] using congrArg String.toList equal
  have decoded := congrArg (fun chars => Nat.ofDigitChars 10 chars 0) digits
  simpa using decoded

/-- The candidates for one base are pairwise different. -/
theorem candidate_injective (base : String) : Function.Injective (candidate base) := by
  have numberedLonger (number : Nat) : base.length < (candidate base (number + 1)).length := by
    have separator : "_".length = 1 := by decide
    rw [candidate, String.length_append, String.length_append, separator]
    omega
  intro left right equal
  cases left with
  | zero =>
      cases right with
      | zero =>
          rfl
      | succ right =>
          have longer := numberedLonger right
          rw [← equal] at longer
          exact absurd longer (Nat.lt_irrefl _)
  | succ left =>
      cases right with
      | zero =>
          have longer := numberedLonger left
          rw [equal] at longer
          exact absurd longer (Nat.lt_irrefl _)
      | succ right =>
          have suffixes : toString (left + 1) = toString (right + 1) :=
            (String.append_right_inj (base ++ "_")).mp equal
          exact toString_nat_injective suffixes

theorem length_le_length_candidate (base : String) (number : Nat) :
    base.length ≤ (candidate base number).length := by
  cases number with
  | zero =>
      exact Nat.le_refl _
  | succ number =>
      rw [candidate, String.length_append, String.length_append]
      omega

theorem hasSafeMark_candidate
    {base : String} (marked : Target.hasSafeMark base = true) (number : Nat) :
    Target.hasSafeMark (candidate base number) = true := by
  cases number with
  | zero =>
      exact marked
  | succ number =>
      exact
        Target.hasSafeMark_append (Target.hasSafeMark_append marked "_") (toString (number + 1))

/-! ## The search -/

/-- Pigeonhole: the first `used.length + 1` candidates cannot all be used. -/
theorem exists_free_candidate (used : List String) (base : String) :
    ∃ number, number < used.length + 1 ∧ candidate base number ∉ used := by
  by_contra allUsed
  have listed : (List.range (used.length + 1)).map (candidate base) ⊆ used := by
    intro name member
    obtain ⟨number, inRange, rfl⟩ := List.mem_map.mp member
    by_contra free
    exact allUsed ⟨number, List.mem_range.mp inRange, free⟩
  have distinct : ((List.range (used.length + 1)).map (candidate base)).Nodup :=
    List.Nodup.map (candidate_injective base) List.nodup_range
  have tooMany := List.Nodup.length_le_of_subset distinct listed
  rw [List.length_map, List.length_range] at tooMany
  omega

/-- The search ends at the first free candidate, after at most one test more than there are used
names. -/
theorem firstFree_spec (used : List String) (base : String) :
    ∃ number,
      number ≤ used.length ∧ firstFree used base = candidate base number ∧
        candidate base number ∉ used ∧ ∀ earlier, earlier < number → candidate base earlier ∈ used := by
  obtain ⟨free, freeBound, freeUnused⟩ := exists_free_candidate used base
  cases search :
      (List.range (used.length + 1)).find? fun number => !used.contains (candidate base number) with
  | none =>
      rw [List.find?_range_eq_none] at search
      have refuted := search free freeBound
      simp [freeUnused] at refuted
  | some number =>
      obtain ⟨isFree, inRange, earlierUsed⟩ := List.find?_range_eq_some.mp search
      refine ⟨number, Nat.lt_succ_iff.mp (List.mem_range.mp inRange), ?_, ?_, ?_⟩
      · simp only [firstFree, search, Option.getD_some]
      · simpa using isFree
      · intro earlier before
        simpa using earlierUsed earlier before

theorem firstFree_not_mem (used : List String) (base : String) : firstFree used base ∉ used := by
  obtain ⟨number, _, found, unused, _⟩ := firstFree_spec used base
  rw [found]
  exact unused

/-- The search asks of the used names only which candidates are among them. -/
theorem firstFree_congr {left right : List String} {base : String}
    (alike : ∀ number, candidate base number ∈ left ↔ candidate base number ∈ right) :
    firstFree left base = firstFree right base := by
  obtain ⟨leftNumber, _, leftFound, leftFree, leftEarlier⟩ := firstFree_spec left base
  obtain ⟨rightNumber, _, rightFound, rightFree, rightEarlier⟩ := firstFree_spec right base
  have same : leftNumber = rightNumber := by
    apply Nat.le_antisymm
    · by_contra later
      have used := leftEarlier rightNumber (Nat.lt_of_not_le later)
      exact rightFree ((alike rightNumber).mp used)
    · by_contra later
      have used := rightEarlier leftNumber (Nat.lt_of_not_le later)
      exact leftFree ((alike leftNumber).mpr used)
  rw [leftFound, rightFound, same]

/-! ## What an escaped name is given -/

theorem hasSafeMark_firstFree (used : List String) (target : Target) (name : String) :
    Target.hasSafeMark (firstFree used (target.escaped name)) = true := by
  obtain ⟨number, _, found, _⟩ := firstFree_spec used (target.escaped name)
  rw [found]
  exact hasSafeMark_candidate (target.hasSafeMark_escaped name) number

/-- The mark alone makes a candidate longer than the name that it stands for. -/
theorem length_lt_length_candidate (target : Target) (name : String) (number : Nat) :
    name.length < (candidate (target.escaped name) number).length := by
  have escapedLonger := target.add_length_le_length_escaped name
  have candidateLonger := length_le_length_candidate (target.escaped name) number
  have markLength : Lua.safeMark.length = 4 := by decide
  omega

theorem length_lt_length_firstFree (used : List String) (target : Target) (name : String) :
    name.length < (firstFree used (target.escaped name)).length := by
  obtain ⟨number, _, found, _⟩ := firstFree_spec used (target.escaped name)
  rw [found]
  exact length_lt_length_candidate target name number

end NameLowering.NameTable
