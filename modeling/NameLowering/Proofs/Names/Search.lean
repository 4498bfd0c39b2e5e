import Mathlib.Algebra.Group.Nat.Defs
import NameLowering.Proofs.Names.Candidates
import NameLowering.Proofs.Names.Consistency

/-!
# The search as a loop

The free candidate of a name is found by testing one candidate after the other, while a word of 32
bits holds the number of the next one. The loop comes to an end before that number grows too large,
and it ends at the candidate that the table assigns.
-/

namespace NameLowering.NameTable

/-! ## The loop -/

/-- A search for a free candidate. -/
structure Search where
  /-- The candidate to test next. -/
  candidate : String
  /-- The number of the candidate after that. -/
  suffix : UInt32
  /-- How many candidates were tested. -/
  tests : Nat
deriving DecidableEq, Repr

namespace Search

def start (base : String) : Search :=
  { candidate := base, suffix := 1, tests := 0 }

/-- Goes on after a candidate that is used. Fails if the number of the next candidate is the largest
of its size, as the one after that has no number then. -/
def advance? (base : String) (search : Search) : Option Search :=
  if search.suffix.toNat + 1 < UInt32.size then
    some
      { candidate := base ++ "_" ++ toString search.suffix
        suffix := search.suffix + 1
        tests := search.tests + 1 }
  else
    none

theorem toNat_suffix_of_advance? {base : String} {search next : Search}
    (advanced : search.advance? base = some next) :
    search.suffix.toNat < UInt32.size - 1 ∧ next.suffix.toNat = search.suffix.toNat + 1 := by
  unfold advance? at advanced
  split at advanced
  · rename_i bound
    obtain rfl := Option.some.inj advanced
    refine ⟨by omega, ?_⟩
    rw [UInt32.toNat_add, UInt32.toNat_one]
    exact Nat.mod_eq_of_lt bound
  · contradiction

/-- Tests candidates until one is free. -/
def run? (used : List String) (base : String) (search : Search) : Option Search :=
  if used.contains search.candidate then
    match _advanced : search.advance? base with
    | none => none
    | some next => run? used base next
  else
    some { search with tests := search.tests + 1 }
termination_by UInt32.size - search.suffix.toNat
decreasing_by
  have := toNat_suffix_of_advance? _advanced
  omega

/-! ## Rounds -/

/-- The search before a candidate is tested. -/
def before (base : String) (number : Nat) : Search :=
  { candidate := NameTable.candidate base number, suffix := .ofNat (number + 1), tests := number }

variable {used : List String} {base : String} {number last : Nat}

theorem advance?_before (bound : number + 2 < 2 ^ 32) :
    (before base number).advance? base = some (before base (number + 1)) := by
  have suffix : (UInt32.ofNat (number + 1)).toNat = number + 1 :=
    UInt32.toNat_ofNat_of_lt' (Nat.lt_of_succ_lt bound)
  have successor : UInt32.ofNat (number + 1) + 1 = UInt32.ofNat (number + 1 + 1) := by
    rw [← UInt32.toNat_inj, UInt32.toNat_add, suffix, UInt32.toNat_ofNat_of_lt' bound]
    exact Nat.mod_eq_of_lt bound
  have digits : toString (UInt32.ofNat (number + 1)) = toString (number + 1) :=
    congrArg toString suffix
  simp only [advance?, before, suffix, successor, digits]
  exact if_pos bound

theorem run?_of_free (free : NameTable.candidate base number ∉ used) :
    run? used base (before base number) =
      some { before base number with tests := number + 1 } := by
  have notContained : used.contains (before base number).candidate = false := by
    simpa [before] using free
  rw [run?, notContained]
  rfl

theorem run?_of_used (bound : number + 2 < 2 ^ 32)
    (taken : NameTable.candidate base number ∈ used) :
    run? used base (before base number) = run? used base (before base (number + 1)) := by
  have contained : used.contains (before base number).candidate = true := by
    simpa [before] using taken
  rw [run?, contained, if_pos rfl]
  split
  · rename_i failed
    rw [advance?_before bound] at failed
    contradiction
  · rename_i next advanced
    rw [advance?_before bound] at advanced
    rw [Option.some.inj advanced]

/-- The search passes over the used candidates up to the first free one. -/
theorem run?_before {remaining : Nat} (isLast : number + remaining = last)
    (bound : last + 1 < 2 ^ 32) (free : NameTable.candidate base last ∉ used)
    (taken : ∀ earlier < last, NameTable.candidate base earlier ∈ used) :
    run? used base (before base number) = some { before base last with tests := last + 1 } := by
  induction remaining generalizing number with
  | zero =>
      obtain rfl : number = last := isLast
      exact run?_of_free free
  | succ remaining inductionHypothesis =>
      rw [run?_of_used (by omega) (taken number (by omega))]
      exact inductionHypothesis (by omega)

end Search

/-! ## The candidate of a new name -/

/-- The bound on the search counts the different names that are used. -/
theorem firstFree_spec_eraseDups (used : List String) (base : String) :
    ∃ number ≤ used.eraseDups.length,
      firstFree used base = candidate base number ∧ candidate base number ∉ used ∧
        ∀ earlier < number, candidate base earlier ∈ used := by
  have same : firstFree used base = firstFree used.eraseDups base :=
    firstFree_congr fun _ => List.mem_eraseDups.symm
  obtain ⟨number, bound, found, free, taken⟩ := firstFree_spec used.eraseDups base
  refine ⟨number, bound, same.trans found, fun member => ?_, fun earlier before => ?_⟩
  · exact free (List.mem_eraseDups.mpr member)
  · exact List.mem_eraseDups.mp (taken earlier before)

/-- If fewer names are used than a word of 32 bits can number, the search for a new name tests at
most one candidate more than there are used names, and every number on its way is a word. It ends at
the first candidate that is not used, and that is the one assigned. -/
theorem run?_assign (target : Target) (table : NameTable) (name : String)
    (new : table.assigned? name = none) (few : table.used.eraseDups.length < 2 ^ 32 - 1) :
    ∃ number found,
      Search.run? table.used (target.escaped name) (.start (target.escaped name)) = some found ∧
      found.tests = number + 1 ∧ found.tests ≤ table.used.eraseDups.length + 1 ∧
      found.suffix.toNat = number + 1 ∧
      found.candidate = candidate (target.escaped name) number ∧
      (table.assign target name).1 = candidate (target.escaped name) number ∧
      candidate (target.escaped name) number ∉ table.used ∧
      ∀ earlier < number, candidate (target.escaped name) earlier ∈ table.used := by
  obtain ⟨number, bound, assigned, free, taken⟩ :=
    firstFree_spec_eraseDups table.used (target.escaped name)
  have inWord : number + 1 < 2 ^ 32 := by omega
  refine ⟨number, _, Search.run?_before (Nat.zero_add number) inWord free taken, rfl,
    Nat.succ_le_succ bound, ?_, rfl, ?_, free, taken⟩
  · exact UInt32.toNat_ofNat_of_lt' inWord
  · rw [assign_of_new new]
    exact assigned

/-- A table in which two candidates for `a_24$` are used. -/
def twoCandidatesUsed : NameTable where
  assigned := [("a$_24", "____a_24_24")]
  used := ["____a_24_24_1", "print", "____a_24_24"]

theorem run?_assign_twoCandidatesUsed :
    twoCandidatesUsed.assigned? "a_24$" = none ∧
      twoCandidatesUsed.used.eraseDups.length < 2 ^ 32 - 1 ∧
      Search.run? twoCandidatesUsed.used "____a_24_24" (.start "____a_24_24") =
        some { candidate := "____a_24_24_2", suffix := 3, tests := 3 } := by
  have new : twoCandidatesUsed.assigned? "a_24$" = none := by decide +kernel
  have few : twoCandidatesUsed.used.eraseDups.length < 2 ^ 32 - 1 := by decide +kernel
  have base : Target.universal.escaped "a_24$" = "____a_24_24" := by decide +kernel
  obtain ⟨number, found, ends, tests, _, suffix, name, _, free, taken⟩ :=
    run?_assign .universal twoCandidatesUsed "a_24$" new few
  rw [base] at ends name free taken
  have isTwo : number = 2 := by
    rcases Nat.lt_trichotomy number 2 with earlier | same | later
    · have allTaken : ∀ number < 2, candidate "____a_24_24" number ∈ twoCandidatesUsed.used := by
        decide +kernel
      exact absurd (allTaken number earlier) free
    · exact same
    · have notTaken : candidate "____a_24_24" 2 ∉ twoCandidatesUsed.used := by decide +kernel
      exact absurd (taken 2 later) notTaken
  subst isTwo
  refine ⟨new, few, ends.trans (congrArg some ?_)⟩
  obtain ⟨_, _, _⟩ := found
  obtain rfl := name
  obtain rfl := tests
  obtain rfl := UInt32.toNat_inj.mp (suffix.trans (by decide : 3 = (3 : UInt32).toNat))
  rfl

end NameLowering.NameTable
