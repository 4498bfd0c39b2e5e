import Mathlib.Data.List.Nodup
import NameLowering.Symbols.Container

/-!
# The way outwards

From container to container the way outwards may end, run into a circle, or be very long. The
declaring chain of a symbol is the longest first part of the way that lists nothing twice and keeps
to the limit. So a way that keeps to the limit is listed in full, one that ends as well as one that
comes back.
-/

namespace NameLowering.SymbolTable

variable {table : SymbolTable} {next : Option SymbolRef} {container : SymbolRef}
  {containers : List SymbolRef} {place : Nat}

/-! ## Places on the way -/

/-- The container at a place on the way outwards, of which `next` is the first. -/
def wayOut (table : SymbolTable) (next : Option SymbolRef) : Nat → Option SymbolRef
  | 0 => next
  | place + 1 => wayOut table (next.bind table.parent?) place

/-- The containers are the first ones on the way outwards. -/
def LeadsOut (table : SymbolTable) (next : Option SymbolRef) (containers : List SymbolRef) : Prop :=
  ∀ place container, containers[place]? = some container →
    table.wayOut next place = some container

theorem wayOut_none (table : SymbolTable) (place : Nat) : table.wayOut none place = none := by
  induction place with
  | zero =>
      rfl
  | succ place inductionHypothesis =>
      exact inductionHypothesis

theorem wayOut_add (table : SymbolTable) (next : Option SymbolRef) (first rest : Nat) :
    table.wayOut next (first + rest) = table.wayOut (table.wayOut next first) rest := by
  induction first generalizing next with
  | zero =>
      rw [Nat.zero_add]
      rfl
  | succ first inductionHypothesis =>
      rw [Nat.succ_add]
      exact inductionHypothesis _

theorem wayOut_eq_none_of_le {earlier later : Nat} (ended : table.wayOut next earlier = none)
    (inOrder : earlier ≤ later) :
    table.wayOut next later = none := by
  obtain ⟨rest, rfl⟩ := Nat.exists_eq_add_of_le inOrder
  rw [wayOut_add, ended, wayOut_none]

theorem leadsOut_cons_iff :
    table.LeadsOut next (container :: containers) ↔
      next = some container ∧ table.LeadsOut (table.parent? container) containers := by
  constructor
  · intro leads
    obtain rfl : next = some container := leads 0 container rfl
    exact ⟨rfl, fun place other found => leads (place + 1) other found⟩
  · rintro ⟨rfl, leads⟩ place other found
    cases place with
    | zero =>
        exact found
    | succ place =>
        exact leads place other found

theorem exists_leadsOut (reached : table.wayOut next place = some container) :
    ∃ before, before.length = place ∧ table.LeadsOut next (before ++ [container]) := by
  induction place generalizing next with
  | zero =>
      refine ⟨[], rfl, leadsOut_cons_iff.mpr ⟨reached, ?_⟩⟩
      intro place other found
      contradiction
  | succ place inductionHypothesis =>
      cases next with
      | none =>
          rw [wayOut_none] at reached
          contradiction
      | some first =>
          obtain ⟨before, length, leads⟩ := inductionHypothesis reached
          exact ⟨first :: before, congrArg Nat.succ length, leadsOut_cons_iff.mpr ⟨rfl, leads⟩⟩

/-! ## Ways that come back -/

section Repeated

variable {first second : Nat}

/-- After two places with the same container the way goes on alike. -/
theorem wayOut_add_of_eq (same : table.wayOut next first = table.wayOut next second) (rest : Nat) :
    table.wayOut next (first + rest) = table.wayOut next (second + rest) := by
  rw [wayOut_add, wayOut_add, same]

/-- On a way that comes back, every container is met before the way is back. -/
theorem exists_wayOut_lt (inOrder : first < second)
    (same : table.wayOut next first = table.wayOut next second) (place : Nat) :
    ∃ early < second, table.wayOut next early = table.wayOut next place := by
  induction place using Nat.strongRecOn with
  | ind place inductionHypothesis =>
      by_cases early : place < second
      · exact ⟨place, early, rfl⟩
      · obtain ⟨rest, rfl⟩ := Nat.exists_eq_add_of_le (Nat.le_of_not_lt early)
        rw [← wayOut_add_of_eq same]
        exact inductionHypothesis (first + rest) (by omega)

/-- A way that ends does not come back. -/
theorem wayOut_ne_of_ends {last : Nat} (ends : table.wayOut next last = none)
    (inOrder : first < second) (reached : table.wayOut next second = some container) :
    table.wayOut next first ≠ table.wayOut next second := by
  intro same
  obtain ⟨early, before, ended⟩ := exists_wayOut_lt inOrder same last
  rw [ends] at ended
  rw [wayOut_eq_none_of_le ended (Nat.le_of_lt before)] at reached
  contradiction

end Repeated

/-- The containers of a way are different if no two of its places hold the same one. -/
theorem LeadsOut.nodup (leads : table.LeadsOut next containers)
    (apart : ∀ first second, first < second → second < containers.length →
      table.wayOut next first ≠ table.wayOut next second) :
    containers.Nodup := by
  rw [List.nodup_iff_getElem?_ne_getElem?]
  intro first second inOrder inRange same
  have atSecond : containers[second]? = some containers[second] := List.getElem?_eq_getElem inRange
  have wayFirst := leads first _ (same.trans atSecond)
  have waySecond := leads second _ atSecond
  exact apart first second inOrder inRange (wayFirst.trans waySecond.symm)

/-! ## The listing -/

theorem leadsOut_containersFrom (length : Nat) (seen : List SymbolRef) (next : Option SymbolRef) :
    table.LeadsOut next (table.containersFrom length seen next) := by
  fun_induction containersFrom table length seen next with
  | case1 | case2 | case3 =>
      intro place container found
      contradiction
  | case4 length seen container unseen inductionHypothesis =>
      exact leadsOut_cons_iff.mpr ⟨rfl, inductionHypothesis⟩

theorem length_containersFrom_le (length : Nat) (seen : List SymbolRef) (next : Option SymbolRef) :
    (table.containersFrom length seen next).length ≤ length := by
  fun_induction containersFrom table length seen next with
  | case1 | case2 | case3 =>
      exact Nat.zero_le _
  | case4 length seen container unseen inductionHypothesis =>
      exact Nat.succ_le_succ inductionHypothesis

theorem notMem_of_mem_containersFrom {length : Nat} {seen : List SymbolRef}
    (member : container ∈ table.containersFrom length seen next) :
    container ∉ seen := by
  fun_induction containersFrom table length seen next with
  | case1 | case2 | case3 =>
      contradiction
  | case4 length seen first unseen inductionHypothesis =>
      rcases List.mem_cons.mp member with rfl | inRest
      · simpa using unseen
      · intro inSeen
        exact inductionHypothesis inRest (List.mem_cons_of_mem first inSeen)

theorem nodup_containersFrom (length : Nat) (seen : List SymbolRef) (next : Option SymbolRef) :
    (table.containersFrom length seen next).Nodup := by
  fun_induction containersFrom table length seen next with
  | case1 | case2 | case3 =>
      exact List.nodup_nil
  | case4 length seen container unseen inductionHypothesis =>
      refine List.nodup_cons.mpr ⟨fun inRest => ?_, inductionHypothesis⟩
      exact notMem_of_mem_containersFrom inRest List.mem_cons_self

/-- Nothing shorter is listed: the listing stops only where it has to. -/
theorem prefix_containersFrom {length : Nat} {seen : List SymbolRef}
    (leads : table.LeadsOut next containers) (distinct : containers.Nodup)
    (unseen : ∀ container ∈ containers, container ∉ seen) (inLimit : containers.length ≤ length) :
    containers <+: table.containersFrom length seen next := by
  induction containers generalizing length seen next with
  | nil =>
      exact List.nil_prefix
  | cons first rest inductionHypothesis =>
      obtain ⟨rfl, restLeads⟩ := leadsOut_cons_iff.mp leads
      obtain ⟨notInRest, restDistinct⟩ := List.nodup_cons.mp distinct
      cases length with
      | zero =>
          contradiction
      | succ length =>
          have notSeen : seen.contains first = false := by
            simpa using unseen first List.mem_cons_self
          rw [containersFrom, notSeen, if_neg Bool.false_ne_true, List.prefix_cons_inj]
          apply inductionHypothesis restLeads restDistinct _ (Nat.le_of_succ_le_succ inLimit)
          intro container inRest inSeen
          rcases List.mem_cons.mp inSeen with rfl | wasSeen
          · exact notInRest inRest
          · exact unseen container (List.mem_cons_of_mem first inRest) wasSeen

/-! ## Containers within a limit -/

section Listing

variable {length : Nat}

/-- What is at a place of the way within the limit is listed at that place, unless the way came back
before. -/
theorem getElem?_containersFrom (inLimit : place < length)
    (reached : table.wayOut next place = some container)
    (apart : ∀ first second, first < second → second ≤ place →
      table.wayOut next first ≠ table.wayOut next second) :
    (table.containersFrom length [] next)[place]? = some container := by
  obtain ⟨before, rfl, leads⟩ := exists_leadsOut reached
  have size : (before ++ [container]).length = before.length + 1 := List.length_append
  have fits : (before ++ [container]).length ≤ length := by omega
  have distinct : (before ++ [container]).Nodup := by
    apply leads.nodup
    intro first second inOrder inRange
    exact apart first second inOrder (by omega)
  obtain ⟨after, whole⟩ :=
    prefix_containersFrom leads distinct (fun _ _ => List.not_mem_nil) fits
  rw [← whole, List.getElem?_append_left (by omega),
    List.getElem?_append_right (Nat.le_refl _), Nat.sub_self]
  rfl

theorem mem_containersFrom_of_wayOut (inLimit : place < length)
    (reached : table.wayOut next place = some container) :
    container ∈ table.containersFrom length [] next := by
  induction place using Nat.strongRecOn with
  | ind place inductionHypothesis =>
      by_cases back : ∃ first second, first < second ∧ second ≤ place ∧
          table.wayOut next first = table.wayOut next second
      · obtain ⟨first, second, inOrder, inRange, same⟩ := back
        obtain ⟨early, before, atEarly⟩ := exists_wayOut_lt inOrder same place
        exact inductionHypothesis early (by omega) (by omega) (atEarly.trans reached)
      · apply List.mem_of_getElem? (getElem?_containersFrom inLimit reached _)
        intro first second inOrder inRange same
        exact back ⟨first, second, inOrder, inRange, same⟩

/-- Whatever is met within the limit is listed once. -/
theorem count_containersFrom_of_wayOut (inLimit : place < length)
    (reached : table.wayOut next place = some container) :
    (table.containersFrom length [] next).count container = 1 := by
  have member := mem_containersFrom_of_wayOut inLimit reached
  exact List.count_eq_one_of_mem (nodup_containersFrom length [] next) member

/-- A way that ends within the limit is listed in full. -/
theorem getElem?_containersFrom_of_ends (ends : table.wayOut next length = none) (place : Nat) :
    (table.containersFrom length [] next)[place]? = table.wayOut next place := by
  cases reached : table.wayOut next place with
  | none =>
      cases found : (table.containersFrom length [] next)[place]? with
      | none =>
          rfl
      | some container =>
          rw [leadsOut_containersFrom length [] next place container found] at reached
          contradiction
  | some container =>
      have inLimit : place < length := by
        by_contra beyond
        rw [wayOut_eq_none_of_le ends (Nat.le_of_not_lt beyond)] at reached
        contradiction
      apply getElem?_containersFrom inLimit reached
      intro first second inOrder inRange
      cases atSecond : table.wayOut next second with
      | none =>
          rw [wayOut_eq_none_of_le atSecond inRange] at reached
          contradiction
      | some other =>
          rw [← atSecond]
          exact wayOut_ne_of_ends ends inOrder atSecond

/-- A way that comes back within the limit is listed without repetition. -/
theorem count_containersFrom_of_back {first second : Nat} (inOrder : first < second)
    (inLimit : second ≤ length) (same : table.wayOut next first = table.wayOut next second) :
    (table.containersFrom length [] next).count container = 1 ↔
      ∃ place, table.wayOut next place = some container := by
  constructor
  · intro listed
    have member : container ∈ table.containersFrom length [] next :=
      List.count_pos_iff.mp (by omega)
    obtain ⟨place, found⟩ := List.mem_iff_getElem?.mp member
    exact ⟨place, leadsOut_containersFrom length [] next place container found⟩
  · rintro ⟨place, reached⟩
    obtain ⟨early, before, atEarly⟩ := exists_wayOut_lt inOrder same place
    have earlyInLimit : early < length := Nat.lt_of_lt_of_le before inLimit
    exact count_containersFrom_of_wayOut earlyInLimit (atEarly.trans reached)

end Listing

/-! ## The declaring chain -/

/-- The declaring chain is the longest first part of the way outwards without repetition within the
limit. It is the whole way if that ends within the limit. Otherwise it lists every container that is
met within the limit once, and if the way comes back within the limit, these are all on it. -/
theorem declaringChain_isLongest (table : SymbolTable) (ref : SymbolRef) :
    (table.LeadsOut (table.parent? ref) (table.declaringChain ref) ∧
      (table.declaringChain ref).Nodup ∧
      (table.declaringChain ref).length ≤ Limits.declaringChain) ∧
    (∀ containers, table.LeadsOut (table.parent? ref) containers → containers.Nodup →
      containers.length ≤ Limits.declaringChain → containers <+: table.declaringChain ref) ∧
    (table.wayOut (table.parent? ref) Limits.declaringChain = none →
      ∀ place, (table.declaringChain ref)[place]? = table.wayOut (table.parent? ref) place) ∧
    (∀ place < Limits.declaringChain, ∀ container,
      table.wayOut (table.parent? ref) place = some container →
        (table.declaringChain ref).count container = 1) ∧
    (∀ first second, first < second → second ≤ Limits.declaringChain →
      table.wayOut (table.parent? ref) first = table.wayOut (table.parent? ref) second →
      ∀ container, (table.declaringChain ref).count container = 1 ↔
        ∃ place, table.wayOut (table.parent? ref) place = some container) := by
  refine ⟨⟨?_, ?_, ?_⟩, ?_, ?_, ?_, ?_⟩
  · exact leadsOut_containersFrom _ _ _
  · exact nodup_containersFrom _ _ _
  · exact length_containersFrom_le _ _ _
  · intro containers leads distinct inLimit
    exact prefix_containersFrom leads distinct (fun _ _ => List.not_mem_nil) inLimit
  · intro ends
    exact getElem?_containersFrom_of_ends ends
  · intro place inLimit container reached
    exact count_containersFrom_of_wayOut inLimit reached
  · intro first second inOrder inLimit same container
    exact count_containersFrom_of_back inOrder inLimit same

-- The way runs into a circle of two, of which either leads back to itself.
example :
    let table : SymbolTable :=
      { symbols := #[⟨"x", .localVariable, [], some ⟨1⟩⟩,
          ⟨"N", .namespaceDeclaration, [], some ⟨2⟩⟩, ⟨"M", .namespaceDeclaration, [], some ⟨1⟩⟩] }
    table.declaringChain ⟨0⟩ = [⟨1⟩, ⟨2⟩] ∧ table.declaringChain ⟨1⟩ = [⟨2⟩, ⟨1⟩] := by
  decide

end NameLowering.SymbolTable
