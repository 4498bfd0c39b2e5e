import NameLowering.Proofs.Names.History

/-!
# Leaving out safe names

A safe name is put to use as it is written. It does not carry the mark of escaped names, so it is
never a candidate for one, and the search for a free candidate cannot tell whether it is reserved.
Requests for safe names may therefore be left out of a history, or put into one, and all the other
answers stay as they are.
-/

namespace NameLowering

/-! ## Leaving out entries -/

/-- A list without the entries at some of its places. -/
def withoutPlaces {α : Type} (omitted : Nat → Bool) : List α → List α
  | [] => []
  | first :: rest =>
    let later := withoutPlaces (fun place => omitted (place + 1)) rest
    if omitted 0 then later else first :: later

theorem withoutPlaces_map
    {α β : Type} (omitted : Nat → Bool) (change : α → β) (entries : List α) :
    withoutPlaces omitted (entries.map change) = (withoutPlaces omitted entries).map change := by
  induction entries generalizing omitted with
  | nil =>
      rfl
  | cons first rest inductionHypothesis =>
      rw [List.map_cons, withoutPlaces, withoutPlaces, inductionHypothesis]
      by_cases isOmitted : omitted 0 = true
      · rw [if_pos isOmitted, if_pos isOmitted]
      · rw [if_neg isOmitted, if_neg isOmitted, List.map_cons]

namespace NameTable

/-! ## Tables that differ in unmarked names -/

/-- Two tables have escaped the same names alike, and the same names with the mark are in use. -/
structure AlikeOnMarked (left right : NameTable) : Prop where
  assigned : left.assigned = right.assigned
  used : ∀ name, Target.hasSafeMark name = true → (name ∈ left.used ↔ name ∈ right.used)

theorem AlikeOnMarked.refl (table : NameTable) : table.AlikeOnMarked table :=
  ⟨rfl, fun _ _ => Iff.rfl⟩

theorem assigned_reserve (table : NameTable) (name : String) :
    (table.reserve name).assigned = table.assigned := by
  unfold NameTable.reserve
  split <;> rfl

namespace AlikeOnMarked

variable {target : Target} {left right : NameTable} {name : String}

/-- It makes no difference that one table reserves a name without the mark. -/
theorem reserve_right (alike : left.AlikeOnMarked right)
    (unmarked : Target.hasSafeMark name = false) :
    left.AlikeOnMarked (right.reserve name) where
  assigned := by rw [assigned_reserve, alike.assigned]
  used other marked := by
    have different : other ≠ name := by
      intro same
      rw [same, unmarked] at marked
      contradiction
    rw [mem_used_reserve, alike.used other marked]
    simp [different]

theorem reserve (alike : left.AlikeOnMarked right) (name : String) :
    (left.reserve name).AlikeOnMarked (right.reserve name) where
  assigned := by rw [assigned_reserve, assigned_reserve, alike.assigned]
  used other marked := by
    rw [mem_used_reserve, mem_used_reserve, alike.used other marked]

theorem firstFree_eq (alike : left.AlikeOnMarked right) (target : Target) (name : String) :
    firstFree left.used (target.escaped name) = firstFree right.used (target.escaped name) := by
  apply firstFree_congr
  intro number
  exact alike.used _ (hasSafeMark_candidate (target.hasSafeMark_escaped name) number)

theorem assign (alike : left.AlikeOnMarked right) (target : Target) (name : String) :
    (left.assign target name).1 = (right.assign target name).1 ∧
      (left.assign target name).2.AlikeOnMarked (right.assign target name).2 := by
  have sameEntry : left.assigned? name = right.assigned? name := by
    rw [assigned?, assigned?, alike.assigned]
  cases known : right.assigned? name with
  | some output =>
      rw [known] at sameEntry
      rw [assign_of_assigned sameEntry, assign_of_assigned known]
      exact ⟨rfl, alike⟩
  | none =>
      rw [known] at sameEntry
      rw [assign_of_new sameEntry, assign_of_new known, alike.firstFree_eq, alike.assigned]
      refine ⟨rfl, rfl, fun other marked => ?_⟩
      rw [List.mem_cons, List.mem_cons, alike.used other marked]

theorem serve (alike : left.AlikeOnMarked right) (target : Target) (request : NameRequest) :
    (left.serve target request).1 = (right.serve target request).1 ∧
      (left.serve target request).2.AlikeOnMarked (right.serve target request).2 := by
  rw [serve_eq_outputName, serve_eq_outputName, outputName, outputName]
  by_cases escapes : request.escapes target = true
  · rw [if_pos escapes, if_pos escapes]
    exact alike.assign target request.name
  · rw [if_neg escapes, if_neg escapes]
    exact ⟨rfl, alike.reserve request.name⟩

/-- Requests that keep a name without the mark may be left out on one side. -/
theorem answers_eq (alike : left.AlikeOnMarked right)
    {requests : List NameRequest} {omitted : Nat → Bool}
    (plain : ∀ place request, requests[place]? = some request → omitted place = true →
      request.escapes target = false ∧ Target.hasSafeMark request.name = false) :
    answers target (withoutPlaces omitted requests) left =
      withoutPlaces omitted (answers target requests right) := by
  induction requests generalizing left right omitted with
  | nil =>
      rfl
  | cons request rest inductionHypothesis =>
      have restPlain := fun place other held =>
        plain (place + 1) other ((List.getElem?_cons_succ).trans held)
      rw [answers, withoutPlaces, withoutPlaces]
      by_cases isOmitted : omitted 0 = true
      · -- Only the second table notes the name.
        obtain ⟨keeps, unmarked⟩ := plain 0 request rfl isOmitted
        rw [if_pos isOmitted, if_pos isOmitted]
        apply inductionHypothesis _ restPlain
        rw [serve_eq_outputName, keeps]
        exact alike.reserve_right unmarked
      · obtain ⟨sameOutput, stillAlike⟩ := alike.serve target request
        rw [if_neg isOmitted, if_neg isOmitted, answers, sameOutput,
          inductionHypothesis stillAlike restPlain]

end AlikeOnMarked

/-! ## Histories without safe names -/

/-- Mangling fewer safe names changes no other answer. -/
theorem answers_withoutPlaces (target : Target) (names : List String) (omitted : Nat → Bool)
    (safe : ∀ place name, names[place]? = some name → omitted place = true →
      target.mustEscape name = false) :
    answers target ((withoutPlaces omitted names).map .mangle) {} =
      withoutPlaces omitted (answers target (names.map .mangle) {}) := by
  rw [← withoutPlaces_map]
  apply (AlikeOnMarked.refl {}).answers_eq
  intro place request held isOmitted
  rw [List.getElem?_map, Option.map_eq_some_iff] at held
  obtain ⟨name, named, rfl⟩ := held
  have keeps := safe place name named isOmitted
  exact ⟨keeps, Target.hasSafeMark_eq_false_of_safe keeps⟩

/-- The second escape keeps its number when two of the three ordinary names are left out. -/
theorem answers_withoutPlaces_ordinary :
    (∀ place name, ["x", "a$_24", "y", "x", "a_24$"][place]? = some name →
      (place == 0 || place == 2) = true → Target.universal.mustEscape name = false) ∧
    (answers .universal (["a$_24", "x", "a_24$"].map .mangle) {}).map NameAnswer.output =
      ["____a_24_24", "x", "____a_24_24_1"] := by
  have safe : ∀ place name, ["x", "a$_24", "y", "x", "a_24$"][place]? = some name →
      (place == 0 || place == 2) = true → Target.universal.mustEscape name = false := by
    intro place name held isOmitted
    rw [Bool.or_eq_true, beq_iff_eq, beq_iff_eq] at isOmitted
    rcases isOmitted with first | third
    · rw [first] at held
      obtain rfl := Option.some.inj held
      decide
    · rw [third] at held
      obtain rfl := Option.some.inj held
      decide
  have unchanged :=
    answers_withoutPlaces .universal ["x", "a$_24", "y", "x", "a_24$"]
      (fun place => place == 0 || place == 2) safe
  have remaining :
      withoutPlaces (fun place => place == 0 || place == 2) ["x", "a$_24", "y", "x", "a_24$"] =
        ["a$_24", "x", "a_24$"] := by
    decide
  rw [remaining] at unchanged
  refine ⟨safe, ?_⟩
  rw [unchanged]
  decide +kernel

end NameTable

end NameLowering
