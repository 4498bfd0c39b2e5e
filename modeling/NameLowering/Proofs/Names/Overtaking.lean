import NameLowering.Proofs.Names.History

/-!
# Kept names that are overtaken

Two names that are both escaped, or both kept as they are written, have different output names. An
escaped name and a kept one may meet: the escape is fresh when it is assigned, but a name that is
kept has no choice, and it may come up later.
-/

namespace NameLowering.NameTable

variable {target : Target} {requests : List NameRequest}

/-- When a name is escaped for the first time, the first of its free candidates is what another
name is spelt like. -/
def Overtakes
    (target : Target) (requests : List NameRequest) (escaped kept : String) : Prop :=
  ∃ before request after,
    requests = before ++ request :: after ∧
      request.escapes target = true ∧ request.name = escaped ∧
      (∀ old ∈ before, old.escapes target = true → old.name ≠ escaped) ∧
      firstFree (serveAll target before {}).used (target.escaped escaped) = kept

theorem Overtakes.marked {escaped kept : String} (overtakes : Overtakes target requests escaped kept) :
    Target.hasSafeMark kept = true := by
  obtain ⟨before, _, _, _, _, _, _, chosen⟩ := overtakes
  rw [← chosen]
  exact hasSafeMark_firstFree _ target escaped

theorem answers_map_request
    (target : Target) (requests : List NameRequest) (table : NameTable) :
    (answers target requests table).map NameAnswer.request = requests := by
  induction requests generalizing table with
  | nil =>
      rfl
  | cons request rest inductionHypothesis =>
      exact congrArg _ (inductionHypothesis (table.serve target request).2)

theorem assigned?_serveAll_of_mem
    {request : NameRequest} (member : request ∈ requests)
    (escapes : request.escapes target = true) :
    ∃ output, (serveAll target requests {}).assigned? request.name = some output := by
  rw [← answers_map_request target requests {}] at member
  obtain ⟨answer, answerMember, rfl⟩ := List.mem_map.mp member
  exact ⟨answer.output, (knows_of_mem_answers consistent_empty answerMember).escaped escapes⟩

theorem assigned?_serveAll_eq_none
    {name : String} (never : ∀ old ∈ requests, old.escapes target = true → old.name ≠ name) :
    (serveAll target requests {}).assigned? name = none := by
  cases known : (serveAll target requests {}).assigned? name with
  | none =>
      rfl
  | some output =>
      rcases exists_escape_of_assigned known with atStart | ⟨answer, member, escapes, sameName⟩
      · rw [assigned?_empty] at atStart
        contradiction
      · have requested : answer.request ∈ requests := by
          rw [← answers_map_request target requests {}]
          exact List.mem_map_of_mem member
        exact absurd sameName (never answer.request requested escapes)

/-- The output name of an escaped name was chosen when it was escaped for the first time. -/
theorem assigned?_serveAll_iff_overtakes {escaped output : String} :
    (serveAll target requests {}).assigned? escaped = some output ↔
      Overtakes target requests escaped output := by
  -- Whoever asks first decides.
  have chosen
      {before after : List NameRequest} {request : NameRequest}
      (escapes : request.escapes target = true)
      (never : ∀ old ∈ before, old.escapes target = true → old.name ≠ request.name) :
      (serveAll target (before ++ request :: after) {}).assigned? request.name =
        some (firstFree (serveAll target before {}).used (target.escaped request.name)) := by
    have new := assigned?_serveAll_eq_none never
    have served := assigned?_assign_self target request.name (serveAll target before {})
    rw [assign_of_new new] at served
    rw [serveAll_append, serveAll]
    apply (extends_serveAll after _).assigned
    rw [serve_eq_outputName, escapes, outputName, if_pos rfl, assign_of_new new]
    exact served
  constructor
  · intro known
    have asked : ∃ request ∈ requests,
        (request.escapes target && request.name == escaped) = true := by
      rcases exists_escape_of_assigned known with atStart | ⟨answer, member, escapes, sameName⟩
      · rw [assigned?_empty] at atStart
        contradiction
      · refine ⟨answer.request, ?_, by simp [escapes, sameName]⟩
        rw [← answers_map_request target requests {}]
        exact List.mem_map_of_mem member
    obtain ⟨first, found⟩ := Option.isSome_iff_exists.mp (List.find?_isSome.mpr asked)
    obtain ⟨isEscape, before, after, rfl, noneBefore⟩ := List.find?_eq_some_iff_append.mp found
    obtain ⟨escapes, sameName⟩ : first.escapes target = true ∧ first.name = escaped := by
      simpa using isEscape
    have never : ∀ old ∈ before, old.escapes target = true → old.name ≠ escaped := by
      intro old member oldEscapes same
      have notEscape := noneBefore old member
      simp [oldEscapes, same] at notEscape
    refine ⟨before, first, after, rfl, escapes, sameName, never, ?_⟩
    subst sameName
    rw [chosen escapes never] at known
    exact Option.some.inj known
  · rintro ⟨before, request, after, rfl, escapes, rfl, never, rfl⟩
    exact chosen escapes never

/-- A name is only ever assigned one of the candidates for its escape. -/
theorem exists_candidate_of_assigned? {name output : String}
    (known : (serveAll target requests {}).assigned? name = some output) :
    ∃ number, output = candidate (target.escaped name) number := by
  obtain ⟨before, _, _, _, _, _, _, chosen⟩ := assigned?_serveAll_iff_overtakes.mp known
  obtain ⟨number, _, found, _⟩ :=
    firstFree_spec (serveAll target before {}).used (target.escaped name)
  exact ⟨number, chosen.symm.trans found⟩

/-- After any history, a name that is escaped is answered with a candidate for its escape. -/
theorem exists_candidate_of_serve
    (requests : List NameRequest) {request : NameRequest}
    (escapes : request.escapes target = true) :
    ∃ number,
      ((serveAll target requests {}).serve target request).1 =
        candidate (target.escaped request.name) number := by
  have assigned :
      (serveAll target (requests ++ [request]) {}).assigned? request.name =
        some ((serveAll target requests {}).serve target request).1 := by
    rw [serveAll_append, serveAll, serveAll, serve_eq_outputName, escapes]
    exact assigned?_assign_self target request.name _
  exact exists_candidate_of_assigned? assigned

/-! ## Names that meet -/

theorem assigned?_serve
    {request : NameRequest} (member : request ∈ requests)
    (escapes : request.escapes target = true) :
    (serveAll target requests {}).assigned? request.name =
      some ((serveAll target requests {}).serve target request).1 := by
  obtain ⟨output, known⟩ := assigned?_serveAll_of_mem member escapes
  rw [serve_eq_outputName, escapes, outputName, if_pos rfl, assign_of_assigned known]
  exact known

theorem serve_of_kept
    {request : NameRequest} (keeps : request.escapes target = false) (table : NameTable) :
    (table.serve target request).1 = request.name := by
  rw [serve_eq_outputName, keeps]
  rfl

/-- An escaped name meets a kept one exactly if it overtakes it. -/
theorem serve_eq_iff_overtakes
    {escaped kept : NameRequest} (member : escaped ∈ requests)
    (escapes : escaped.escapes target = true) (keeps : kept.escapes target = false) :
    ((serveAll target requests {}).serve target escaped).1 =
        ((serveAll target requests {}).serve target kept).1 ↔
      Overtakes target requests escaped.name kept.name := by
  rw [serve_of_kept keeps, ← assigned?_serveAll_iff_overtakes, assigned?_serve member escapes,
    Option.some.injEq]

/-- Two different names meet exactly if one is kept and the other overtakes it. -/
theorem serve_eq_iff
    {first second : NameRequest} (firstMember : first ∈ requests)
    (secondMember : second ∈ requests) (different : first.name ≠ second.name) :
    ((serveAll target requests {}).serve target first).1 =
        ((serveAll target requests {}).serve target second).1 ↔
      (first.escapes target = true ∧ second.escapes target = false ∧
          Overtakes target requests first.name second.name) ∨
        (second.escapes target = true ∧ first.escapes target = false ∧
          Overtakes target requests second.name first.name) := by
  cases firstEscapes : first.escapes target with
  | true =>
      cases secondEscapes : second.escapes target with
      | true =>
          have consistent : (serveAll target requests {}).Consistent :=
            consistent_empty.serveAll requests
          have firstKnown := assigned?_serve firstMember firstEscapes
          have secondKnown := assigned?_serve secondMember secondEscapes
          refine iff_of_false (fun same => ?_) (by simp)
          rw [← same] at secondKnown
          exact different (consistent.injective firstKnown secondKnown)
      | false =>
          rw [serve_eq_iff_overtakes firstMember firstEscapes secondEscapes]
          simp
  | false =>
      cases secondEscapes : second.escapes target with
      | true =>
          rw [eq_comm, serve_eq_iff_overtakes secondMember secondEscapes firstEscapes]
          simp
      | false =>
          rw [serve_of_kept firstEscapes, serve_of_kept secondEscapes]
          exact iff_of_false different (by simp)

end NameLowering.NameTable
