import NameLowering.Proofs.Names.Consistency

/-!
# Histories of the name table

The table is asked to reserve names, to escape names and to mangle names, in any order. Whatever
the order, an escaped name is fresh when it is first assigned, and different names that are
escaped, or different names that are mangled, never get the same output name.
-/

namespace NameLowering

/-! ## Requests and answers -/

/-- What a name table is asked for. -/
inductive NameRequest where
  | reserve (name : String)
  | assign (name : String)
  | mangle (name : String)
deriving DecidableEq, Repr

namespace NameRequest

def name : NameRequest → String
  | reserve name | assign name | mangle name => name

/-- Whether the name that a request is about is escaped. -/
def escapes (target : Target) : NameRequest → Bool
  | reserve _ => false
  | assign _ => true
  | mangle name => target.mustEscape name

end NameRequest

/-- A request with the output name that it puts to use. -/
structure NameAnswer where
  request : NameRequest
  output : String
deriving DecidableEq, Repr

/-- The answer escapes a name that no earlier answer escaped. -/
def NameAnswer.IsNew
    (target : Target) (earlier : List NameAnswer) (answer : NameAnswer) : Prop :=
  answer.request.escapes target = true ∧
    ∀ old ∈ earlier,
      old.request.escapes target = true → old.request.name ≠ answer.request.name

namespace NameTable

/-- Does what a table is asked for. A name that is reserved is put to use as it is written. -/
def serve (target : Target) (request : NameRequest) (table : NameTable) : String × NameTable :=
  match request with
  | .reserve name => (name, table.reserve name)
  | .assign name => table.assign target name
  | .mangle name => table.mangle target name

def serveAll (target : Target) : List NameRequest → NameTable → NameTable
  | [], table => table
  | request :: rest, table => serveAll target rest (table.serve target request).2

def answers (target : Target) : List NameRequest → NameTable → List NameAnswer
  | [], _ => []
  | request :: rest, table =>
    { request, output := (table.serve target request).1 } ::
      answers target rest (table.serve target request).2

variable {target : Target}

theorem serve_eq_outputName (request : NameRequest) (table : NameTable) :
    table.serve target request =
      table.outputName target (request.escapes target) request.name := by
  cases request <;> rfl

theorem serveAll_append (first second : List NameRequest) (table : NameTable) :
    serveAll target (first ++ second) table =
      serveAll target second (serveAll target first table) := by
  induction first generalizing table with
  | nil =>
      rfl
  | cons request rest inductionHypothesis =>
      exact inductionHypothesis (table.serve target request).2

/-- A place in the list of answers is a place in the list of requests. -/
theorem answers_eq_append_cons
    {requests : List NameRequest} {table : NameTable} {earlier later : List NameAnswer}
    {answer : NameAnswer}
    (split : answers target requests table = earlier ++ answer :: later) :
    ∃ before,
      earlier = answers target before table ∧
        answer.output = ((serveAll target before table).serve target answer.request).1 := by
  induction requests generalizing table earlier with
  | nil =>
      simp [answers] at split
  | cons request rest inductionHypothesis =>
      cases earlier with
      | nil =>
          obtain ⟨rfl, _⟩ := List.cons.inj split
          exact ⟨[], rfl, rfl⟩
      | cons first earlierRest =>
          obtain ⟨rfl, restSplit⟩ := List.cons.inj split
          obtain ⟨before, earlierEqual, output⟩ := inductionHypothesis restSplit
          exact ⟨request :: before, by rw [earlierEqual]; rfl, output⟩

/-! ## What a table keeps -/

theorem extends_serve (request : NameRequest) (table : NameTable) :
    table.Extends (table.serve target request).2 := by
  rw [serve_eq_outputName]
  exact extends_outputName target _ _ table

theorem extends_serveAll (requests : List NameRequest) (table : NameTable) :
    table.Extends (serveAll target requests table) := by
  induction requests generalizing table with
  | nil =>
      exact Extends.refl table
  | cons request rest inductionHypothesis =>
      exact (extends_serve request table).trans (inductionHypothesis _)

theorem Consistent.serveAll
    {table : NameTable} (consistent : table.Consistent) (requests : List NameRequest) :
    (serveAll target requests table).Consistent := by
  induction requests generalizing table with
  | nil =>
      exact consistent
  | cons request rest inductionHypothesis =>
      apply inductionHypothesis
      rw [serve_eq_outputName]
      exact consistent.outputName target _ _

/-- What a table knows of an answer that it gave. -/
structure Knows (target : Target) (table : NameTable) (answer : NameAnswer) : Prop where
  escaped : answer.request.escapes target = true →
    table.assigned? answer.request.name = some answer.output
  kept : answer.request.escapes target = false → answer.output = answer.request.name
  used : answer.output ∈ table.used

theorem Knows.mono
    {table later : NameTable} {answer : NameAnswer} (known : Knows target table answer)
    (extension : table.Extends later) :
    Knows target later answer where
  escaped escapes := extension.assigned (known.escaped escapes)
  kept := known.kept
  used := extension.used known.used

/-- A table knows what an earlier one answered. -/
theorem knows_of_extends
    {table later : NameTable} {request : NameRequest} (consistent : later.Consistent)
    (extension : (table.serve target request).2.Extends later) :
    Knows target later { request, output := (table.serve target request).1 } := by
  rw [serve_eq_outputName] at extension ⊢
  cases escapes : request.escapes target with
  | true =>
      rw [escapes] at extension
      have assigned : later.assigned? request.name = some (table.assign target request.name).1 :=
        extension.assigned (assigned?_assign_self target request.name table)
      refine ⟨fun _ => assigned, fun kept => ?_, consistent.used assigned⟩
      rw [escapes] at kept
      contradiction
  | false =>
      rw [escapes] at extension
      have used : request.name ∈ (table.reserve request.name).used :=
        (mem_used_reserve table request.name request.name).mpr (Or.inl rfl)
      refine ⟨fun escaped => ?_, fun _ => rfl, extension.used used⟩
      rw [escapes] at escaped
      contradiction

theorem knows_serve
    {table : NameTable} (consistent : table.Consistent) (request : NameRequest) :
    Knows target (table.serve target request).2
      { request, output := (table.serve target request).1 } :=
  knows_of_extends (consistent.serveAll [request]) (Extends.refl _)

/-- At the end of a history the table knows every answer of it. -/
theorem knows_of_mem_answers
    {requests : List NameRequest} {table : NameTable} (consistent : table.Consistent)
    {answer : NameAnswer} (member : answer ∈ answers target requests table) :
    Knows target (serveAll target requests table) answer := by
  induction requests generalizing table with
  | nil =>
      simp [answers] at member
  | cons request rest inductionHypothesis =>
      have nextConsistent : (table.serve target request).2.Consistent :=
        consistent.serveAll [request]
      rcases List.mem_cons.mp member with rfl | restMember
      · exact (knows_serve consistent request).mono (extends_serveAll rest _)
      · exact inductionHypothesis nextConsistent restMember

/-- A table that is not new to a name has escaped it in its history. -/
theorem exists_escape_of_assigned
    {requests : List NameRequest} {table : NameTable} {name output : String}
    (known : (serveAll target requests table).assigned? name = some output) :
    table.assigned? name = some output ∨
      ∃ answer ∈ answers target requests table,
        answer.request.escapes target = true ∧ answer.request.name = name := by
  induction requests generalizing table with
  | nil =>
      exact Or.inl known
  | cons request rest inductionHypothesis =>
      rcases inductionHypothesis known with before | ⟨answer, member, escape⟩
      · rw [serve_eq_outputName] at before
        cases escapes : request.escapes target with
        | false =>
            rw [escapes] at before
            change (table.reserve request.name).assigned? name = some output at before
            rw [assigned?_reserve] at before
            exact Or.inl before
        | true =>
            by_cases same : name = request.name
            · exact Or.inr ⟨_, List.mem_cons_self, escapes, same.symm⟩
            · rw [escapes] at before
              change (table.assign target request.name).2.assigned? name = some output at before
              rw [assigned?_assign_of_ne same] at before
              exact Or.inl before
      · exact Or.inr ⟨answer, List.mem_cons_of_mem _ member, escape⟩

/-! ## Answers that a table knows -/

section Known

variable {table : NameTable} {first second : NameAnswer}

/-- Two names that are both escaped have the same output name only if they are the same. -/
theorem Knows.output_eq_iff_of_escapes
    (consistent : table.Consistent) (firstKnown : Knows target table first)
    (secondKnown : Knows target table second)
    (firstEscapes : first.request.escapes target = true)
    (secondEscapes : second.request.escapes target = true) :
    first.output = second.output ↔ first.request.name = second.request.name := by
  have firstAssigned := firstKnown.escaped firstEscapes
  have secondAssigned := secondKnown.escaped secondEscapes
  constructor
  · intro sameOutput
    rw [← sameOutput] at secondAssigned
    exact consistent.injective firstAssigned secondAssigned
  · intro sameName
    rw [sameName, secondAssigned] at firstAssigned
    exact (Option.some.inj firstAssigned).symm

/-- An escaped name and a safe one are told apart by the mark. -/
theorem Knows.output_ne_of_escapes_of_safe
    (consistent : table.Consistent) (firstKnown : Knows target table first)
    (secondKnown : Knows target table second)
    (firstEscapes : first.request.escapes target = true)
    (secondKeeps : second.request.escapes target = false)
    (safe : target.mustEscape second.request.name = false) :
    first.output ≠ second.output := by
  intro same
  have marked : Target.hasSafeMark first.output = true :=
    consistent.marked (firstKnown.escaped firstEscapes)
  rw [same, secondKnown.kept secondKeeps, Target.hasSafeMark_eq_false_of_safe safe] at marked
  contradiction

theorem Knows.output_eq_iff_of_mangle
    {left right : String} (consistent : table.Consistent)
    (firstKnown : Knows target table first) (secondKnown : Knows target table second)
    (firstMangles : first.request = .mangle left)
    (secondMangles : second.request = .mangle right) :
    first.output = second.output ↔ left = right := by
  have firstName : first.request.name = left := by rw [firstMangles]; rfl
  have secondName : second.request.name = right := by rw [secondMangles]; rfl
  have firstEscapes : first.request.escapes target = target.mustEscape first.request.name := by
    rw [firstMangles]; rfl
  have secondEscapes : second.request.escapes target = target.mustEscape second.request.name := by
    rw [secondMangles]; rfl
  rw [← firstName, ← secondName]
  cases firstEscaped : target.mustEscape first.request.name with
  | true =>
      cases secondEscaped : target.mustEscape second.request.name with
      | true =>
          exact firstKnown.output_eq_iff_of_escapes consistent secondKnown
            (firstEscapes.trans firstEscaped) (secondEscapes.trans secondEscaped)
      | false =>
          refine iff_of_false ?_ fun same => ?_
          · exact firstKnown.output_ne_of_escapes_of_safe consistent secondKnown
              (firstEscapes.trans firstEscaped) (secondEscapes.trans secondEscaped) secondEscaped
          · rw [same, secondEscaped] at firstEscaped
            contradiction
  | false =>
      have firstKept := firstKnown.kept (firstEscapes.trans firstEscaped)
      cases secondEscaped : target.mustEscape second.request.name with
      | true =>
          refine iff_of_false (Ne.symm ?_) fun same => ?_
          · exact secondKnown.output_ne_of_escapes_of_safe consistent firstKnown
              (secondEscapes.trans secondEscaped) (firstEscapes.trans firstEscaped) firstEscaped
          · rw [same, secondEscaped] at firstEscaped
            contradiction
      | false =>
          rw [firstKept, secondKnown.kept (secondEscapes.trans secondEscaped)]

end Known

/-! ## Histories of a fresh table -/

section Fresh

variable {requests : List NameRequest} {first second : NameAnswer}

theorem output_eq_iff_of_escapes
    (firstMember : first ∈ answers target requests {})
    (secondMember : second ∈ answers target requests {})
    (firstEscapes : first.request.escapes target = true)
    (secondEscapes : second.request.escapes target = true) :
    first.output = second.output ↔ first.request.name = second.request.name :=
  (knows_of_mem_answers consistent_empty firstMember).output_eq_iff_of_escapes
    (consistent_empty.serveAll requests) (knows_of_mem_answers consistent_empty secondMember)
    firstEscapes secondEscapes

/-- A newly assigned output name was not put to use before. -/
theorem output_fresh_of_isNew
    {earlier later : List NameAnswer} {answer : NameAnswer}
    (split : answers target requests {} = earlier ++ answer :: later)
    (new : answer.IsNew target earlier) {old : NameAnswer} (oldMember : old ∈ earlier) :
    old.output ≠ answer.output := by
  obtain ⟨before, rfl, output⟩ := answers_eq_append_cons split
  have oldUsed := (knows_of_mem_answers consistent_empty oldMember).used
  have unassigned : (serveAll target before {}).assigned? answer.request.name = none := by
    cases known : (serveAll target before {}).assigned? answer.request.name with
    | none =>
        rfl
    | some earlierOutput =>
        rcases exists_escape_of_assigned known with atStart | ⟨other, member, escapes, sameName⟩
        · rw [assigned?_empty] at atStart
          contradiction
        · exact absurd sameName (new.2 other member escapes)
  rw [serve_eq_outputName, new.1] at output
  change _ = ((serveAll target before {}).assign target answer.request.name).1 at output
  rw [assign_of_new unassigned] at output
  rw [output]
  rintro same
  exact firstFree_not_mem _ _ (same ▸ oldUsed)

theorem output_eq_iff_of_mangle
    {left right : String}
    (firstMember : first ∈ answers target requests {})
    (secondMember : second ∈ answers target requests {})
    (firstMangles : first.request = .mangle left)
    (secondMangles : second.request = .mangle right) :
    first.output = second.output ↔ left = right :=
  (knows_of_mem_answers consistent_empty firstMember).output_eq_iff_of_mangle
    (consistent_empty.serveAll requests) (knows_of_mem_answers consistent_empty secondMember)
    firstMangles secondMangles

end Fresh

/-- The laws of a history of a fresh table: names that are escaped, on their own or while they are
mangled, keep their output names and share them with no other, a newly assigned output name is
fresh, and mangled names are told apart. -/
theorem answers_apart (target : Target) (requests : List NameRequest) :
    (∀ first ∈ answers target requests {}, ∀ second ∈ answers target requests {},
      first.request.escapes target = true → second.request.escapes target = true →
        (first.output = second.output ↔ first.request.name = second.request.name)) ∧
    (∀ earlier answer later,
      answers target requests {} = earlier ++ answer :: later → answer.IsNew target earlier →
        ∀ old ∈ earlier, old.output ≠ answer.output) ∧
    (∀ first ∈ answers target requests {}, ∀ second ∈ answers target requests {},
      ∀ left right, first.request = .mangle left → second.request = .mangle right →
        (first.output = second.output ↔ left = right)) := by
  refine ⟨?_, ?_, ?_⟩
  · intro first firstMember second secondMember firstEscapes secondEscapes
    exact output_eq_iff_of_escapes firstMember secondMember firstEscapes secondEscapes
  · intro earlier answer later split new old oldMember
    exact output_fresh_of_isNew split new oldMember
  · intro first firstMember second secondMember left right firstMangles secondMangles
    exact output_eq_iff_of_mangle firstMember secondMember firstMangles secondMangles

theorem answers_apart_of_collisions :
    (answers .universal
        [.mangle "a$_24", .reserve "____end", .assign "end", .mangle "a_24$", .mangle "end"]
        {}).map NameAnswer.output =
      ["____a_24_24", "____end", "____end_1", "____a_24_24_1", "____end_1"] ∧
    "____a_24_24" ≠ "____a_24_24_1" := by
  refine ⟨by decide +kernel, ?_⟩
  have apart := (answers_apart .universal
    [.mangle "a$_24", .reserve "____end", .assign "end", .mangle "a_24$", .mangle "end"]).2.2
  have different := apart ⟨.mangle "a$_24", "____a_24_24"⟩ (by decide +kernel)
    ⟨.mangle "a_24$", "____a_24_24_1"⟩ (by decide +kernel) _ _ rfl rfl
  intro same
  exact absurd (different.mp same) (by decide)

end NameTable

end NameLowering
