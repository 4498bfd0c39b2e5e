import NameLowering.Proofs.Walk.Entries

/-!
# Failures of a walk

A walk fails at the first place where it cannot go on: at a reference that leads to no node, or at
an identifier that holds no name and that a declaration binds. This holds of all programs, whether
their nodes form a tree or not.
-/

namespace NameLowering

/-! ## Places where a walk cannot go on -/

/-- A walk over a number of levels cannot go on at the end of a path, if it comes there. The path
counts the children that the walk looks for at each node, and the name of a declaration before its
parts. -/
inductive Program.FailsAt (program : Program) :
    (levels : Nat) → NodeRef → (path : List Nat) → LoweringError → Prop
  | missing
      {levels : Nat} {ref : NodeRef} (missing : program.tree.node? ref = none) :
      FailsAt program (levels + 1) ref [] (.missingNode ref)
  | object
      {levels : Nat} {ref object key : NodeRef} {node : Node} {path : List Nat}
      {error : LoweringError}
      (held : program.tree.node? ref = some node) (shape : node.shape = .member object key)
      (below : FailsAt program levels object path error) :
      FailsAt program (levels + 1) ref (0 :: path) error
  | unnamed
      {levels : Nat} {ref bound : NodeRef} {node : Node} {parts : List NodeRef}
      {error : LoweringError}
      (held : program.tree.node? ref = some node) (shape : node.shape = .declaration bound parts)
      (notAmbient : program.isAmbientName bound = false)
      (isName : program.tree.kind? bound = some .identifier)
      (unnamed : program.expectName bound = .error error) :
      FailsAt program (levels + 1) ref [0] error
  | name
      {levels : Nat} {ref bound : NodeRef} {node : Node} {parts : List NodeRef} {path : List Nat}
      {error : LoweringError}
      (held : program.tree.node? ref = some node) (shape : node.shape = .declaration bound parts)
      (notAmbient : program.isAmbientName bound = false)
      (noName : program.tree.kind? bound ≠ some .identifier) (present : bound.isPresent = true)
      (below : FailsAt program levels bound path error) :
      FailsAt program (levels + 1) ref (0 :: path) error
  | part
      {levels index : Nat} {ref bound part : NodeRef} {node : Node} {parts : List NodeRef}
      {path : List Nat} {error : LoweringError}
      (held : program.tree.node? ref = some node) (shape : node.shape = .declaration bound parts)
      (notAmbient : program.isAmbientName bound = false) (isPart : parts[index]? = some part)
      (below : FailsAt program levels part path error) :
      FailsAt program (levels + 1) ref ((1 + index) :: path) error
  | child
      {levels index : Nat} {ref child : NodeRef} {node : Node} {path : List Nat}
      {error : LoweringError}
      (held : program.tree.node? ref = some node) (container : node.shape.isContainer = true)
      (isChild : node.shape.children[index]? = some child)
      (below : FailsAt program levels child path error) :
      FailsAt program (levels + 1) ref ((0 + index) :: path) error

/-- Of all places where a walk from a node of a file cannot go on, the first has this error. -/
def Program.FailsFirstWith (program : Program) (root : NodeRef) (error : LoweringError) : Prop :=
  ∃ path, program.FailsAt Limits.treeDepth root path error ∧
    ∀ otherPath other, program.FailsAt Limits.treeDepth root otherPath other → ¬ otherPath < path

/-! ## Results that fail as the first of their failures -/

theorem not_cons_lt_cons {position later : Nat} (before : position < later)
    (path otherPath : List Nat) :
    ¬ later :: otherPath < position :: path := by
  intro reversed
  rcases List.cons_lt_cons_iff.mp reversed with less | ⟨same, _⟩ <;> omega

/-- A result is the first of some failures, or a success if there are none. -/
inductive FailsFirst {α : Type} (failures : List Nat → LoweringError → Prop) :
    Except LoweringError α → Prop
  | ok {value : α} (none : ∀ path error, ¬ failures path error) : FailsFirst failures (.ok value)
  | error
      {path : List Nat} {error : LoweringError} (fails : failures path error)
      (first : ∀ otherPath other, failures otherPath other → ¬ otherPath < path) :
      FailsFirst failures (.error error)

namespace FailsFirst

variable {α β : Type} {failures otherFailures : List Nat → LoweringError → Prop}
  {result : Except LoweringError α}

theorem congr (search : FailsFirst failures result)
    (same : ∀ path error, otherFailures path error ↔ failures path error) :
    FailsFirst otherFailures result := by
  cases search with
  | ok none =>
      exact .ok fun path error => (same path error).not.mpr (none path error)
  | error fails first =>
      refine .error ((same _ _).mpr fails) fun otherPath other otherFails => ?_
      exact first otherPath other ((same otherPath other).mp otherFails)

theorem map (search : FailsFirst failures result) (change : α → β) :
    FailsFirst failures (result.map change) := by
  cases search with
  | ok none => exact .ok none
  | error fails first => exact .error fails first

/-- Failures below a child, as seen from its parent. -/
theorem under (position : Nat) (search : FailsFirst failures result) :
    FailsFirst (fun path error => ∃ rest, path = position :: rest ∧ failures rest error)
      result := by
  cases search with
  | ok none =>
      refine .ok ?_
      rintro _ error ⟨rest, _, fails⟩
      exact none rest error fails
  | error fails first =>
      refine .error ⟨_, rfl, fails⟩ ?_
      rintro _ other ⟨rest, rfl, otherFails⟩
      intro before
      rcases List.cons_lt_cons_iff.mp before with less | ⟨_, restBefore⟩
      · exact Nat.lt_irrefl position less
      · exact first rest other otherFails restBefore

/-- What comes first fails first. -/
theorem append {earlier later : Except LoweringError (List Stop)}
    (search : FailsFirst failures earlier) (laterSearch : FailsFirst otherFailures later)
    (apart : ∀ path error otherPath other, failures path error →
      otherFailures otherPath other → ¬ otherPath < path) :
    FailsFirst (fun path error => failures path error ∨ otherFailures path error)
      (do
        let earlier ← earlier
        let later ← later
        return earlier ++ later) := by
  cases search with
  | @error path error fails first =>
      refine .error (Or.inl fails) fun otherPath other otherFails => ?_
      rcases otherFails with atEarlier | atLater
      · exact first otherPath other atEarlier
      · exact apart path error otherPath other fails atLater
  | ok none =>
      cases laterSearch with
      | ok laterNone =>
          exact .ok fun path error => not_or.mpr ⟨none path error, laterNone path error⟩
      | error fails first =>
          refine .error (Or.inr fails) fun otherPath other otherFails => ?_
          rcases otherFails with atEarlier | atLater
          · exact absurd atEarlier (none otherPath other)
          · exact first otherPath other atLater

theorem joinAll
    {stopsBelow : NodeRef → Except LoweringError (List Stop)}
    {failuresBelow : NodeRef → List Nat → LoweringError → Prop}
    (below : ∀ ref, FailsFirst (failuresBelow ref) (stopsBelow ref))
    (position : Nat) (refs : List NodeRef) :
    FailsFirst
      (fun path error => ∃ index ref rest, refs[index]? = some ref ∧
        path = (position + index) :: rest ∧ failuresBelow ref rest error)
      (Stop.joinAll stopsBelow position refs) := by
  induction refs generalizing position with
  | nil =>
      refine .ok ?_
      rintro _ _ ⟨index, ref, rest, atIndex, _⟩
      simp at atIndex
  | cons ref later inductionHypothesis =>
      have atFirst := ((below ref).under position).map fun stops => stops.map (Stop.under position)
      refine (atFirst.append (inductionHypothesis (position + 1)) ?_).congr ?_
      · rintro _ _ _ _ ⟨rest, rfl, _⟩ ⟨index, _, otherRest, _, rfl, _⟩
        exact not_cons_lt_cons (by omega) _ _
      · intro path error
        constructor
        · rintro ⟨index, child, rest, atIndex, rfl, fails⟩
          cases index with
          | zero =>
              obtain rfl := Option.some.inj atIndex
              exact Or.inl ⟨rest, rfl, fails⟩
          | succ index =>
              exact Or.inr ⟨index, child, rest, atIndex, by rw [Nat.add_right_comm]; rfl, fails⟩
        · rintro (⟨rest, rfl, fails⟩ | ⟨index, child, rest, atIndex, rfl, fails⟩)
          · exact ⟨0, ref, rest, rfl, rfl, fails⟩
          · exact ⟨index + 1, child, rest, atIndex, by rw [Nat.add_right_comm]; rfl, fails⟩

end FailsFirst

/-! ## Failures by the form of a node -/

namespace Program

variable {program : Program} {levels : Nat} {ref bound object key : NodeRef} {node : Node}
  {parts : List NodeRef} {path : List Nat} {error : LoweringError}

theorem not_failsAt_zero : ¬ program.FailsAt 0 ref path error := by
  rintro ⟨⟩

theorem failsAt_missing_iff (missing : program.tree.node? ref = none) :
    program.FailsAt (levels + 1) ref path error ↔ path = [] ∧ error = .missingNode ref := by
  constructor
  · intro fails
    cases fails with
    | missing _ => exact ⟨rfl, rfl⟩
    | object held | unnamed held | name held | part held | child held =>
        rw [missing] at held
        contradiction
  · rintro ⟨rfl, rfl⟩
    exact .missing missing

/-- A walk cannot go on at the name of a declaration. -/
def FailsAtName (program : Program) (levels : Nat) (bound : NodeRef) (path : List Nat)
    (error : LoweringError) : Prop :=
  if program.tree.kind? bound = some .identifier then
    path = [0] ∧ program.expectName bound = .error error
  else
    bound.isPresent = true ∧ ∃ rest, path = 0 :: rest ∧ program.FailsAt levels bound rest error

theorem exists_path_of_failsAtName (fails : program.FailsAtName levels bound path error) :
    ∃ rest, path = 0 :: rest := by
  unfold FailsAtName at fails
  split at fails
  · exact ⟨[], fails.1⟩
  · obtain ⟨_, rest, isPath, _⟩ := fails
    exact ⟨rest, isPath⟩

/-- From a node that is there, a walk fails in one of three ways. -/
theorem forms_of_failsAt (held : program.tree.node? ref = some node)
    (fails : program.FailsAt (levels + 1) ref path error) :
    (∃ object key rest, node.shape = .member object key ∧ path = 0 :: rest ∧
        program.FailsAt levels object rest error) ∨
      (∃ bound parts, node.shape = .declaration bound parts ∧
        program.isAmbientName bound = false ∧
          (program.FailsAtName levels bound path error ∨
            ∃ index part rest, parts[index]? = some part ∧ path = (1 + index) :: rest ∧
              program.FailsAt levels part rest error)) ∨
        (node.shape.isContainer = true ∧
          ∃ index child rest, node.shape.children[index]? = some child ∧
            path = (0 + index) :: rest ∧ program.FailsAt levels child rest error) := by
  cases fails with
  | missing missing =>
      rw [held] at missing
      contradiction
  | object otherHeld shape below =>
      obtain rfl := Option.some.inj (held.symm.trans otherHeld)
      exact Or.inl ⟨_, _, _, shape, rfl, below⟩
  | unnamed otherHeld shape notAmbient isName unnamed =>
      obtain rfl := Option.some.inj (held.symm.trans otherHeld)
      refine Or.inr (Or.inl ⟨_, _, shape, notAmbient, Or.inl ?_⟩)
      rw [FailsAtName, if_pos isName]
      exact ⟨rfl, unnamed⟩
  | name otherHeld shape notAmbient noName present below =>
      obtain rfl := Option.some.inj (held.symm.trans otherHeld)
      refine Or.inr (Or.inl ⟨_, _, shape, notAmbient, Or.inl ?_⟩)
      rw [FailsAtName, if_neg noName]
      exact ⟨present, _, rfl, below⟩
  | part otherHeld shape notAmbient isPart below =>
      obtain rfl := Option.some.inj (held.symm.trans otherHeld)
      exact Or.inr (Or.inl ⟨_, _, shape, notAmbient, Or.inr ⟨_, _, _, isPart, rfl, below⟩⟩)
  | child otherHeld container isChild below =>
      obtain rfl := Option.some.inj (held.symm.trans otherHeld)
      exact Or.inr (Or.inr ⟨container, _, _, _, isChild, rfl, below⟩)

theorem not_failsAt_identifier {name : SourceName} (held : program.tree.node? ref = some node)
    (isName : node.shape = .identifier name) :
    ¬ program.FailsAt levels ref path error := by
  intro fails
  cases levels with
  | zero =>
      exact not_failsAt_zero fails
  | succ levels =>
      have forms := forms_of_failsAt held fails
      rw [isName] at forms
      rcases forms with ⟨_, _, _, shape, _⟩ | ⟨_, _, shape, _⟩ | ⟨container, _⟩ <;> contradiction

theorem failsAt_member_iff (held : program.tree.node? ref = some node)
    (isMember : node.shape = .member object key) :
    program.FailsAt (levels + 1) ref path error ↔
      ∃ rest, path = 0 :: rest ∧ program.FailsAt levels object rest error := by
  constructor
  · intro fails
    have forms := forms_of_failsAt held fails
    rw [isMember] at forms
    rcases forms with ⟨_, _, rest, shape, isPath, below⟩ | ⟨_, _, shape, _⟩ | ⟨container, _⟩
    · obtain ⟨rfl, _⟩ := NodeShape.member.inj shape
      exact ⟨rest, isPath, below⟩
    · contradiction
    · contradiction
  · rintro ⟨rest, rfl, below⟩
    exact .object held isMember below

theorem failsAt_declaration_iff (held : program.tree.node? ref = some node)
    (isDeclaration : node.shape = .declaration bound parts) :
    program.FailsAt (levels + 1) ref path error ↔
      program.isAmbientName bound = false ∧
        (program.FailsAtName levels bound path error ∨
          ∃ index part rest, parts[index]? = some part ∧ path = (1 + index) :: rest ∧
            program.FailsAt levels part rest error) := by
  constructor
  · intro fails
    have forms := forms_of_failsAt held fails
    rw [isDeclaration] at forms
    rcases forms with ⟨_, _, _, shape, _⟩ | ⟨_, _, shape, fails⟩ | ⟨container, _⟩
    · contradiction
    · obtain ⟨rfl, rfl⟩ := NodeShape.declaration.inj shape
      exact fails
    · contradiction
  · rintro ⟨notAmbient, atName | ⟨index, part, rest, isPart, rfl, below⟩⟩
    · by_cases isName : program.tree.kind? bound = some .identifier
      · rw [FailsAtName, if_pos isName] at atName
        obtain ⟨rfl, unnamed⟩ := atName
        exact .unnamed held isDeclaration notAmbient isName unnamed
      · rw [FailsAtName, if_neg isName] at atName
        obtain ⟨present, rest, rfl, below⟩ := atName
        exact .name held isDeclaration notAmbient isName present below
    · exact .part held isDeclaration notAmbient isPart below

theorem failsAt_container_iff (held : program.tree.node? ref = some node)
    (isContainer : node.shape.isContainer = true) :
    program.FailsAt (levels + 1) ref path error ↔
      ∃ index child rest, node.shape.children[index]? = some child ∧
        path = (0 + index) :: rest ∧ program.FailsAt levels child rest error := by
  constructor
  · intro fails
    rcases forms_of_failsAt held fails with
      ⟨_, _, _, shape, _⟩ | ⟨_, _, shape, _⟩ | ⟨_, isBelow⟩
    · rw [shape] at isContainer
      contradiction
    · rw [shape] at isContainer
      contradiction
    · exact isBelow
  · rintro ⟨index, child, rest, isChild, rfl, below⟩
    exact .child held isContainer isChild below

/-! ## Failures of an itinerary -/

theorem failsFirst_nameStops
    (below : ∀ ref, FailsFirst (program.FailsAt levels ref) (program.itinerary levels ref))
    (bound : NodeRef) :
    FailsFirst (program.FailsAtName levels bound)
      (program.nameStops (program.itinerary levels) bound) := by
  by_cases isName : program.tree.kind? bound = some .identifier
  · rw [nameStops, if_pos isName]
    cases expected : program.expectName bound with
    | ok name =>
        refine .ok fun path error fails => ?_
        rw [FailsAtName, if_pos isName, expected] at fails
        exact absurd fails.2 (by simp)
    | error error =>
        have fails : program.FailsAtName levels bound [0] error := by
          rw [FailsAtName, if_pos isName]
          exact ⟨rfl, expected⟩
        refine .error fails fun otherPath other otherFails => ?_
        rw [FailsAtName, if_pos isName] at otherFails
        rw [otherFails.1]
        exact List.lt_irrefl [0]
  · rw [nameStops, if_neg isName]
    cases present : bound.isPresent with
    | false =>
        refine .ok fun path error fails => ?_
        rw [FailsAtName, if_neg isName, present] at fails
        exact absurd fails.1 Bool.false_ne_true
    | true =>
        rw [if_pos rfl]
        refine (((below bound).under 0).map _).congr fun path error => ?_
        rw [FailsAtName, if_neg isName]
        simp only [present, true_and]

/-- An itinerary fails as the first of the failures on its way, and exists if there are none. -/
theorem failsFirst_itinerary (program : Program) (levels : Nat) (ref : NodeRef) :
    FailsFirst (program.FailsAt levels ref) (program.itinerary levels ref) := by
  induction levels generalizing ref with
  | zero =>
      exact .ok fun _ _ => not_failsAt_zero
  | succ levels inductionHypothesis =>
      cases held : program.tree.node? ref with
      | none =>
          simp only [itinerary, held]
          refine .error (.missing held) fun otherPath _ _ => List.not_lt_nil otherPath
      | some node =>
          cases shape : node.shape with
          | identifier name =>
              simp only [itinerary, held, shape]
              exact .ok fun _ _ => not_failsAt_identifier held shape
          | member object key =>
              simp only [itinerary, held, shape]
              exact (((inductionHypothesis object).under 0).map _).congr fun _ _ =>
                failsAt_member_iff held shape
          | declaration bound parts =>
              simp only [itinerary, held, shape]
              cases ambient : program.isAmbientName bound with
              | true =>
                  refine .ok fun path error fails => ?_
                  have notAmbient := ((failsAt_declaration_iff held shape).mp fails).1
                  rw [ambient] at notAmbient
                  contradiction
              | false =>
                  have atName := failsFirst_nameStops inductionHypothesis bound
                  have inside :=
                    (FailsFirst.joinAll inductionHypothesis 1 parts).map
                      (Stop.enclosed node.kind ref)
                  refine (atName.append inside ?_).congr fun path error => ?_
                  · rintro path error _ _ nameFails ⟨index, _, rest, _, rfl, _⟩
                    obtain ⟨nameRest, rfl⟩ := exists_path_of_failsAtName nameFails
                    exact not_cons_lt_cons (by omega) _ _
                  · rw [failsAt_declaration_iff held shape]
                    simp only [ambient, true_and]
          | call callee arguments | forOf initializer iterable body | group parts | token =>
              simp only [itinerary, held, shape]
              refine ((FailsFirst.joinAll inductionHypothesis 0 _).map _).congr fun _ _ => ?_
              rw [← shape]
              exact failsAt_container_iff held (by rw [shape]; rfl)

/-- No two failures are in one place. -/
theorem failsAt_unique {otherError : LoweringError}
    (fails : program.FailsAt levels ref path error)
    (otherFails : program.FailsAt levels ref path otherError) :
    error = otherError := by
  induction fails generalizing otherError with
  | missing missing =>
      exact ((failsAt_missing_iff missing).mp otherFails).2.symm
  | object held shape _ inductionHypothesis =>
      obtain ⟨rest, samePath, otherBelow⟩ := (failsAt_member_iff held shape).mp otherFails
      obtain ⟨_, rfl⟩ := List.cons.inj samePath
      exact inductionHypothesis otherBelow
  | unnamed held shape _ isName unnamed =>
      obtain ⟨_, atName | ⟨index, _, _, _, samePath, _⟩⟩ :=
        (failsAt_declaration_iff held shape).mp otherFails
      · rw [FailsAtName, if_pos isName, unnamed] at atName
        exact Except.error.inj atName.2
      · have samePosition := (List.cons.inj samePath).1
        omega
  | name held shape _ noName _ _ inductionHypothesis =>
      obtain ⟨_, atName | ⟨index, _, _, _, samePath, _⟩⟩ :=
        (failsAt_declaration_iff held shape).mp otherFails
      · rw [FailsAtName, if_neg noName] at atName
        obtain ⟨_, rest, samePath, otherBelow⟩ := atName
        obtain ⟨_, rfl⟩ := List.cons.inj samePath
        exact inductionHypothesis otherBelow
      · have samePosition := (List.cons.inj samePath).1
        omega
  | part held shape _ isPart _ inductionHypothesis =>
      obtain ⟨_, atName | ⟨otherIndex, _, _, isOtherPart, samePath, otherBelow⟩⟩ :=
        (failsAt_declaration_iff held shape).mp otherFails
      · obtain ⟨_, samePath⟩ := exists_path_of_failsAtName atName
        have samePosition := (List.cons.inj samePath).1
        omega
      · obtain ⟨samePosition, rfl⟩ := List.cons.inj samePath
        obtain rfl := Nat.add_left_cancel samePosition
        obtain rfl := Option.some.inj (isPart.symm.trans isOtherPart)
        exact inductionHypothesis otherBelow
  | child held container isChild _ inductionHypothesis =>
      obtain ⟨otherIndex, _, _, isOtherChild, samePath, otherBelow⟩ :=
        (failsAt_container_iff held container).mp otherFails
      obtain ⟨samePosition, rfl⟩ := List.cons.inj samePath
      obtain rfl := Nat.add_left_cancel samePosition
      obtain rfl := Option.some.inj (isChild.symm.trans isOtherChild)
      exact inductionHypothesis otherBelow

end Program

/-! ## Failures of a file -/

namespace Setting

variable {setting : Setting} {root : NodeRef} {error : LoweringError}

theorem lowerFile_of_missing (missing : setting.program.tree.kind? root = none) :
    setting.lowerFile root = .error (.missingNode root) := by
  simp only [lowerFile, missing]

theorem lowerFile_of_otherKind {kind : NodeKind}
    (isKind : setting.program.tree.kind? root = some kind) (noFile : kind ≠ .sourceFile) :
    setting.lowerFile root = .error (.notASourceFile root kind) := by
  unfold lowerFile
  split
  · next missing =>
      rw [isKind] at missing
      contradiction
  · next isFile =>
      exact absurd (Option.some.inj (isKind.symm.trans isFile)) noFile
  · next found _ isFound =>
      rw [Option.some.inj (isKind.symm.trans isFound)]

theorem failsFirst_lowerFile (isFile : setting.program.tree.kind? root = some .sourceFile) :
    FailsFirst (setting.program.FailsAt Limits.treeDepth root) (setting.lowerFile root) := by
  rw [lowerFile_eq_run isFile]
  exact (Program.failsFirst_itinerary setting.program Limits.treeDepth root).map _

/-- Lowering a file fails with the first of the failures on the way of its walk. -/
theorem lowerFile_eq_error_iff (isFile : setting.program.tree.kind? root = some .sourceFile) :
    setting.lowerFile root = .error error ↔ setting.program.FailsFirstWith root error := by
  have search : FailsFirst _ (setting.lowerFile root) := failsFirst_lowerFile isFile
  generalize setting.lowerFile root = result at search
  cases search with
  | ok none =>
      refine iff_of_false (by simp) ?_
      rintro ⟨path, fails, _⟩
      exact none path error fails
  | @error path found fails first =>
      constructor
      · intro same
        obtain rfl := Except.error.inj same
        exact ⟨path, fails, first⟩
      · rintro ⟨otherPath, otherFails, otherFirst⟩
        obtain rfl : path = otherPath :=
          List.le_antisymm (List.not_lt.mp (first _ _ otherFails))
            (List.not_lt.mp (otherFirst _ _ fails))
        rw [Program.failsAt_unique fails otherFails]

/-- Lowering a file fails if its walk cannot go on anywhere. -/
theorem exists_lowerFile_eq_error_iff
    (isFile : setting.program.tree.kind? root = some .sourceFile) :
    (∃ error, setting.lowerFile root = .error error) ↔
      ∃ path error, setting.program.FailsAt Limits.treeDepth root path error := by
  have search : FailsFirst _ (setting.lowerFile root) := failsFirst_lowerFile isFile
  generalize setting.lowerFile root = result at search
  cases search with
  | ok none =>
      refine iff_of_false (by simp) ?_
      rintro ⟨path, error, fails⟩
      exact none path error fails
  | error fails _ =>
      exact iff_of_true ⟨_, rfl⟩ ⟨_, _, fails⟩

end Setting

end NameLowering
