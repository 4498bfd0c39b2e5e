import NameLowering.Program.Build
import NameLowering.Proofs.Tree.WellFormed
import NameLowering.Proofs.Walk.Failures
import NameLowering.Proofs.Walk.Ways

/-!
# Empty slots

An empty slot stands for no child. A walk passes over the empty slots of most nodes, but it takes
the missing object of a member access and a missing part of a declaration for nodes that do not
exist. There, and only there, it differs from a walk that passes over all empty slots.
-/

namespace NameLowering

/-! ## The walk over present children -/

/-- Walks over a node as `Walk.visit` does, but passes over every empty slot. -/
def Walk.visitPresent (setting : Setting) :
    (levels : Nat) → NodeRef → Walk → Except LoweringError Walk
  | 0, _, walk => .ok walk
  | levels + 1, ref, walk =>
    let visitAll (refs : List NodeRef) (walk : Walk) :=
      (refs.filter NodeRef.isPresent).foldlM
        (fun walk ref => visitPresent setting levels ref walk) walk
    match setting.program.tree.node? ref with
    | none => .error (.missingNode ref)
    | some node =>
      match node.shape with
      | .identifier _ => walk.lowerExpression setting ref
      | .member object _ => visitAll [object] walk
      | .declaration bound parts =>
        if setting.program.isAmbientName bound then
          .ok walk
        else do
          let walk ←
            if setting.program.tree.kind? bound = some .identifier then
              walk.lowerDeclared setting bound
            else
              visitAll [bound] walk
          walk.inScope node.kind ref (visitAll parts)
      | shape => walk.inScope node.kind ref (visitAll shape.slots)

/-- Lowers a file as if its nodes had no empty slots. -/
def Setting.lowerPresent (setting : Setting) (root : NodeRef) :
    Except LoweringError LoweredUnit :=
  match setting.program.tree.kind? root with
  | none => .error (.missingNode root)
  | some .sourceFile => do
    let walk ← Walk.visitPresent setting Limits.treeDepth root {}
    return {
      names := walk.names
      diagnostics := walk.state.diagnostics
      scopes := walk.closed }
  | some kind => .error (.notASourceFile root kind)

/-! ## Gaps -/

/-- An empty slot that a walk does not pass over. -/
def NodeShape.IsGap : NodeShape → (position : Nat) → Prop
  | .member object _, position => position = 0 ∧ object = .absent
  | .declaration _ parts, position => ∃ index, position = 1 + index ∧ parts[index]? = some .absent
  | _, _ => False

theorem Program.path_eq_nil_of_failsAt_absent
    {program : Program} {levels : Nat} {path : List Nat} {error : LoweringError}
    (fails : program.FailsAt levels .absent path error) :
    path = [] := by
  cases levels with
  | zero => exact absurd fails not_failsAt_zero
  | succ levels => exact ((failsAt_missing_iff rfl).mp fails).1

theorem Program.expectName_ne_gap
    {program : Program} {ref : NodeRef} (isName : program.tree.kind? ref = some .identifier) :
    program.expectName ref ≠ .error (.missingNode .absent) := by
  intro failed
  obtain ⟨node, held, _⟩ := Option.map_eq_some_iff.mp isName
  cases named : node.shape.name? with
  | none => simp [expectName, held, named] at failed
  | some name => simp [expectName, held, named] at failed

/-- The end of a path is a gap of a node that a walk comes to. -/
def Program.LeadsToGap (program : Program) (ref : NodeRef) (path : List Nat) : Prop :=
  ∃ initial position way depth holder node, path = initial ++ [position] ∧
    program.Reaches ref way depth holder ∧ program.tree.node? holder = some node ∧
    node.shape.IsGap position

theorem Program.leadsToGap_of_child
    {program : Program} {ref child : NodeRef} {node : Node} {path : List Nat}
    (held : program.tree.node? ref = some node) (slot : Nat)
    (isSlot : node.shape.slots[slot]? = some child)
    (entered : program.enters node.shape slot = true) (below : program.LeadsToGap child path)
    (position : Nat) :
    program.LeadsToGap ref (position :: path) := by
  obtain ⟨initial, last, way, depth, holder, holderNode, rfl, reaches, holderHeld, gap⟩ := below
  exact ⟨position :: initial, last, slot :: way, _, holder, holderNode, rfl,
    .inside held isSlot entered reaches, holderHeld, gap⟩

/-- Where a walk from a node cannot go on for an empty slot, there is a gap. -/
theorem Program.leadsToGap_of_failsAt
    {program : Program} {levels : Nat} {ref : NodeRef} {path : List Nat}
    (fails : program.FailsAt levels ref path (.missingNode .absent))
    (present : ref.isPresent = true) :
    program.LeadsToGap ref path := by
  generalize isGap : LoweringError.missingNode .absent = error at fails
  induction fails with
  | missing missing =>
      obtain rfl := LoweringError.missingNode.inj isGap
      contradiction
  | @object _ ref object key node path _ held shape below inductionHypothesis =>
      cases object with
      | node index =>
          exact leadsToGap_of_child held 0 (by rw [shape]; rfl) (by rw [shape]; rfl)
            (inductionHypothesis rfl isGap) 0
      | absent =>
          obtain rfl := path_eq_nil_of_failsAt_absent below
          exact ⟨[], 0, [], 0, ref, node, rfl, .here ref, held, by rw [shape]; exact ⟨rfl, rfl⟩⟩
  | @unnamed _ _ bound _ _ _ _ _ _ isName unnamed =>
      rw [← isGap] at unnamed
      exact absurd unnamed (expectName_ne_gap isName)
  | name held shape notAmbient _ boundPresent _ inductionHypothesis =>
      exact leadsToGap_of_child held 0 (by rw [shape]; rfl) (by simp [shape, enters, notAmbient])
        (inductionHypothesis boundPresent isGap) 0
  | @part _ index ref _ part node _ path _ held shape notAmbient isPart below inductionHypothesis =>
      cases part with
      | node _ =>
          exact leadsToGap_of_child held (index + 1) (by rw [shape]; exact isPart)
            (by simp [shape, enters, notAmbient]) (inductionHypothesis rfl isGap) _
      | absent =>
          obtain rfl := path_eq_nil_of_failsAt_absent below
          exact ⟨[], 1 + index, [], 0, ref, node, rfl, .here ref, held,
            by rw [shape]; exact ⟨index, rfl, isPart⟩⟩
  | @child _ _ _ _ node _ _ held container isChild _ inductionHypothesis =>
      have isMember := List.mem_of_getElem? isChild
      obtain ⟨slot, isSlot⟩ := List.mem_iff_getElem?.mp (List.mem_of_mem_filter isMember)
      exact leadsToGap_of_child held slot isSlot (enters_of_container container slot)
        (inductionHypothesis (NodeShape.isPresent_of_mem_children isMember) isGap) _

/-! ## Results that differ at gaps alone -/

/-- A result is the one that is wanted, or the failure at a gap; and that is never wanted. -/
inductive SameButForGaps {α : Type} (wanted : Except LoweringError α) :
    Except LoweringError α → Prop
  | same (noGap : wanted ≠ .error (.missingNode .absent)) : SameButForGaps wanted wanted
  | gap (noGap : wanted ≠ .error (.missingNode .absent)) :
      SameButForGaps wanted (.error (.missingNode .absent))

namespace SameButForGaps

variable {α β : Type}

theorem noGap {wanted actual : Except LoweringError α} (results : SameButForGaps wanted actual) :
    wanted ≠ .error (.missingNode .absent) := by
  cases results with
  | same noGap | gap noGap => exact noGap

theorem eq_iff {wanted actual : Except LoweringError α} (results : SameButForGaps wanted actual) :
    actual = wanted ↔ actual ≠ .error (.missingNode .absent) := by
  cases results with
  | same noGap => exact iff_of_true rfl noGap
  | gap noGap => exact iff_of_false noGap.symm (not_not_intro rfl)

theorem ok (value : α) : SameButForGaps (.ok value) (.ok value) :=
  .same nofun

theorem bind {wanted actual : Except LoweringError α}
    {wantedRest actualRest : α → Except LoweringError β}
    (first : SameButForGaps wanted actual)
    (rest : ∀ value, SameButForGaps (wantedRest value) (actualRest value)) :
    SameButForGaps (wanted >>= wantedRest) (actual >>= actualRest) := by
  cases wanted with
  | ok value =>
      cases first with
      | same => exact rest value
      | gap => exact .gap (rest value).noGap
  | error error =>
      have noGap : Except.error error ≠ (Except.error (.missingNode .absent) : Except _ β) :=
        fun failed => first.noGap (congrArg Except.error (Except.error.inj failed))
      cases first with
      | same => exact .same noGap
      | gap => exact .gap noGap

/-- Passing over the empty slots of a list is wanted. -/
theorem foldlM {wanted actual : β → NodeRef → Except LoweringError β}
    (present : ∀ value ref, ref.isPresent = true →
      SameButForGaps (wanted value ref) (actual value ref))
    (absent : ∀ value, SameButForGaps (.ok value) (actual value .absent))
    (refs : List NodeRef) (value : β) :
    SameButForGaps ((refs.filter NodeRef.isPresent).foldlM wanted value)
      (refs.foldlM actual value) := by
  induction refs generalizing value with
  | nil =>
      exact .ok value
  | cons ref rest inductionHypothesis =>
      cases ref with
      | absent =>
          rw [List.filter_cons_of_neg (by decide), List.foldlM_cons]
          exact (absent value).bind inductionHypothesis
      | node index =>
          rw [List.filter_cons_of_pos rfl, List.foldlM_cons, List.foldlM_cons]
          exact (present value (.node index) rfl).bind inductionHypothesis

theorem inScope
    {wanted actual : Walk → Except LoweringError Walk}
    (part : ∀ walk, SameButForGaps (wanted walk) (actual walk)) (kind : NodeKind) (ref : NodeRef)
    (walk : Walk) :
    SameButForGaps (walk.inScope kind ref wanted) (walk.inScope kind ref actual) := by
  have leaving (result : Except LoweringError Walk) :
      result.map Walk.leave = result >>= fun walk => .ok walk.leave := by
    cases result <;> rfl
  unfold Walk.inScope
  cases kind.scopeKind? with
  | none =>
      exact part walk
  | some scope =>
      simp only [leaving]
      exact (part (walk.enter scope ref)).bind fun after => .ok after.leave

end SameButForGaps

theorem NodeShape.filter_isPresent_children (shape : NodeShape) :
    shape.children.filter NodeRef.isPresent = shape.children :=
  List.filter_eq_self.mpr fun _ => isPresent_of_mem_children

namespace Walk

variable {setting : Setting} {levels : Nat} {ref : NodeRef}

theorem sameButForGaps_visit_absent (walk : Walk) :
    SameButForGaps (.ok walk) (visit setting levels .absent walk) := by
  cases levels with
  | zero => exact .ok walk
  | succ levels => exact .gap nofun

theorem sameButForGaps_lowerDeclared
    (isName : setting.program.tree.kind? ref = some .identifier) (walk : Walk) :
    SameButForGaps (walk.lowerDeclared setting ref) (walk.lowerDeclared setting ref) := by
  refine .same ?_
  have noGap := Program.expectName_ne_gap isName
  rw [lowerDeclared_eq_run]
  cases expected : setting.program.expectName ref with
  | ok name =>
      nofun
  | error error =>
      intro failed
      rw [expected] at noGap
      exact noGap (congrArg Except.error (Except.error.inj failed))

theorem foldlM_singleton (visitOne : Walk → NodeRef → Except LoweringError Walk) (ref : NodeRef)
    (walk : Walk) :
    [ref].foldlM visitOne walk = visitOne walk ref := by
  rw [List.foldlM_cons]
  exact bind_pure _

/-- A walk does what it would do without empty slots, or it fails at a gap. -/
theorem sameButForGaps_visit (setting : Setting) (levels : Nat) {ref : NodeRef}
    (present : ref.isPresent = true) (walk : Walk) :
    SameButForGaps (visitPresent setting levels ref walk) (visit setting levels ref walk) := by
  induction levels generalizing ref walk with
  | zero =>
      exact .ok walk
  | succ levels inductionHypothesis =>
      have visitAll (refs : List NodeRef) (walk : Walk) :=
        SameButForGaps.foldlM (fun walk _ isPresent => inductionHypothesis isPresent walk)
          (fun walk => sameButForGaps_visit_absent walk) refs walk
      rw [visitPresent, visit]
      cases held : setting.program.tree.node? ref with
      | none =>
          refine .same fun failed => ?_
          rw [LoweringError.missingNode.inj (Except.error.inj failed)] at present
          contradiction
      | some node =>
          cases shape : node.shape with
          | identifier name =>
              simp only [shape]
              rw [lowerExpression_eq_run held shape]
              exact .ok _
          | member object key =>
              simp only [shape]
              have atObject := visitAll [object] walk
              rw [foldlM_singleton] at atObject
              exact atObject
          | declaration bound parts =>
              simp only [shape]
              by_cases ambient : setting.program.isAmbientName bound = true
              · rw [if_pos ambient, if_pos ambient]
                exact .ok walk
              · rw [if_neg ambient, if_neg ambient]
                have inside (walk : Walk) := SameButForGaps.inScope (visitAll parts) node.kind ref walk
                by_cases isName : setting.program.tree.kind? bound = some .identifier
                · rw [if_pos isName, if_pos isName]
                  exact (sameButForGaps_lowerDeclared isName walk).bind inside
                · rw [if_neg isName, if_neg isName]
                  cases bound with
                  | absent =>
                      exact (SameButForGaps.ok walk).bind inside
                  | node index =>
                      have atName := visitAll [.node index] walk
                      rw [foldlM_singleton] at atName
                      exact atName.bind inside
          | call callee arguments | forOf initializer iterable body | group parts | token =>
              simp only [shape]
              refine SameButForGaps.inScope (fun walk => ?_) node.kind ref walk
              have atChildren := visitAll node.shape.children walk
              rw [NodeShape.filter_isPresent_children, shape] at atChildren
              exact atChildren

end Walk

/-! ## Files -/

/-- Of all places where the walk over a file cannot go on, the first is an empty slot. -/
def Program.StumblesAtGap (program : Program) (root : NodeRef) : Prop :=
  program.tree.kind? root = some .sourceFile ∧
    program.FailsFirstWith root (.missingNode .absent)

namespace Setting

variable {setting : Setting} {root : NodeRef}

theorem sameButForGaps_lowerFile (setting : Setting) (present : root.isPresent = true) :
    SameButForGaps (setting.lowerPresent root) (setting.lowerFile root) := by
  unfold lowerPresent lowerFile
  cases setting.program.tree.kind? root with
  | none =>
      refine .same fun failed => ?_
      rw [LoweringError.missingNode.inj (Except.error.inj failed)] at present
      contradiction
  | some kind =>
      have visited := Walk.sameButForGaps_visit setting Limits.treeDepth present {}
      cases kind
      case sourceFile => exact visited.bind fun _ => .ok _
      all_goals exact .same nofun

theorem lowerFile_eq_gap_iff (present : root.isPresent = true) :
    setting.lowerFile root = .error (.missingNode .absent) ↔
      setting.program.StumblesAtGap root := by
  cases kind : setting.program.tree.kind? root with
  | none =>
      rw [lowerFile_of_missing kind]
      refine iff_of_false ?_ ?_
      · intro failed
        rw [LoweringError.missingNode.inj (Except.error.inj failed)] at present
        contradiction
      · rintro ⟨isFile, _⟩
        rw [kind] at isFile
        contradiction
  | some found =>
      by_cases isFile : found = .sourceFile
      · rw [isFile] at kind
        rw [lowerFile_eq_error_iff kind]
        exact (and_iff_right kind).symm
      · rw [lowerFile_of_otherKind kind isFile]
        refine iff_of_false nofun ?_
        rintro ⟨otherKind, _⟩
        exact isFile (Option.some.inj (kind.symm.trans otherKind))

/-- A file is lowered as if its nodes had no empty slots, unless its walk comes to a gap before
anything else goes wrong: the missing object of a member access, or a missing part of a
declaration. A gap is reported as a node that does not exist. -/
theorem lowerFile_eq_lowerPresent_iff
    (setting : Setting) {root : NodeRef}
    (exist : (setting.program.tree.node? root).isSome = true) :
    setting.lowerPresent root ≠ .error (.missingNode .absent) ∧
      (setting.lowerFile root = setting.lowerPresent root ↔
        ¬ setting.program.StumblesAtGap root) ∧
      (setting.program.StumblesAtGap root →
        setting.lowerFile root = .error (.missingNode .absent)) ∧
      ∀ path, setting.program.FailsAt Limits.treeDepth root path (.missingNode .absent) →
        setting.program.LeadsToGap root path := by
  obtain ⟨rootNode, held⟩ := Option.isSome_iff_exists.mp exist
  have present := Tree.isPresent_of_node? held
  have results := sameButForGaps_lowerFile setting present
  refine ⟨results.noGap, ?_, (lowerFile_eq_gap_iff present).mpr,
    fun path fails => Program.leadsToGap_of_failsAt fails present⟩
  rw [results.eq_iff]
  exact (lowerFile_eq_gap_iff present).not

end Setting

/-! ## A declaration without a value -/

/-- The declaration of a variable that has an empty slot in the place of its value. -/
def Program.letWithoutValue : Program :=
  let (name, program) := Program.addIdentifier { fileName := "main.ts" } "x" 0
  let (declared, program) := program.addDeclaration .variableDeclaration name [.absent]
  (program.addSourceFile [declared]).2

def LoweredUnit.letWithoutValue : LoweredUnit where
  names := #[
    { source := .node 0
      lowered := .declaration { text := "x", sourceName := some "x", source := some (.node 0) } }]
  diagnostics := #[]
  scopes := #[{ kind := .file, id := 1, node := .node 2, mentions := [] }]

/-- The empty slot keeps the file from being lowered. -/
theorem Setting.lowerFile_ne_lowerPresent :
    (Program.letWithoutValue.tree.node? (.node 2)).isSome = true ∧
      Setting.lowerFile { program := .letWithoutValue } (.node 2) =
        .error (.missingNode .absent) ∧
      Setting.lowerPresent { program := .letWithoutValue } (.node 2) = .ok .letWithoutValue ∧
      ¬ ∀ (setting : Setting) (root : NodeRef),
        (setting.program.tree.node? root).isSome = true →
          setting.lowerFile root = setting.lowerPresent root ∧
            setting.lowerFile root ≠ .error (.missingNode .absent) := by
  have exist : (Program.letWithoutValue.tree.node? (.node 2)).isSome = true := rfl
  have failed :
      Setting.lowerFile { program := .letWithoutValue } (.node 2) =
        .error (.missingNode .absent) := by
    decide +kernel
  refine ⟨exist, failed, by decide +kernel, ?_⟩
  intro passesOver
  exact (passesOver { program := .letWithoutValue } (.node 2) exist).2 failed

/-- The walk comes to the gap first. -/
theorem Setting.lowerFile_eq_lowerPresent_iff_letWithoutValue :
    (Program.letWithoutValue.tree.node? (.node 2)).isSome = true ∧
      Program.letWithoutValue.StumblesAtGap (.node 2) := by
  have exist : (Program.letWithoutValue.tree.node? (.node 2)).isSome = true := rfl
  obtain ⟨_, same, _, _⟩ :=
    Setting.lowerFile_eq_lowerPresent_iff { program := .letWithoutValue } exist
  have differs :
      Setting.lowerFile { program := .letWithoutValue } (.node 2) ≠
        Setting.lowerPresent { program := .letWithoutValue } (.node 2) := by
    decide +kernel
  refine ⟨exist, ?_⟩
  by_contra noGap
  exact differs (same.mpr noGap)

end NameLowering
