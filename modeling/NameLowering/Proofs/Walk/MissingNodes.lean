import NameLowering.Program.Build
import NameLowering.Proofs.Walk.Failures
import NameLowering.Proofs.Walk.Ways

/-!
# Missing nodes

Where every slot is filled and identifiers hold names, a file cannot be lowered for one reason
only: its walk comes to a reference that leads to no node. The first such reference in the order of
the source is reported. Links may run in circles, be shared, or lead nowhere.
-/

namespace NameLowering

/-! ## References that lead nowhere -/

/-- No slot is empty but for names of declarations, and identifiers hold names. -/
structure Program.IsFilled (program : Program) : Prop where
  filled : ∀ node ∈ program.tree.nodes, ∀ child ∈ node.shape.requiredSlots,
    child.isPresent = true
  named : ∀ node ∈ program.tree.nodes, node.kind = .identifier → node.shape.name?.isSome = true

/-- A walk over a number of levels comes along a path to a reference that leads to no node. -/
def Program.MissesWithin (program : Program) (levels : Nat) (ref : NodeRef) (path : List Nat)
    (target : NodeRef) : Prop :=
  target.isPresent = true ∧ program.tree.node? target = none ∧
    ∃ depth < levels, program.Reaches ref path depth target

/-- The first reference that leads to no node, on the walk over a file. -/
def Program.MissesFirst (program : Program) (root target : NodeRef) : Prop :=
  ∃ path, program.MissesWithin Limits.treeDepth root path target ∧
    ∀ otherPath other, program.MissesWithin Limits.treeDepth root otherPath other →
      ¬ otherPath < path

namespace Program.IsFilled

variable {program : Program} {levels depth : Nat} {ref target : NodeRef} {node : Node}
  {path : List Nat} {error : LoweringError}

theorem isPresent_of_required (isFilled : program.IsFilled)
    (held : program.tree.node? ref = some node) {child : NodeRef}
    (required : child ∈ node.shape.requiredSlots) :
    child.isPresent = true :=
  isFilled.filled node (Tree.mem_nodes_of_node? held) child required

theorem exists_name (isFilled : program.IsFilled)
    (isName : program.tree.kind? ref = some .identifier) :
    ∃ node name, program.tree.node? ref = some node ∧ node.shape = .identifier name := by
  obtain ⟨node, held, kind⟩ := Option.map_eq_some_iff.mp isName
  have named := isFilled.named node (Tree.mem_nodes_of_node? held) kind
  cases shape : node.shape with
  | identifier name =>
      exact ⟨node, name, held, shape⟩
  | call _ _ | member _ _ | forOf _ _ _ | declaration _ _ | group _ | token =>
      rw [shape] at named
      contradiction

theorem children_eq_slots (isFilled : program.IsFilled)
    (held : program.tree.node? ref = some node) (container : node.shape.isContainer = true) :
    node.shape.children = node.shape.slots := by
  refine List.filter_eq_self.mpr fun child isSlot => ?_
  refine isFilled.isPresent_of_required held ?_
  have required : node.shape.requiredSlots = node.shape.slots := by
    cases shape : node.shape with
    | identifier _ | member _ _ | declaration _ _ =>
        rw [shape] at container
        contradiction
    | call _ _ | forOf _ _ _ | group _ | token => rfl
  rwa [required]

/-- A walk cannot go on just where it misses a node. -/
theorem missesWithin_of_failsAt (isFilled : program.IsFilled)
    (fails : program.FailsAt levels ref path error) (present : ref.isPresent = true) :
    ∃ target, error = .missingNode target ∧ program.MissesWithin levels ref path target := by
  -- What is missed below a child is missed on the way from its parent.
  have further {levels position : Nat} {ref child : NodeRef} {node : Node} {path : List Nat}
      {error : LoweringError} (held : program.tree.node? ref = some node)
      (slot : node.shape.slots[position]? = some child)
      (entered : program.enters node.shape position = true)
      (oneLevel : program.descent node.shape position = 1)
      (below : ∃ target, error = .missingNode target ∧
        program.MissesWithin levels child path target) :
      ∃ target, error = .missingNode target ∧
        program.MissesWithin (levels + 1) ref (position :: path) target := by
    obtain ⟨target, rfl, isPresent, missing, depth, bound, reaches⟩ := below
    exact ⟨target, rfl, isPresent, missing, _, by omega, .inside held slot entered reaches⟩
  induction fails with
  | missing missing =>
      exact ⟨_, rfl, present, missing, 0, Nat.succ_pos _, .here _⟩
  | object held shape _ inductionHypothesis =>
      have isPresent := isFilled.isPresent_of_required held
        (by rw [shape]; exact List.mem_cons_self)
      exact further held (by rw [shape]; rfl) (by rw [shape]; rfl) (by rw [shape]; rfl)
        (inductionHypothesis isPresent)
  | unnamed _ _ _ isName unnamed =>
      obtain ⟨nameNode, name, nameHeld, isIdentifier⟩ := isFilled.exists_name isName
      simp only [expectName, nameHeld, isIdentifier, NodeShape.name?] at unnamed
      contradiction
  | name held shape notAmbient noName isPresent _ inductionHypothesis =>
      exact further held (by rw [shape]; rfl) (by simp [shape, enters, notAmbient])
        (by simp [shape, descent, noName]) (inductionHypothesis isPresent)
  | @part _ index _ bound part _ parts _ _ held shape notAmbient isPart _ inductionHypothesis =>
      have isPresent := isFilled.isPresent_of_required held
        (by rw [shape]; exact List.mem_of_getElem? isPart)
      have slot : (NodeShape.declaration bound parts).slots[1 + index]? = some part := by
        rw [Nat.add_comm]
        exact isPart
      exact further held (by rw [shape]; exact slot) (by simp [shape, enters, notAmbient])
        (by rw [shape, Nat.add_comm]; rfl) (inductionHypothesis isPresent)
  | @child _ index _ child node _ _ held container isChild _ inductionHypothesis =>
      have isPresent := NodeShape.isPresent_of_mem_children (List.mem_of_getElem? isChild)
      have slot : node.shape.slots[0 + index]? = some child := by
        rw [Nat.zero_add, ← isFilled.children_eq_slots held container]
        exact isChild
      exact further held slot (enters_of_container container _) (descent_of_container container _)
        (inductionHypothesis isPresent)

theorem failsAt_of_missesWithin (isFilled : program.IsFilled)
    (misses : program.MissesWithin levels ref path target) :
    program.FailsAt levels ref path (.missingNode target) := by
  obtain ⟨present, missing, depth, inLevels, reaches⟩ := misses
  induction reaches generalizing levels with
  | here ref =>
      obtain ⟨levels, rfl⟩ : ∃ fewer, levels = fewer + 1 := ⟨levels - 1, by omega⟩
      exact .missing missing
  | @inside ref child target node position path depth held slot entered below
      inductionHypothesis =>
      -- The way leads through a child that is missed itself, or that holds a node.
      have childPresent : child.isPresent = true := by
        cases below with
        | here => exact present
        | inside childHeld => exact Tree.isPresent_of_node? childHeld
      have furtherLevel (oneLevel : program.descent node.shape position = 1) :
          ∃ fewer, levels = fewer + 1 ∧ program.FailsAt fewer child path (.missingNode target) :=
        ⟨levels - 1, by omega, inductionHypothesis present missing (by omega)⟩
      cases shape : node.shape with
      | identifier name =>
          simp [shape, NodeShape.slots] at slot
      | member object key =>
          rw [shape] at slot entered furtherLevel
          obtain rfl : position = 0 := by simpa [enters] using entered
          obtain rfl := Option.some.inj slot
          obtain ⟨levels, rfl, fails⟩ := furtherLevel rfl
          exact .object held shape fails
      | declaration bound parts =>
          rw [shape] at slot entered furtherLevel
          have notAmbient : program.isAmbientName bound = false := by
            simpa [enters] using entered
          cases position with
          | succ index =>
              obtain ⟨levels, rfl, fails⟩ := furtherLevel rfl
              rw [Nat.add_comm index 1]
              exact .part held shape notAmbient slot fails
          | zero =>
              obtain rfl := Option.some.inj slot
              by_cases isName : program.tree.kind? bound = some .identifier
              · -- Nothing is below a name, and the name itself is not missing.
                obtain ⟨nameNode, name, nameHeld, isIdentifier⟩ := isFilled.exists_name isName
                cases below with
                | here =>
                    rw [nameHeld] at missing
                    contradiction
                | inside otherHeld otherSlot =>
                    obtain rfl := Option.some.inj (nameHeld.symm.trans otherHeld)
                    simp [isIdentifier, NodeShape.slots] at otherSlot
              · obtain ⟨levels, rfl, fails⟩ := furtherLevel (by simp [descent, isName])
                exact .name held shape notAmbient isName childPresent fails
      | call callee arguments | forOf initializer iterable body | group parts | token =>
          have container : node.shape.isContainer = true := by rw [shape]; rfl
          obtain ⟨levels, rfl, fails⟩ := furtherLevel (by rw [shape]; rfl)
          rw [← isFilled.children_eq_slots held container] at slot
          rw [← Nat.zero_add position]
          exact .child held container slot fails

/-- Without empty slots and unnamed identifiers, a walk cannot go on just where it misses a
node. -/
theorem failsAt_iff (isFilled : program.IsFilled) (present : ref.isPresent = true) :
    program.FailsAt levels ref path error ↔
      ∃ target, error = .missingNode target ∧ program.MissesWithin levels ref path target := by
  constructor
  · intro fails
    exact isFilled.missesWithin_of_failsAt fails present
  · rintro ⟨target, rfl, misses⟩
    exact isFilled.failsAt_of_missesWithin misses

theorem failsFirstWith_iff (isFilled : program.IsFilled) (present : ref.isPresent = true) :
    program.FailsFirstWith ref error ↔
      ∃ target, error = .missingNode target ∧ program.MissesFirst ref target := by
  constructor
  · rintro ⟨path, fails, first⟩
    obtain ⟨target, rfl, misses⟩ := (isFilled.failsAt_iff present).mp fails
    refine ⟨target, rfl, path, misses, fun otherPath other otherMisses => ?_⟩
    exact first otherPath _ (isFilled.failsAt_of_missesWithin otherMisses)
  · rintro ⟨target, rfl, path, misses, first⟩
    refine ⟨path, isFilled.failsAt_of_missesWithin misses, fun otherPath other fails => ?_⟩
    obtain ⟨otherTarget, _, otherMisses⟩ := (isFilled.failsAt_iff present).mp fails
    exact first otherPath otherTarget otherMisses

end Program.IsFilled

/-! ## Files -/

namespace Setting

variable {setting : Setting} {root : NodeRef}

/-- What is no source file is not lowered. A source file is not lowered either if its walk comes to
a reference that leads to no node, and the first such reference is reported; nothing else can go
wrong. -/
theorem lowerFile_misses_first
    (setting : Setting) (root : NodeRef) (isFilled : setting.program.IsFilled) :
    (setting.program.tree.kind? root = none →
        setting.lowerFile root = .error (.missingNode root)) ∧
      (∀ kind, setting.program.tree.kind? root = some kind → kind ≠ .sourceFile →
        setting.lowerFile root = .error (.notASourceFile root kind)) ∧
      (setting.program.tree.kind? root = some .sourceFile →
        ((∃ error, setting.lowerFile root = .error error) ↔
            ∃ path target, setting.program.MissesWithin Limits.treeDepth root path target) ∧
          ∀ error, setting.lowerFile root = .error error ↔
            ∃ target, error = .missingNode target ∧ setting.program.MissesFirst root target) ∧
      ∀ ref kind, setting.lowerFile root ≠ .error (.notAnIdentifier ref kind) := by
  have ofFile (isFile : setting.program.tree.kind? root = some .sourceFile) :
      ((∃ error, setting.lowerFile root = .error error) ↔
          ∃ path target, setting.program.MissesWithin Limits.treeDepth root path target) ∧
        ∀ error, setting.lowerFile root = .error error ↔
          ∃ target, error = .missingNode target ∧ setting.program.MissesFirst root target := by
    obtain ⟨node, held, _⟩ := Option.map_eq_some_iff.mp isFile
    have present := Tree.isPresent_of_node? held
    constructor
    · rw [exists_lowerFile_eq_error_iff isFile]
      constructor
      · rintro ⟨path, error, fails⟩
        obtain ⟨target, _, misses⟩ := (isFilled.failsAt_iff present).mp fails
        exact ⟨path, target, misses⟩
      · rintro ⟨path, target, misses⟩
        exact ⟨path, _, isFilled.failsAt_of_missesWithin misses⟩
    · intro error
      rw [lowerFile_eq_error_iff isFile, isFilled.failsFirstWith_iff present]
  refine ⟨lowerFile_of_missing, fun _ => lowerFile_of_otherKind, ofFile, ?_⟩
  intro ref kind failed
  cases rootKind : setting.program.tree.kind? root with
  | none =>
      rw [lowerFile_of_missing rootKind] at failed
      cases failed
  | some found =>
      by_cases isFile : found = .sourceFile
      · rw [isFile] at rootKind
        obtain ⟨target, impossible, _⟩ := ((ofFile rootKind).2 _).mp failed
        contradiction
      · rw [lowerFile_of_otherKind rootKind isFile] at failed
        cases failed

end Setting

/-! ## A circle with a loose end -/

/-- Two blocks inside each other; the inner one also holds a node that does not exist. -/
def Program.circle : Program :=
  let (name, program) := Program.addIdentifier { fileName := "main.ts" } "x" 0
  let (outer, program) := program.addGroup .block [name, .node 2]
  let (_, program) := program.addGroup .block [outer, .node 9]
  (program.addSourceFile [outer]).2

theorem Program.circle_isFilled : Program.circle.IsFilled where
  filled := by decide +kernel
  named := by decide +kernel

/-- The walk turns back where it is too deep, and then comes to the loose end. -/
theorem Setting.lowerFile_misses_first_circle :
    Program.circle.IsFilled ∧
      Setting.lowerFile { program := .circle } (.node 3) = .error (.missingNode (.node 9)) ∧
      Program.circle.MissesFirst (.node 3) (.node 9) := by
  have failed :
      Setting.lowerFile { program := .circle } (.node 3) = .error (.missingNode (.node 9)) := by
    decide +kernel
  obtain ⟨_, _, ofFile, _⟩ :=
    Setting.lowerFile_misses_first { program := .circle } (.node 3) Program.circle_isFilled
  obtain ⟨target, same, first⟩ := ((ofFile rfl).2 _).mp failed
  obtain rfl := LoweringError.missingNode.inj same
  exact ⟨Program.circle_isFilled, failed, first⟩

end NameLowering
