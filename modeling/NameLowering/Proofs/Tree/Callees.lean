import NameLowering.Proofs.Tree.Subtrees
import NameLowering.Tree.Ancestry

/-!
# Callees and iterated calls

What a node is part of, said by the slots of the nodes above it. In a tree with a root the climbs
along parent links find just that, as long as they may take as many steps as there are levels.
-/

namespace NameLowering

theorem Node.calls_iff {node : Node} {ref : NodeRef} :
    node.calls ref = true ↔
      node.kind.isCallLike = true ∧ ∃ arguments, node.shape = .call ref arguments := by
  unfold Node.calls
  cases shape : node.shape <;> simp

theorem Node.calls_of_parenthesized {node : Node} {ref : NodeRef}
    (kind : node.kind = .parenthesizedExpression) :
    node.calls ref = false := by
  unfold Node.calls
  cases node.shape <;> simp [kind, NodeKind.isCallLike]

theorem Node.iteratesOver_iff {node : Node} {ref : NodeRef} :
    node.iteratesOver ref = true ↔ ∃ initializer body, node.shape = .forOf initializer ref body := by
  unfold Node.iteratesOver
  cases shape : node.shape <;> simp

namespace Tree

/-! ## What the slots say -/

/-- A call or a construction calls a node, in parentheses or not. -/
inductive IsCalled (tree : Tree) : NodeRef → Prop
  | directly
      {ref call : NodeRef} {node : Node} {arguments : List NodeRef}
      (held : tree.node? call = some node) (calls : node.kind.isCallLike = true)
      (shape : node.shape = .call ref arguments) :
      IsCalled tree ref
  | inParentheses
      {ref outer : NodeRef} {node : Node}
      (held : tree.node? outer = some node) (kind : node.kind = .parenthesizedExpression)
      (inside : ref ∈ node.shape.children) (called : IsCalled tree outer) :
      IsCalled tree ref

/-- A call is the innermost one around a node. -/
inductive IsInnermostCall (tree : Tree) : (ref call : NodeRef) → Prop
  | parent
      {ref call : NodeRef} {node : Node}
      (held : tree.node? call = some node) (inside : ref ∈ node.shape.children)
      (kind : node.kind = .callExpression) :
      IsInnermostCall tree ref call
  | further
      {ref between call : NodeRef} {node : Node}
      (held : tree.node? between = some node) (inside : ref ∈ node.shape.children)
      (kind : node.kind ≠ .callExpression) (above : IsInnermostCall tree between call) :
      IsInnermostCall tree ref call

/-- A loop iterates over the elements of a node. -/
def IsIterated (tree : Tree) (ref : NodeRef) : Prop :=
  ∃ loop node initializer body, tree.node? loop = some node ∧
    node.shape = .forOf initializer ref body

variable {tree : Tree} {root ref parent child call : NodeRef} {node : Node} {levels steps : Nat}

theorem IsCalled.exists_parent (called : tree.IsCalled ref) (present : ref.isPresent = true) :
    ∃ parent node, tree.node? parent = some node ∧ ref ∈ node.shape.children ∧
      (node.calls ref = true ∨ node.kind = .parenthesizedExpression ∧ tree.IsCalled parent) := by
  cases called with
  | @directly _ call node arguments held calls shape =>
      have isChild : ref ∈ node.shape.children := by
        simp [shape, NodeShape.children, NodeShape.slots, present]
      exact ⟨call, node, held, isChild, Or.inl (Node.calls_iff.mpr ⟨calls, arguments, shape⟩)⟩
  | @inParentheses _ outer node held kind inside called =>
      exact ⟨outer, node, held, inside, Or.inr ⟨kind, called⟩⟩

/-- Whether a node is called depends on its parent alone. -/
theorem isCalled_iff
    (unshared : tree.Unshared) (held : tree.node? parent = some node)
    (isChild : child ∈ node.shape.children) :
    tree.IsCalled child ↔
      node.calls child = true ∨ node.kind = .parenthesizedExpression ∧ tree.IsCalled parent := by
  constructor
  · intro called
    obtain ⟨other, otherNode, otherHeld, isOther, calls⟩ :=
      called.exists_parent (NodeShape.isPresent_of_mem_children isChild)
    obtain rfl := unshared.parent_unique held otherHeld isChild isOther
    obtain rfl := Option.some.inj (held.symm.trans otherHeld)
    exact calls
  · intro calls
    rcases calls with direct | ⟨kind, called⟩
    · obtain ⟨isCall, arguments, shape⟩ := Node.calls_iff.mp direct
      exact .directly held isCall shape
    · exact .inParentheses held kind isChild called

theorem IsInnermostCall.exists_node (innermost : tree.IsInnermostCall ref call) :
    ∃ node, tree.node? call = some node := by
  induction innermost with
  | parent held _ _ => exact ⟨_, held⟩
  | further _ _ _ _ inductionHypothesis => exact inductionHypothesis

/-- The innermost call around a node is its parent, or the one around its parent. -/
theorem isInnermostCall_iff
    (unshared : tree.Unshared) (held : tree.node? parent = some node)
    (isChild : child ∈ node.shape.children) :
    tree.IsInnermostCall child call ↔
      if node.kind = .callExpression then call = parent
      else tree.IsInnermostCall parent call := by
  have same {other : NodeRef} {otherNode : Node} (otherHeld : tree.node? other = some otherNode)
      (inside : child ∈ otherNode.shape.children) : parent = other ∧ node = otherNode := by
    obtain rfl := unshared.parent_unique held otherHeld isChild inside
    exact ⟨rfl, Option.some.inj (held.symm.trans otherHeld)⟩
  by_cases kind : node.kind = .callExpression
  · rw [if_pos kind]
    constructor
    · intro innermost
      cases innermost with
      | parent otherHeld inside _ =>
          exact (same otherHeld inside).1.symm
      | further otherHeld inside otherKind _ =>
          rw [(same otherHeld inside).2] at kind
          exact absurd kind otherKind
    · rintro rfl
      exact .parent held isChild kind
  · rw [if_neg kind]
    constructor
    · intro innermost
      cases innermost with
      | parent otherHeld inside otherKind =>
          rw [(same otherHeld inside).2] at kind
          exact absurd otherKind kind
      | further otherHeld inside _ above =>
          rwa [(same otherHeld inside).1]
    · intro above
      exact .further held isChild kind above

/-! ## What the climbs find -/

theorem climbTo?_succ {accept : Node → Bool} (held : tree.node? ref = some node) :
    tree.climbTo? accept (steps + 1) ref =
      if accept node = true then some ref else tree.climbTo? accept steps (tree.parent ref) := by
  simp only [climbTo?, held, parent_of_node? held]

theorem isCalleeWithin_succ (held : tree.node? (tree.parent ref) = some node) :
    tree.isCalleeWithin (steps + 1) ref =
      if node.kind = .parenthesizedExpression then tree.isCalleeWithin steps (tree.parent ref)
      else node.calls ref := by
  simp only [isCalleeWithin, held]

/-- The climb to a caller needs as many steps as there are levels above the node. -/
theorem isCalleeWithin_iff
    (rooted : tree.IsRootedAt root) (present : root.isPresent = true)
    (descends : tree.Descends root levels ref) (enough : levels ≤ steps) :
    tree.isCalleeWithin steps ref = true ↔ tree.IsCalled ref := by
  induction descends generalizing steps with
  | here =>
      have orphan : tree.parent root = .absent := rooted.parent_root
      have notCallee : tree.isCalleeWithin steps root = false := by
        cases steps <;> simp [isCalleeWithin, orphan, node?]
      have notCalled : ¬ tree.IsCalled root := by
        intro called
        obtain ⟨parent, node, held, isChild, _⟩ := called.exists_parent present
        exact rooted.isRoot node (mem_nodes_of_node? held) isChild
      simp [notCallee, notCalled]
  | @child levels parent child node above held isChild inductionHypothesis =>
      obtain rfl : tree.parent child = parent := rooted.parent_eq held isChild
      obtain ⟨steps, rfl⟩ : ∃ fewer, steps = fewer + 1 := ⟨steps - 1, by omega⟩
      rw [isCalled_iff rooted.unshared held isChild, isCalleeWithin_succ held]
      by_cases kind : node.kind = .parenthesizedExpression
      · rw [if_pos kind, inductionHypothesis (by omega)]
        simp [Node.calls_of_parenthesized kind, kind]
      · rw [if_neg kind]
        simp [kind]

/-- So does the climb to the innermost call. -/
theorem climbTo?_eq_some_iff
    (rooted : tree.IsRootedAt root)
    (descends : tree.Descends root levels ref) (enough : levels ≤ steps) :
    tree.climbTo? (·.kind == .callExpression) steps (tree.parent ref) = some call ↔
      tree.IsInnermostCall ref call := by
  induction descends generalizing steps with
  | here =>
      have orphan : tree.parent root = .absent := rooted.parent_root
      have nothing : tree.climbTo? (·.kind == .callExpression) steps .absent = none := by
        cases steps <;> simp [climbTo?, node?]
      have noCall : ¬ tree.IsInnermostCall root call := by
        intro innermost
        cases innermost with
        | parent held inside _ => exact rooted.isRoot _ (mem_nodes_of_node? held) inside
        | further held inside _ _ => exact rooted.isRoot _ (mem_nodes_of_node? held) inside
      simp [orphan, nothing, noCall]
  | @child levels parent child node above held isChild inductionHypothesis =>
      have isParent : tree.parent child = parent := rooted.parent_eq held isChild
      obtain ⟨steps, rfl⟩ : ∃ fewer, steps = fewer + 1 := ⟨steps - 1, by omega⟩
      rw [isInnermostCall_iff rooted.unshared held isChild, isParent, climbTo?_succ held]
      by_cases kind : node.kind = .callExpression
      · simp [kind, eq_comm]
      · rw [if_neg kind, if_neg (by simpa using kind), inductionHypothesis (by omega)]

theorem isIterated_iff
    (rooted : tree.IsRootedAt root) (present : call.isPresent = true) :
    (tree.node? (tree.parent call)).any (·.iteratesOver call) = true ↔ tree.IsIterated call := by
  rw [Option.any_eq_true]
  constructor
  · rintro ⟨node, held, iterates⟩
    obtain ⟨initializer, body, shape⟩ := Node.iteratesOver_iff.mp iterates
    exact ⟨_, node, initializer, body, held, shape⟩
  · rintro ⟨loop, node, initializer, body, held, shape⟩
    have isChild : call ∈ node.shape.children := by
      simp [shape, NodeShape.children, NodeShape.slots, present]
    refine ⟨node, ?_, Node.iteratesOver_iff.mpr ⟨initializer, body, shape⟩⟩
    rw [rooted.parent_eq held isChild, held]

/-! ## Uses of a name -/

theorem isCallee_iff
    (rooted : tree.IsRootedAt root) (present : root.isPresent = true)
    (descends : tree.Descends root levels ref) (enough : levels ≤ Limits.treeClimb) :
    tree.isCallee ref = true ↔ tree.IsCalled ref :=
  isCalleeWithin_iff rooted present descends enough

theorem isInIteratedCall_iff
    (rooted : tree.IsRootedAt root)
    (descends : tree.Descends root levels ref) (enough : levels ≤ Limits.treeClimb) :
    tree.isInIteratedCall ref = true ↔
      ∃ call, tree.IsInnermostCall ref call ∧ tree.IsIterated call := by
  have innermost (call : NodeRef) :
      tree.ancestor? (·.kind == .callExpression) ref = some call ↔
        tree.IsInnermostCall ref call :=
    climbTo?_eq_some_iff rooted descends enough
  unfold isInIteratedCall
  cases found : tree.ancestor? (·.kind == .callExpression) ref with
  | none =>
      have noCall (call : NodeRef) : ¬ tree.IsInnermostCall ref call := by
        rw [← innermost call, found]
        simp
      simp [noCall]
  | some call =>
      have isInnermost : tree.IsInnermostCall ref call := (innermost call).mp found
      have present : call.isPresent = true := by
        obtain ⟨node, held⟩ := isInnermost.exists_node
        exact isPresent_of_node? held
      simp only [isIterated_iff rooted present]
      constructor
      · intro iterated
        exact ⟨call, isInnermost, iterated⟩
      · rintro ⟨other, isOther, iterated⟩
        rw [← innermost other, found] at isOther
        rwa [Option.some.inj isOther]

end Tree

end NameLowering
