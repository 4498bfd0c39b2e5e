import NameLowering.Proofs.Tree.Growth

/-!
# Subtrees

What is below a node. Two subtrees of a tree without shared children are disjoint, or one of them
is part of the other. A declaration is around what is below it, but not around its own name.
-/

namespace NameLowering.Tree

/-! ## Levels -/

/-- A node is some levels below another one. -/
inductive Descends (tree : Tree) (top : NodeRef) : (levels : Nat) → NodeRef → Prop
  | here : Descends tree top 0 top
  | child
      {levels : Nat} {parent child : NodeRef} {node : Node}
      (above : Descends tree top levels parent) (held : tree.node? parent = some node)
      (isChild : child ∈ node.shape.children) :
      Descends tree top (levels + 1) child

/-- A node is part of the subtree of another one, or that one itself. -/
def Below (tree : Tree) (top ref : NodeRef) : Prop :=
  ∃ levels, tree.Descends top levels ref

variable {tree : Tree} {top ref parent child : NodeRef} {node : Node}

theorem Below.refl (tree : Tree) (ref : NodeRef) : tree.Below ref ref :=
  ⟨0, .here⟩

theorem Below.trans {middle : NodeRef} (upper : tree.Below top middle)
    (lower : tree.Below middle ref) :
    tree.Below top ref := by
  obtain ⟨levels, descends⟩ := lower
  induction descends with
  | here =>
      exact upper
  | child _ held isChild inductionHypothesis =>
      obtain ⟨above, descendsAbove⟩ := inductionHypothesis
      exact ⟨above + 1, .child descendsAbove held isChild⟩

theorem Below.of_child (held : tree.node? parent = some node)
    (isChild : child ∈ node.shape.children) :
    tree.Below parent child :=
  ⟨1, .child .here held isChild⟩

/-- What is below a node is the node itself or below one of its children. -/
theorem Below.eq_or_exists_child (below : tree.Below top ref) :
    ref = top ∨
      ∃ node child, tree.node? top = some node ∧ child ∈ node.shape.children ∧
        tree.Below child ref := by
  obtain ⟨levels, descends⟩ := below
  induction descends with
  | here =>
      exact Or.inl rfl
  | @child _ parent child node above held isChild inductionHypothesis =>
      rcases inductionHypothesis with rfl | ⟨topNode, topChild, topHeld, isTopChild, belowChild⟩
      · exact Or.inr ⟨node, child, held, isChild, Below.refl tree child⟩
      · exact Or.inr ⟨topNode, topChild, topHeld, isTopChild,
          belowChild.trans (.of_child held isChild)⟩

theorem Below.isPresent_iff (below : tree.Below top ref) :
    top.isPresent = true ↔ ref.isPresent = true := by
  obtain ⟨levels, descends⟩ := below
  induction descends with
  | here =>
      exact Iff.rfl
  | child _ held isChild inductionHypothesis =>
      rw [inductionHypothesis]
      simp only [isPresent_of_node? held, NodeShape.isPresent_of_mem_children isChild]

/-! ## Trees without circles -/

/-- No node is below one of its children. -/
def Acyclic (tree : Tree) : Prop :=
  ∀ parent node child, tree.node? parent = some node → child ∈ node.shape.children →
    ¬ tree.Below child parent

namespace Grown

theorem number_le_of_below (grown : tree.Grown) (below : tree.Below top ref) :
    ref.number ≤ top.number := by
  obtain ⟨levels, descends⟩ := below
  induction descends with
  | here =>
      exact Nat.le_refl _
  | child _ held isChild inductionHypothesis =>
      have before := grown.number_lt held isChild
      omega

theorem acyclic (grown : tree.Grown) : tree.Acyclic := by
  intro parent node child held isChild below
  have before := grown.number_lt held isChild
  have notAfter := grown.number_le_of_below below
  omega

end Grown

namespace Unshared

/-- Of two nodes above a third one, one is above the other. -/
theorem below_or_below (unshared : tree.Unshared) {left right : NodeRef}
    (belowLeft : tree.Below left ref) (belowRight : tree.Below right ref) :
    tree.Below left right ∨ tree.Below right left := by
  obtain ⟨levels, descends⟩ := belowLeft
  induction descends generalizing right with
  | here =>
      exact Or.inr belowRight
  | @child _ parent child node above held isChild inductionHypothesis =>
      obtain ⟨rightLevels, descendsRight⟩ := belowRight
      cases descendsRight with
      | here =>
          exact Or.inl ⟨_, .child above held isChild⟩
      | @child _ otherParent _ otherNode otherAbove otherHeld isOtherChild =>
          obtain rfl := unshared.parent_unique held otherHeld isChild isOtherChild
          exact inductionHypothesis ⟨_, otherAbove⟩

/-- The subtrees of two children of a node are disjoint. -/
theorem disjoint_children (unshared : tree.Unshared) (acyclic : tree.Acyclic)
    (held : tree.node? parent = some node) {left right : NodeRef}
    (isLeft : left ∈ node.shape.children) (isRight : right ∈ node.shape.children)
    (belowLeft : tree.Below left ref) (belowRight : tree.Below right ref) :
    left = right := by
  -- A child that is properly below another one has a parent there.
  have same {one other : NodeRef} (isOne : one ∈ node.shape.children)
      (isOther : other ∈ node.shape.children) (below : tree.Below one other) : one = other := by
    obtain ⟨levels, descends⟩ := below
    cases descends with
    | here =>
        rfl
    | @child _ between _ betweenNode above betweenHeld isBetween =>
        obtain rfl := unshared.parent_unique betweenHeld held isBetween isOther
        exact absurd ⟨_, above⟩ (acyclic _ node one held isOne)
  rcases unshared.below_or_below belowLeft belowRight with below | below
  · exact same isLeft isRight below
  · exact (same isRight isLeft below).symm

end Unshared

/-! ## Enclosed nodes -/

/-- A node is below another one, but not in the slot for the name that the other one declares. -/
def Encloses (tree : Tree) (opener ref : NodeRef) : Prop :=
  tree.Below opener ref ∧
    ∀ node bound parts, tree.node? opener = some node → node.shape = .declaration bound parts →
      ¬ tree.Below bound ref

/-- A node encloses what is below its children, unless the child is the name that it declares. -/
theorem Unshared.encloses_of_child
    (unshared : tree.Unshared) (acyclic : tree.Acyclic) (held : tree.node? parent = some node)
    (isChild : child ∈ node.shape.children) (below : tree.Below child ref)
    (notName : ∀ bound parts, node.shape = .declaration bound parts → child ≠ bound) :
    tree.Encloses parent ref := by
  refine ⟨(Below.of_child held isChild).trans below, ?_⟩
  intro sameNode bound parts sameHeld shape belowBound
  obtain rfl := Option.some.inj (held.symm.trans sameHeld)
  have present : bound.isPresent = true := by
    rw [belowBound.isPresent_iff, ← below.isPresent_iff]
    exact NodeShape.isPresent_of_mem_children isChild
  have isName : bound ∈ node.shape.children := by
    simp [shape, NodeShape.children, NodeShape.slots, present]
  exact notName bound parts shape
    (unshared.disjoint_children acyclic held isChild isName below belowBound)

/-- Neither of two nodes encloses the other one. -/
def Apart (tree : Tree) (left right : NodeRef) : Prop :=
  ¬ tree.Encloses left right ∧ ¬ tree.Encloses right left

/-- Nothing below a node encloses anything below another child of its parent. -/
theorem Unshared.apart_of_children
    (unshared : tree.Unshared) (acyclic : tree.Acyclic) (held : tree.node? parent = some node)
    {left right leftRef rightRef : NodeRef} (isLeft : left ∈ node.shape.children)
    (isRight : right ∈ node.shape.children) (different : left ≠ right)
    (belowLeft : tree.Below left leftRef) (belowRight : tree.Below right rightRef) :
    tree.Apart leftRef rightRef := by
  constructor
  · intro encloses
    have same :=
      unshared.disjoint_children acyclic held isLeft isRight (belowLeft.trans encloses.1) belowRight
    exact different same
  · intro encloses
    have same :=
      unshared.disjoint_children acyclic held isLeft isRight belowLeft (belowRight.trans encloses.1)
    exact different same

end NameLowering.Tree
