import NameLowering.Tree.Ancestry

/-!
# Trees that look alike

A walk reads the kinds and shapes of nodes, and where names are. A climb from a node reads the nodes
above it, and of each of them only the kind, the parent and what it calls or iterates over. So
climbs find the same in two trees that look alike there.
-/

namespace NameLowering

/-! ## Contents -/

/-- What a walk reads of a node besides its parent. -/
structure NodeContent where
  kind : NodeKind
  shape : NodeShape
  /-- The span, if the node holds a name. -/
  nameSpan : Option Span
deriving DecidableEq

def Node.content (node : Node) : NodeContent where
  kind := node.kind
  shape := node.shape
  nameSpan := node.shape.name?.map fun _ => node.span

/-- The content of the node that a reference leads to. -/
def Tree.content? (tree : Tree) (ref : NodeRef) : Option NodeContent :=
  (tree.node? ref).map Node.content

section

variable {left right : Tree} {ref : NodeRef}

theorem Tree.kind?_eq_of_content (same : left.content? ref = right.content? ref) :
    left.kind? ref = right.kind? ref := by
  have kinds := congrArg (Option.map NodeContent.kind) same
  rwa [content?, content?, Option.map_map, Option.map_map] at kinds

theorem Tree.name?_eq_of_content (same : left.content? ref = right.content? ref) :
    left.name? ref = right.name? ref := by
  have names := congrArg (fun content? => content?.bind fun content => content.shape.name?) same
  rwa [content?, content?, Option.bind_map, Option.bind_map] at names

theorem Tree.exists_node_of_content (same : left.content? ref = right.content? ref) {node : Node}
    (held : left.node? ref = some node) :
    ∃ other, right.node? ref = some other ∧ other.content = node.content := by
  rw [content?, held] at same
  exact Option.map_eq_some_iff.mp same.symm

theorem Tree.node?_eq_none_of_content (same : left.content? ref = right.content? ref)
    (missing : left.node? ref = none) :
    right.node? ref = none := by
  rw [content?, missing] at same
  exact Option.map_eq_none_iff.mp same.symm

/-- Names with the same content are in the same place of the source. -/
theorem Tree.span_eq_of_content (same : left.content? ref = right.content? ref) {name : SourceName}
    (isName : left.name? ref = some name) :
    (left.node? ref).map Node.span = (right.node? ref).map Node.span := by
  obtain ⟨node, held, named⟩ := Option.bind_eq_some_iff.mp isName
  obtain ⟨other, otherHeld, sameContent⟩ := exists_node_of_content same held
  have shape := congrArg NodeContent.shape sameContent
  have span := congrArg NodeContent.nameSpan sameContent
  simp only [Node.content] at shape span
  rw [shape, named] at span
  rw [held, otherHeld, Option.map_some, Option.map_some]
  exact span.symm

end

/-! ## Climbs -/

/-- Two nodes that differ in nothing that a climb reads. -/
structure Node.LooksLike (left right : Node) : Prop where
  kind : left.kind = right.kind
  parent : left.parent = right.parent
  calls : ∀ ref, left.calls ref = right.calls ref
  iteratesOver : ∀ ref, left.iteratesOver ref = right.iteratesOver ref

theorem Node.LooksLike.refl (node : Node) : node.LooksLike node where
  kind := rfl
  parent := rfl
  calls _ := rfl
  iteratesOver _ := rfl

theorem Node.LooksLike.of_content {left right : Node} (content : left.content = right.content)
    (parent : left.parent = right.parent) :
    left.LooksLike right where
  kind := congrArg NodeContent.kind content
  parent := parent
  calls ref := by
    have kind : left.kind = right.kind := congrArg NodeContent.kind content
    have shape : left.shape = right.shape := congrArg NodeContent.shape content
    rw [Node.calls, Node.calls, kind, shape]
  iteratesOver ref := by
    have shape : left.shape = right.shape := congrArg NodeContent.shape content
    rw [Node.iteratesOver, Node.iteratesOver, shape]

namespace Tree

/-- Two trees have nodes in a place that look alike, or both have none. -/
inductive AlikeAt (left right : Tree) (ref : NodeRef) : Prop
  | missing (leftMissing : left.node? ref = none) (rightMissing : right.node? ref = none)
  | held {leftNode rightNode : Node} (leftHeld : left.node? ref = some leftNode)
      (rightHeld : right.node? ref = some rightNode) (alike : leftNode.LooksLike rightNode)

/-- Two trees look alike in a region, and no climb leaves it. -/
structure AlikeIn (left right : Tree) (region : NodeRef → Prop) : Prop where
  alike : ∀ ref, region ref → left.AlikeAt right ref
  upward : ∀ ref, region ref → region (left.parent ref)

variable {left right : Tree} {region : NodeRef → Prop} {ref call : NodeRef}

theorem AlikeAt.of_eq (same : left.node? ref = right.node? ref) : left.AlikeAt right ref := by
  cases rightHeld : right.node? ref with
  | none => exact .missing (same.trans rightHeld) rightHeld
  | some node => exact .held (same.trans rightHeld) rightHeld (Node.LooksLike.refl node)

theorem AlikeAt.of_content (content : left.content? ref = right.content? ref)
    (parent : left.parent ref = right.parent ref) :
    left.AlikeAt right ref := by
  cases held : left.node? ref with
  | none =>
      exact .missing held (node?_eq_none_of_content content held)
  | some node =>
      obtain ⟨other, otherHeld, same⟩ := exists_node_of_content content held
      simp only [Tree.parent, held, otherHeld] at parent
      exact .held held otherHeld (.of_content same.symm parent)

namespace AlikeIn

theorem parent_eq (trees : left.AlikeIn right region) (inside : region ref) :
    left.parent ref = right.parent ref := by
  unfold parent
  cases trees.alike ref inside with
  | missing leftMissing rightMissing =>
      rw [leftMissing, rightMissing]
  | held leftHeld rightHeld alike =>
      rw [leftHeld, rightHeld]
      exact alike.parent

theorem any_calls_eq (trees : left.AlikeIn right region) (inside : region ref)
    (callee : NodeRef) :
    (left.node? ref).any (·.calls callee) = (right.node? ref).any (·.calls callee) := by
  cases trees.alike ref inside with
  | missing leftMissing rightMissing =>
      rw [leftMissing, rightMissing]
  | held leftHeld rightHeld alike =>
      rw [leftHeld, rightHeld]
      exact alike.calls callee

theorem any_iteratesOver_eq (trees : left.AlikeIn right region) (inside : region ref)
    (iterable : NodeRef) :
    (left.node? ref).any (·.iteratesOver iterable) =
      (right.node? ref).any (·.iteratesOver iterable) := by
  cases trees.alike ref inside with
  | missing leftMissing rightMissing =>
      rw [leftMissing, rightMissing]
  | held leftHeld rightHeld alike =>
      rw [leftHeld, rightHeld]
      exact alike.iteratesOver iterable

theorem isCalleeWithin_eq (trees : left.AlikeIn right region) (steps : Nat)
    (inside : region ref) :
    left.isCalleeWithin steps ref = right.isCalleeWithin steps ref := by
  induction steps generalizing ref with
  | zero =>
      rw [isCalleeWithin, isCalleeWithin, ← trees.parent_eq inside]
      exact trees.any_calls_eq (trees.upward ref inside) ref
  | succ steps inductionHypothesis =>
      have above := trees.upward ref inside
      rw [isCalleeWithin, isCalleeWithin, ← trees.parent_eq inside]
      cases trees.alike (left.parent ref) above with
      | missing leftMissing rightMissing =>
          simp only [leftMissing, rightMissing]
      | held leftHeld rightHeld alike =>
          simp only [leftHeld, rightHeld, alike.kind, alike.calls ref, inductionHypothesis above]

theorem isBareUse_eq (trees : left.AlikeIn right region) (inside : region ref) :
    left.isBareUse ref = right.isBareUse ref := by
  rw [isBareUse, isBareUse, isCallee, isCallee, trees.isCalleeWithin_eq _ inside]

/-- The climb to a node of some kind finds the same in both trees, without leaving the region. -/
theorem climbTo?_eq
    (trees : left.AlikeIn right region) (kind : NodeKind) (steps : Nat) (inside : region ref) :
    left.climbTo? (·.kind == kind) steps ref = right.climbTo? (·.kind == kind) steps ref ∧
      ∀ found, left.climbTo? (·.kind == kind) steps ref = some found → region found := by
  induction steps generalizing ref with
  | zero =>
      exact ⟨rfl, fun found isFound => by contradiction⟩
  | succ steps inductionHypothesis =>
      simp only [climbTo?]
      cases trees.alike ref inside with
      | missing leftMissing rightMissing =>
          simp [leftMissing, rightMissing]
      | @held leftNode rightNode leftHeld rightHeld alike =>
          have above : region leftNode.parent := by
            have upward := trees.upward ref inside
            simpa only [parent, leftHeld] using upward
          obtain ⟨same, within⟩ := inductionHypothesis above
          simp only [leftHeld, rightHeld, ← alike.kind, ← alike.parent]
          by_cases accepted : (leftNode.kind == kind) = true
          · rw [if_pos accepted, if_pos accepted]
            refine ⟨rfl, ?_⟩
            rintro found isFound
            obtain rfl := Option.some.inj isFound
            exact inside
          · rw [if_neg accepted, if_neg accepted]
            exact ⟨same, within⟩

theorem isInIteratedCall_eq (trees : left.AlikeIn right region) (inside : region ref) :
    left.isInIteratedCall ref = right.isInIteratedCall ref := by
  obtain ⟨same, within⟩ :=
    trees.climbTo?_eq .callExpression Limits.treeClimb (trees.upward ref inside)
  unfold isInIteratedCall ancestor?
  rw [← trees.parent_eq inside, ← same]
  cases found : left.climbTo? (·.kind == .callExpression) Limits.treeClimb (left.parent ref) with
  | none =>
      rfl
  | some call =>
      have callInside := within call found
      simp only [← trees.parent_eq callInside]
      exact trees.any_iteratesOver_eq (trees.upward call callInside) call

end AlikeIn

end Tree

end NameLowering
