import Mathlib.Data.List.Nodup
import NameLowering.Program.Basic

/-!
# Well-formed trees

The nodes of a program form a tree if every slot is filled with a node of its own. A declaration
may lack its name.
-/

namespace NameLowering

/-- The places for children that may not be left empty. -/
def NodeShape.requiredSlots : NodeShape → List NodeRef
  | .declaration _ parts => parts
  | shape => shape.slots

/-- The nodes of a program form trees, and one of these is a source file. -/
structure Program.IsTree (program : Program) (root : NodeRef) : Prop where
  filled : ∀ node ∈ program.tree.nodes, ∀ child ∈ node.shape.requiredSlots,
    child.isPresent = true
  exist : ∀ node ∈ program.tree.nodes, ∀ child ∈ node.shape.children,
    (program.tree.node? child).isSome = true
  unshared : (program.tree.nodes.toList.flatMap fun node => node.shape.children).Nodup
  identifiers : ∀ node ∈ program.tree.nodes,
    node.kind = .identifier ↔ node.shape.name?.isSome = true
  isFile : program.tree.kind? root = some .sourceFile
  isRoot : ∀ node ∈ program.tree.nodes, root ∉ node.shape.children

theorem Tree.mem_nodes_of_node?
    {tree : Tree} {ref : NodeRef} {node : Node} (held : tree.node? ref = some node) :
    node ∈ tree.nodes := by
  cases ref with
  | absent => contradiction
  | node index => exact Array.mem_of_getElem? held

theorem Tree.isPresent_of_node?
    {tree : Tree} {ref : NodeRef} {node : Node} (held : tree.node? ref = some node) :
    ref.isPresent = true := by
  cases ref with
  | absent => contradiction
  | node index => rfl

theorem NodeShape.mem_children_of_slot
    {shape : NodeShape} {position : Nat} {child : NodeRef}
    (slot : shape.slots[position]? = some child) (present : child.isPresent = true) :
    child ∈ shape.children :=
  List.mem_filter.mpr ⟨List.mem_of_getElem? slot, present⟩

theorem NodeShape.isPresent_of_mem_children
    {shape : NodeShape} {child : NodeRef} (isChild : child ∈ shape.children) :
    child.isPresent = true :=
  (List.mem_filter.mp isChild).2

/-- Without repetitions every child is in one slot. -/
theorem NodeShape.position_unique
    {shape : NodeShape} (nodup : shape.children.Nodup) {position otherPosition : Nat}
    {child : NodeRef} (slot : shape.slots[position]? = some child)
    (otherSlot : shape.slots[otherPosition]? = some child) (present : child.isPresent = true) :
    position = otherPosition := by
  have apart := List.pairwise_iff_getElem.mp (List.pairwise_filter.mp nodup)
  obtain ⟨bound, atPosition⟩ := List.getElem?_eq_some_iff.mp slot
  obtain ⟨otherBound, atOther⟩ := List.getElem?_eq_some_iff.mp otherSlot
  rcases Nat.lt_trichotomy position otherPosition with before | same | after
  · exact absurd (atPosition.trans atOther.symm)
      (apart position otherPosition bound otherBound before (by rwa [atPosition])
        (by rwa [atOther]))
  · exact same
  · exact absurd (atOther.trans atPosition.symm)
      (apart otherPosition position otherBound bound after (by rwa [atOther])
        (by rwa [atPosition]))

/-! ## Slots of their own -/

/-- No node is in two slots. -/
def Tree.Unshared (tree : Tree) : Prop :=
  (tree.nodes.toList.flatMap fun node => node.shape.children).Nodup

namespace Tree.Unshared

variable {tree : Tree} {left right child : NodeRef} {leftNode rightNode : Node}
  {leftPosition rightPosition : Nat}

theorem children_nodup (unshared : tree.Unshared) (held : tree.node? left = some leftNode) :
    leftNode.shape.children.Nodup :=
  (List.nodup_flatMap.mp unshared).1 leftNode
    (Array.mem_toList_iff.mpr (mem_nodes_of_node? held))

/-- Every node is the child of one node at most. -/
theorem parent_unique
    (unshared : tree.Unshared) (leftHeld : tree.node? left = some leftNode)
    (rightHeld : tree.node? right = some rightNode)
    (leftChild : child ∈ leftNode.shape.children) (rightChild : child ∈ rightNode.shape.children) :
    left = right := by
  have apart := List.pairwise_iff_getElem.mp (List.nodup_flatMap.mp unshared).2
  cases left with
  | absent => contradiction
  | node leftIndex =>
      cases right with
      | absent => contradiction
      | node rightIndex =>
          obtain ⟨leftBound, rfl⟩ := Array.getElem?_eq_some_iff.mp leftHeld
          obtain ⟨rightBound, rfl⟩ := Array.getElem?_eq_some_iff.mp rightHeld
          rcases Nat.lt_trichotomy leftIndex rightIndex with before | rfl | after
          · exact (apart leftIndex rightIndex leftBound rightBound before leftChild
              rightChild).elim
          · rfl
          · exact (apart rightIndex leftIndex rightBound leftBound after rightChild
              leftChild).elim

/-- Every node is in one slot at most. -/
theorem slot_unique
    (unshared : tree.Unshared) (leftHeld : tree.node? left = some leftNode)
    (rightHeld : tree.node? right = some rightNode)
    (leftSlot : leftNode.shape.slots[leftPosition]? = some child)
    (rightSlot : rightNode.shape.slots[rightPosition]? = some child)
    (present : child.isPresent = true) :
    left = right ∧ leftPosition = rightPosition := by
  obtain rfl := unshared.parent_unique leftHeld rightHeld
    (NodeShape.mem_children_of_slot leftSlot present)
    (NodeShape.mem_children_of_slot rightSlot present)
  obtain rfl := Option.some.inj (leftHeld.symm.trans rightHeld)
  exact ⟨rfl,
    NodeShape.position_unique (unshared.children_nodup leftHeld) leftSlot rightSlot present⟩

end Tree.Unshared

/-! ## Forests -/

/-- The nodes of a program form trees. -/
structure Program.IsForest (program : Program) : Prop where
  filled : ∀ node ∈ program.tree.nodes, ∀ child ∈ node.shape.requiredSlots,
    child.isPresent = true
  exist : ∀ node ∈ program.tree.nodes, ∀ child ∈ node.shape.children,
    (program.tree.node? child).isSome = true
  unshared : program.tree.Unshared
  identifiers : ∀ node ∈ program.tree.nodes,
    node.kind = .identifier ↔ node.shape.name?.isSome = true

theorem Program.IsTree.isForest {program : Program} {root : NodeRef}
    (isTree : program.IsTree root) :
    program.IsForest where
  filled := isTree.filled
  exist := isTree.exist
  unshared := isTree.unshared
  identifiers := isTree.identifiers

namespace Program.IsForest

variable {program : Program} {ref child : NodeRef} {node : Node}

theorem node?_of_child (isForest : program.IsForest) (held : program.tree.node? ref = some node)
    (isChild : child ∈ node.shape.children) :
    ∃ childNode, program.tree.node? child = some childNode :=
  Option.isSome_iff_exists.mp
    (isForest.exist node (Tree.mem_nodes_of_node? held) child isChild)

theorem node?_of_required
    (isForest : program.IsForest) (held : program.tree.node? ref = some node)
    (required : child ∈ node.shape.requiredSlots) (isSlot : child ∈ node.shape.slots) :
    ∃ childNode, program.tree.node? child = some childNode :=
  isForest.node?_of_child held
    (List.mem_filter.mpr
      ⟨isSlot, isForest.filled node (Tree.mem_nodes_of_node? held) child required⟩)

theorem isName_iff (isForest : program.IsForest) (held : program.tree.node? ref = some node) :
    program.tree.kind? ref = some .identifier ↔ ∃ name, node.shape = .identifier name := by
  simp only [Tree.kind?, held, Option.map_some, Option.some.injEq]
  rw [isForest.identifiers node (Tree.mem_nodes_of_node? held)]
  cases node.shape <;> simp [NodeShape.name?]

/-- The name and the parts of a declaration are children of their own. -/
theorem children_of_declaration
    (isForest : program.IsForest) (held : program.tree.node? ref = some node) {bound : NodeRef}
    {parts : List NodeRef} (shape : node.shape = .declaration bound parts) :
    (bound.isPresent = true → bound ∈ node.shape.children) ∧
      (∀ part ∈ parts, part ∈ node.shape.children) ∧ parts.Nodup ∧ bound ∉ parts := by
  have filled (part : NodeRef) (isPart : part ∈ parts) : part.isPresent = true := by
    refine isForest.filled node (Tree.mem_nodes_of_node? held) part ?_
    rw [shape]
    exact isPart
  have children : node.shape.children = [bound].filter NodeRef.isPresent ++ parts := by
    rw [shape, NodeShape.children, NodeShape.slots, ← List.singleton_append, List.filter_append,
      List.filter_eq_self.mpr filled]
  have nodup := isForest.unshared.children_nodup held
  rw [children] at nodup ⊢
  obtain ⟨_, partsNodup, apart⟩ := List.nodup_append.mp nodup
  refine ⟨?_, fun part => List.mem_append_right _, partsNodup, ?_⟩
  · intro present
    simp [present]
  · intro isPart
    have isName : bound ∈ [bound].filter NodeRef.isPresent := by simp [filled bound isPart]
    exact apart bound isName bound isPart rfl

end Program.IsForest

end NameLowering
