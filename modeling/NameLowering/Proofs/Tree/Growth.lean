import Mathlib.Data.List.Induction
import NameLowering.Proofs.Tree.WellFormed

/-!
# Growing trees

A tree is built by adding nodes, and the link from a node to its parent leads to a node that lists
it and came after it. A tree grows from the leaves if every node that is added has children that
are there already. Then children come before their parents, and where no child is shared, the link
from a node to its parent leads to the node that lists it.
-/

namespace NameLowering.Tree

theorem parent_of_node? {tree : Tree} {ref : NodeRef} {node : Node}
    (held : tree.node? ref = some node) :
    tree.parent ref = node.parent := by
  rw [parent, held]

/-! ## Adding a node -/

/-- A node of the tree after it has got a new parent, if that lists it. -/
def adopt (parent : NodeRef) (children : List NodeRef) (ref : NodeRef) (node : Node) : Node :=
  if ref ∈ children then { node with parent } else node

theorem adopt_shape (parent : NodeRef) (children : List NodeRef) (ref : NodeRef) (node : Node) :
    (adopt parent children ref node).shape = node.shape := by
  unfold adopt
  split <;> rfl

theorem getElem?_foldl_setParent
    (parent : NodeRef) (children : List NodeRef) (nodes : Array Node) (index : Nat) :
    (children.foldl (setParent parent) nodes)[index]? =
      nodes[index]?.map (adopt parent children (.node index)) := by
  induction children generalizing nodes with
  | nil =>
      have unchanged : adopt parent [] (.node index) = id := by
        funext node
        simp [adopt]
      simp [unchanged]
  | cons child rest inductionHypothesis =>
      rw [List.foldl_cons, inductionHypothesis]
      cases child with
      | absent =>
          have unchanged :
              adopt parent (.absent :: rest) (.node index) =
                adopt parent rest (.node index) := by
            funext node
            simp [adopt]
          rw [setParent, unchanged]
      | node childIndex =>
          rw [setParent, Array.getElem?_modify]
          by_cases same : childIndex = index
          · subst same
            cases nodes[childIndex]? <;> simp [adopt]
          · have apart : index ≠ childIndex := fun equal => same equal.symm
            cases nodes[index]? <;> simp [adopt, same, apart]

theorem size_foldl_setParent
    (parent : NodeRef) (children : List NodeRef) (nodes : Array Node) :
    (children.foldl (setParent parent) nodes).size = nodes.size := by
  induction children generalizing nodes with
  | nil =>
      rfl
  | cons child rest inductionHypothesis =>
      rw [List.foldl_cons, inductionHypothesis]
      cases child with
      | absent => rfl
      | node index => exact Array.size_modify

/-- The new node is the last one, and its children have it for their parent. -/
theorem node?_add (tree : Tree) (node : Node) (ref : NodeRef) :
    (tree.add node).2.node? ref =
      if ref = (tree.add node).1 then some node
      else (tree.node? ref).map (adopt (tree.add node).1 node.shape.children ref) := by
  cases ref with
  | absent =>
      simp [node?, add]
  | node index =>
      simp only [node?, add, NodeRef.node.injEq]
      rw [Array.getElem?_push, size_foldl_setParent, getElem?_foldl_setParent]

theorem node?_fst_add (tree : Tree) (node : Node) : tree.node? (tree.add node).1 = none := by
  simp [node?, add]

/-- A node of the grown tree is the new one, or it was there before. -/
theorem node?_add_cases {tree : Tree} {added : Node} {ref : NodeRef} {held : Node}
    (found : (tree.add added).2.node? ref = some held) :
    (ref = (tree.add added).1 ∧ held = added) ∨
      ∃ old, tree.node? ref = some old ∧
        held = adopt (tree.add added).1 added.shape.children ref old := by
  rw [node?_add] at found
  by_cases isNew : ref = (tree.add added).1
  · rw [if_pos isNew] at found
    exact Or.inl ⟨isNew, (Option.some.inj found).symm⟩
  · rw [if_neg isNew, Option.map_eq_some_iff] at found
    obtain ⟨old, oldHeld, same⟩ := found
    exact Or.inr ⟨old, oldHeld, same.symm⟩

theorem node?_add_of_old {tree : Tree} {added : Node} {ref : NodeRef} {old : Node}
    (held : tree.node? ref = some old) :
    (tree.add added).2.node? ref =
      some (adopt (tree.add added).1 added.shape.children ref old) := by
  have notNew : ref ≠ (tree.add added).1 := by
    intro isNew
    rw [isNew, node?_fst_add] at held
    contradiction
  rw [node?_add, if_neg notNew, held, Option.map_some]

theorem number_lt_size {tree : Tree} {ref : NodeRef} {node : Node}
    (held : tree.node? ref = some node) :
    ref.number < tree.nodes.size := by
  cases ref with
  | absent => contradiction
  | node index => exact (Array.getElem?_eq_some_iff.mp held).1

/-- Adds nodes one after the other. -/
def addAll (tree : Tree) (nodes : List Node) : Tree :=
  nodes.foldl (fun tree node => (tree.add node).2) tree

theorem addAll_concat (tree : Tree) (nodes : List Node) (added : Node) :
    tree.addAll (nodes ++ [added]) = ((tree.addAll nodes).add added).2 := by
  rw [addAll, List.foldl_append]
  rfl

theorem size_addAll (nodes : List Node) : (addAll {} nodes).nodes.size = nodes.length := by
  induction nodes using List.reverseRecOn with
  | nil =>
      rfl
  | append_singleton before added inductionHypothesis =>
      rw [addAll_concat, add, Array.size_push, size_foldl_setParent, inductionHypothesis,
        List.length_append, List.length_singleton]

/-- The nodes of a tree are those that were added, whatever parents they got. -/
theorem map_shape_node?_addAll (nodes : List Node) (place : Nat) :
    ((addAll {} nodes).node? (.node place)).map Node.shape = nodes[place]?.map Node.shape := by
  induction nodes using List.reverseRecOn with
  | nil =>
      rfl
  | append_singleton before added inductionHypothesis =>
      have isNew : ((addAll {} before).add added).1 = .node before.length := by
        rw [add, size_addAll]
      have sameShape :
          Node.shape ∘ adopt (.node before.length) added.shape.children (.node place) =
            Node.shape :=
        funext fun node => adopt_shape _ _ _ node
      rw [addAll_concat, node?_add, isNew]
      by_cases isLast : place = before.length
      · rw [isLast, if_pos rfl, List.getElem?_concat_length]
      · have notNew : NodeRef.node place ≠ .node before.length := fun same =>
          isLast (NodeRef.node.inj same)
        rw [if_neg notNew, Option.map_map, sameShape, inductionHypothesis]
        by_cases isOld : place < before.length
        · rw [List.getElem?_append_left isOld]
        · have beyond : before.length + 1 ≤ place := by omega
          rw [List.getElem?_eq_none (Nat.le_of_not_lt isOld),
            List.getElem?_eq_none (by simpa using beyond)]

/-- The nodes of a tree as they were before they got parents. -/
def orphans (tree : Tree) : List Node :=
  tree.nodes.toList.map fun node => { node with parent := .absent }

/-! ## Building -/

/-- Trees to which nodes were added one by one. A child may be added after a node that lists it, or
never. -/
inductive Built : Tree → Prop
  | empty : Built {}
  | add {tree : Tree} {node : Node} (built : Built tree) (free : node.parent = .absent) :
      Built (tree.add node).2

theorem Built.addAll {tree : Tree} {nodes : List Node} (built : tree.Built)
    (free : ∀ node ∈ nodes, node.parent = .absent) :
    (tree.addAll nodes).Built := by
  induction nodes generalizing tree with
  | nil =>
      exact built
  | cons node rest inductionHypothesis =>
      exact inductionHypothesis (.add built (free node List.mem_cons_self)) fun other member =>
        free other (List.mem_cons_of_mem node member)

/-- A tree that comes out again when its own nodes are added was built so. -/
theorem Built.of_orphans {tree : Tree} (same : Tree.addAll {} tree.orphans = tree) :
    tree.Built := by
  rw [← same]
  refine Built.empty.addAll fun node isOrphan => ?_
  obtain ⟨_, _, rfl⟩ := List.mem_map.mp isOrphan
  rfl

namespace Built

variable {tree : Tree} {parent child : NodeRef} {node : Node}

/-- A parent lists its child and came after it. -/
theorem exists_parent (built : tree.Built) (held : tree.node? child = some node)
    (present : node.parent.isPresent = true) :
    child.number < node.parent.number ∧
      ∃ other, tree.node? node.parent = some other ∧ child ∈ other.shape.children := by
  induction built generalizing node with
  | empty =>
      cases child <;> simp [node?] at held
  | @add tree added built free inductionHypothesis =>
      rcases node?_add_cases held with ⟨_, rfl⟩ | ⟨old, oldHeld, rfl⟩
      · rw [free] at present
        contradiction
      · by_cases adopted : child ∈ added.shape.children
        · simp only [adopt, adopted, if_true]
          exact ⟨number_lt_size oldHeld, added, by rw [node?_add, if_pos rfl], adopted⟩
        · simp only [adopt, adopted, if_false] at present ⊢
          obtain ⟨before, other, otherHeld, isChild⟩ := inductionHypothesis oldHeld present
          exact ⟨before, _, node?_add_of_old otherHeld, by rwa [adopt_shape]⟩

/-- A child that was there before a node that lists it has a parent, and the node did not come
after that. -/
theorem exists_child (built : tree.Built) (held : tree.node? parent = some node)
    (isChild : child ∈ node.shape.children) (before : child.number < parent.number) :
    ∃ childNode, tree.node? child = some childNode ∧ childNode.parent.isPresent = true ∧
      parent.number ≤ childNode.parent.number := by
  induction built generalizing node with
  | empty =>
      cases parent <;> simp [node?] at held
  | @add tree added built free inductionHypothesis =>
      have takenOver (isOwn : child ∈ added.shape.children) (childNode : Node) :
          (adopt (tree.add added).1 added.shape.children child childNode).parent =
            .node tree.nodes.size := by
        simp only [adopt, isOwn, if_true]
        rfl
      rcases node?_add_cases held with ⟨rfl, rfl⟩ | ⟨old, oldHeld, rfl⟩
      · cases child with
        | absent =>
            exact absurd (NodeShape.isPresent_of_mem_children isChild) Bool.false_ne_true
        | node index =>
            have childHeld : tree.node? (.node index) = some tree.nodes[index] :=
              Array.getElem?_eq_getElem before
            refine ⟨_, node?_add_of_old childHeld, ?_⟩
            rw [takenOver isChild]
            exact ⟨rfl, Nat.le_refl _⟩
      · rw [adopt_shape] at isChild
        obtain ⟨childNode, childHeld, hasParent, notAfter⟩ := inductionHypothesis oldHeld isChild
        refine ⟨_, node?_add_of_old childHeld, ?_⟩
        by_cases isOwn : child ∈ added.shape.children
        · rw [takenOver isOwn]
          exact ⟨rfl, Nat.le_of_lt (number_lt_size oldHeld)⟩
        · simp only [adopt, isOwn, if_false]
          exact ⟨hasParent, notAfter⟩

/-- A node has no parent if no node that came after it lists it. -/
theorem parent_eq_absent (built : tree.Built)
    (unlisted : ∀ other node, tree.node? other = some node → child ∈ node.shape.children →
      ¬ child.number < other.number) :
    tree.parent child = .absent := by
  cases held : tree.node? child with
  | none =>
      simp only [Tree.parent, held]
  | some childNode =>
      rw [parent_of_node? held]
      cases parent : childNode.parent with
      | absent =>
          rfl
      | node index =>
          obtain ⟨before, other, otherHeld, isChild⟩ :=
            built.exists_parent held (by rw [parent]; rfl)
          exact absurd before (unlisted _ other otherHeld isChild)

/-- Where children are not shared, the parent of a node is the node that lists it, unless that one
came first. -/
theorem parent_eq (built : tree.Built) (unshared : tree.Unshared)
    (held : tree.node? parent = some node) (isChild : child ∈ node.shape.children) :
    tree.parent child = if child.number < parent.number then parent else .absent := by
  have isParent {other : NodeRef} {otherNode : Node} (otherHeld : tree.node? other = some otherNode)
      (isOther : child ∈ otherNode.shape.children) : other = parent :=
    unshared.parent_unique otherHeld held isOther isChild
  by_cases before : child.number < parent.number
  · obtain ⟨childNode, childHeld, present, _⟩ := built.exists_child held isChild before
    obtain ⟨_, other, otherHeld, isOther⟩ := built.exists_parent childHeld present
    rw [if_pos before, parent_of_node? childHeld]
    exact isParent otherHeld isOther
  · rw [if_neg before]
    refine built.parent_eq_absent fun other otherNode otherHeld isOther => ?_
    rwa [isParent otherHeld isOther]

end Built

/-! ## Growth -/

/-- Trees to which nodes were added one by one, each with children that were there before. -/
inductive Grown : Tree → Prop
  | empty : Grown {}
  | add {tree : Tree} {node : Node} (grown : Grown tree) (free : node.parent = .absent)
      (children : ∀ child ∈ node.shape.children, (tree.node? child).isSome = true) :
      Grown (tree.add node).2

/-- Nodes have no parents yet, and each comes after its children. -/
def canAddAll (tree : Tree) : List Node → Bool
  | [] => true
  | node :: rest =>
    node.parent == .absent && node.shape.children.all (fun child => (tree.node? child).isSome) &&
      (tree.add node).2.canAddAll rest

theorem Grown.addAll {tree : Tree} {nodes : List Node} (grown : tree.Grown)
    (allowed : tree.canAddAll nodes = true) :
    (tree.addAll nodes).Grown := by
  induction nodes generalizing tree with
  | nil =>
      exact grown
  | cons node rest inductionHypothesis =>
      simp only [canAddAll, Bool.and_eq_true, beq_iff_eq, List.all_eq_true] at allowed
      obtain ⟨⟨free, children⟩, restAllowed⟩ := allowed
      exact inductionHypothesis (.add grown free children) restAllowed

/-- A tree that grows again from its own nodes has grown so. -/
theorem Grown.of_orphans {tree : Tree} (allowed : Tree.canAddAll {} tree.orphans = true)
    (same : Tree.addAll {} tree.orphans = tree) :
    tree.Grown := by
  rw [← same]
  exact Grown.empty.addAll allowed

namespace Grown

variable {tree : Tree} {parent child : NodeRef} {node : Node}

theorem built (grown : tree.Grown) : tree.Built := by
  induction grown with
  | empty => exact .empty
  | add _ free _ inductionHypothesis => exact .add inductionHypothesis free

/-- Children come before their parents. -/
theorem number_lt (grown : tree.Grown) (held : tree.node? parent = some node)
    (isChild : child ∈ node.shape.children) :
    child.number < parent.number := by
  induction grown generalizing node with
  | empty =>
      cases parent <;> simp [node?] at held
  | @add tree added grown free children inductionHypothesis =>
      rcases node?_add_cases held with ⟨rfl, rfl⟩ | ⟨old, oldHeld, rfl⟩
      · obtain ⟨childNode, childHeld⟩ := Option.isSome_iff_exists.mp (children child isChild)
        exact number_lt_size childHeld
      · rw [adopt_shape] at isChild
        exact inductionHypothesis oldHeld isChild

/-- Where children are not shared, the parent of a node is the node that lists it. -/
theorem parent_eq (grown : tree.Grown) (unshared : tree.Unshared)
    (held : tree.node? parent = some node) (isChild : child ∈ node.shape.children) :
    tree.parent child = parent := by
  rw [grown.built.parent_eq unshared held isChild, if_pos (grown.number_lt held isChild)]

end Grown

/-- A grown tree without shared children, with a node that is no child. -/
structure IsRootedAt (tree : Tree) (root : NodeRef) : Prop where
  grown : tree.Grown
  unshared : tree.Unshared
  isRoot : ∀ node ∈ tree.nodes, root ∉ node.shape.children

namespace IsRootedAt

variable {tree : Tree} {root parent child : NodeRef} {node : Node}

theorem parent_root (rooted : tree.IsRootedAt root) : tree.parent root = .absent :=
  rooted.grown.built.parent_eq_absent fun _ node held isChild =>
    absurd isChild (rooted.isRoot node (mem_nodes_of_node? held))

theorem parent_eq (rooted : tree.IsRootedAt root) (held : tree.node? parent = some node)
    (isChild : child ∈ node.shape.children) :
    tree.parent child = parent :=
  rooted.grown.parent_eq rooted.unshared held isChild

end IsRootedAt

end NameLowering.Tree
