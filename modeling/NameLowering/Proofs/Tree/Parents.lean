import Mathlib.Order.Lattice.Nat
import NameLowering.Proofs.Tree.Growth

/-!
# Links to parents

Nodes are added with any lists of children: a child may be listed twice, by several nodes, by
itself, or before it is added. Each node that is added takes over the children that are there. So
the parent of a node is the last of the nodes added after it that list it. Links to parents lead to
later nodes, and following them comes to an end.
-/

namespace NameLowering.Tree

/-- The places after a child of the nodes that list it. -/
def listersAfter (nodes : List Node) (child : Nat) : Set Nat :=
  {place | child < place ∧
    ∃ node, nodes[place]? = some node ∧ NodeRef.node child ∈ node.shape.children}

variable {nodes : List Node} {child place : Nat}

/-! ## The last node that lists a child -/

/-- A node of the tree lists what the node that was added at its place does. -/
theorem mem_listersAfter_iff :
    place ∈ listersAfter nodes child ↔
      child < place ∧ ∃ node, (addAll {} nodes).node? (.node place) = some node ∧
        NodeRef.node child ∈ node.shape.children := by
  have sameShape := map_shape_node?_addAll nodes place
  apply and_congr_right
  intro _
  constructor
  · rintro ⟨node, added, isChild⟩
    rw [added, Option.map_some, Option.map_eq_some_iff] at sameShape
    obtain ⟨other, held, same⟩ := sameShape
    exact ⟨other, held, by rwa [same]⟩
  · rintro ⟨node, held, isChild⟩
    rw [held, Option.map_some, eq_comm, Option.map_eq_some_iff] at sameShape
    obtain ⟨other, added, same⟩ := sameShape
    exact ⟨other, added, by rwa [same]⟩

theorem bddAbove_listersAfter (nodes : List Node) (child : Nat) :
    BddAbove (listersAfter nodes child) := by
  refine ⟨nodes.length, ?_⟩
  rintro place ⟨_, node, added, _⟩
  exact Nat.le_of_lt (List.getElem?_eq_some_iff.mp added).1

/-- A parent is the last of the nodes after its child that list it. -/
theorem isGreatest_of_parent (free : ∀ node ∈ nodes, node.parent = .absent)
    (isParent : (addAll {} nodes).parent (.node child) = .node place) :
    IsGreatest (listersAfter nodes child) place := by
  have built : (addAll {} nodes).Built := Built.empty.addAll free
  cases held : (addAll {} nodes).node? (.node child) with
  | none =>
      rw [parent, held] at isParent
      contradiction
  | some node =>
      rw [parent_of_node? held] at isParent
      constructor
      · obtain ⟨later, other, otherHeld, isChild⟩ :=
          built.exists_parent held (by rw [isParent]; rfl)
        rw [isParent] at later otherHeld
        exact mem_listersAfter_iff.mpr ⟨later, other, otherHeld, isChild⟩
      · intro other lists
        obtain ⟨later, otherNode, otherHeld, isChild⟩ := mem_listersAfter_iff.mp lists
        obtain ⟨childNode, childHeld, _, notAfter⟩ := built.exists_child otherHeld isChild later
        rw [held, Option.some.injEq] at childHeld
        rwa [← childHeld, isParent] at notAfter

theorem parent_eq_absent_of_listersAfter (free : ∀ node ∈ nodes, node.parent = .absent)
    (unlisted : listersAfter nodes child = ∅) :
    (addAll {} nodes).parent (.node child) = .absent := by
  cases isParent : (addAll {} nodes).parent (.node child) with
  | absent =>
      rfl
  | node place =>
      have greatest := isGreatest_of_parent free isParent
      rw [unlisted] at greatest
      exact absurd greatest.1 (Set.notMem_empty place)

theorem parent_of_isGreatest (free : ∀ node ∈ nodes, node.parent = .absent)
    (greatest : IsGreatest (listersAfter nodes child) place) :
    (addAll {} nodes).parent (.node child) = .node place := by
  have built : (addAll {} nodes).Built := Built.empty.addAll free
  obtain ⟨later, node, held, isChild⟩ := mem_listersAfter_iff.mp greatest.1
  obtain ⟨childNode, childHeld, present, _⟩ := built.exists_child held isChild later
  cases link : childNode.parent with
  | absent =>
      rw [link] at present
      contradiction
  | node other =>
      have isParent : (addAll {} nodes).parent (.node child) = .node other :=
        (parent_of_node? childHeld).trans link
      rw [isParent, (isGreatest_of_parent free isParent).unique greatest]

/-! ## Chains of parents -/

/-- From a node, the chain of parents comes to an end before it runs out of later nodes. -/
theorem Built.exists_iterate_parent {tree : Tree} {ref : NodeRef} {node : Node}
    (built : tree.Built) (held : tree.node? ref = some node) :
    ∃ steps, steps + ref.number ≤ tree.nodes.size ∧ tree.parent^[steps] ref = .absent := by
  induction remaining : tree.nodes.size - ref.number using Nat.strongRecOn
      generalizing ref node with
  -- A parent comes after its child, so fewer nodes remain above it.
  | ind remaining inductionHypothesis =>
      have bound := number_lt_size held
      have next : tree.parent ref = node.parent := parent_of_node? held
      cases link : node.parent with
      | absent =>
          refine ⟨1, by omega, ?_⟩
          rw [Function.iterate_one, next, link]
      | node place =>
          obtain ⟨later, other, otherHeld, _⟩ := built.exists_parent held (by rw [link]; rfl)
          rw [link] at later otherHeld
          obtain ⟨steps, inTime, ends⟩ := inductionHypothesis _ (by omega) otherHeld rfl
          refine ⟨steps + 1, by omega, ?_⟩
          rw [Function.iterate_succ_apply, next, link]
          exact ends

/-! ## All nodes of a tree -/

/-- In a tree to which nodes were added one by one, the parent of a node is the last one after it
that lists it. So the parent lists the node and came later, and a chain of parents has no more steps
than there are nodes. -/
theorem parent_addAll (nodes : List Node) (free : ∀ node ∈ nodes, node.parent = .absent) :
    (∀ child place, (addAll {} nodes).parent (.node child) = .node place ↔
      IsGreatest (listersAfter nodes child) place) ∧
    (∀ child, (addAll {} nodes).parent (.node child) = .absent ↔
      listersAfter nodes child = ∅) ∧
    (∀ child place, (addAll {} nodes).parent (.node child) = .node place →
      child < place ∧ ∃ node, (addAll {} nodes).node? (.node place) = some node ∧
        NodeRef.node child ∈ node.shape.children) ∧
    (∀ child < nodes.length, ∃ steps ≤ nodes.length,
      (addAll {} nodes).parent^[steps] (.node child) = .absent) := by
  refine ⟨?_, ?_, ?_, ?_⟩
  · intro child place
    exact ⟨isGreatest_of_parent free, parent_of_isGreatest free⟩
  · intro child
    refine ⟨fun noParent => ?_, parent_eq_absent_of_listersAfter free⟩
    by_contra listed
    -- There would be a last node that lists the child, and that is a parent.
    have bounded := bddAbove_listersAfter nodes child
    have last : sSup (listersAfter nodes child) ∈ listersAfter nodes child :=
      Nat.sSup_mem (Set.nonempty_iff_ne_empty.mpr listed) bounded
    have isParent := parent_of_isGreatest free ⟨last, fun _ lists => le_csSup bounded lists⟩
    rw [isParent] at noParent
    contradiction
  · intro child place isParent
    exact mem_listersAfter_iff.mp (isGreatest_of_parent free isParent).1
  · intro child inRange
    have isNode : child < (addAll {} nodes).nodes.size := by rwa [size_addAll]
    have held : (addAll {} nodes).node? (.node child) = some (addAll {} nodes).nodes[child] :=
      Array.getElem?_eq_getElem isNode
    have built : (addAll {} nodes).Built := Built.empty.addAll free
    obtain ⟨steps, inTime, ends⟩ := built.exists_iterate_parent held
    rw [size_addAll] at inTime
    exact ⟨steps, by omega, ends⟩

/-- Two nodes with one child in common. The first lists itself too, and a node that is added
later. -/
def sharedChild : List Node :=
  [{ kind := .identifier, span := {}, shape := .identifier { text := "a" } },
    { kind := .block, span := {}, shape := .group [.node 0, .node 1, .node 3] },
    { kind := .block, span := {}, shape := .group [.node 0, .node 0] },
    { kind := .identifier, span := {}, shape := .identifier { text := "b" } },
    { kind := .sourceFile, span := {}, shape := .group [.absent, .node 1] }]

theorem parent_addAll_sharedChild :
    (∀ node ∈ sharedChild, node.parent = .absent) ∧
      IsGreatest (listersAfter sharedChild 0) 2 ∧
      IsGreatest (listersAfter sharedChild 1) 4 ∧
      listersAfter sharedChild 3 = ∅ := by
  have free : ∀ node ∈ sharedChild, node.parent = .absent := by decide
  obtain ⟨parents, orphans, _, _⟩ := parent_addAll sharedChild free
  refine ⟨free, ?_, ?_, ?_⟩
  · exact (parents 0 2).mp (by decide +kernel)
  · exact (parents 1 4).mp (by decide +kernel)
  · exact (orphans 3).mp (by decide +kernel)

end NameLowering.Tree
