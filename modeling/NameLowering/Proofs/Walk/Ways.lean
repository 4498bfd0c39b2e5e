import Mathlib.Data.List.Induction
import NameLowering.Proofs.Tree.WellFormed
import NameLowering.Proofs.Walk.Itinerary

/-!
# Ways through a tree

A way leads from a node down to another one, through the slots that a walk enters. The order of
two nodes in the source is the lexicographic order of the ways to them from the root, and in a tree
there is at most one way to a node.
-/

namespace NameLowering.Program

/-! ## Ways -/

/-- Whether a walk enters a slot. It enters neither the key of a member access nor any part of an
ambient declaration. -/
def enters (program : Program) (shape : NodeShape) (position : Nat) : Bool :=
  match shape with
  | .member .. => position == 0
  | .declaration bound _ => !program.isAmbientName bound
  | _ => true

/-- The number of levels from a node down to what is in a slot. An identifier that is the name of
a declaration is on the level of the declaration. -/
def descent (program : Program) (shape : NodeShape) (position : Nat) : Nat :=
  match shape, position with
  | .declaration bound _, 0 => if program.tree.kind? bound = some .identifier then 0 else 1
  | _, _ => 1

theorem enters_of_container
    {program : Program} {shape : NodeShape} (container : shape.isContainer = true)
    (position : Nat) :
    program.enters shape position = true := by
  cases shape with
  | identifier _ | member _ _ | declaration _ _ => contradiction
  | call _ _ | forOf _ _ _ | group _ | token => rfl

theorem descent_of_container
    {program : Program} {shape : NodeShape} (container : shape.isContainer = true)
    (position : Nat) :
    program.descent shape position = 1 := by
  cases shape with
  | identifier _ | member _ _ | declaration _ _ => contradiction
  | call _ _ | forOf _ _ _ | group _ | token => rfl

/-- A walk goes on to children through slots that it enters. -/
theorem exists_slot_of_visits
    {program : Program} {shape : NodeShape} {child : NodeRef}
    (visits : program.Visits shape child) :
    ∃ position, shape.slots[position]? = some child ∧ program.enters shape position = true := by
  cases shape with
  | member object key =>
      obtain rfl : child = object := visits
      exact ⟨0, rfl, rfl⟩
  | declaration bound parts =>
      obtain ⟨notAmbient, isChild⟩ := visits
      have entered (position : Nat) : program.enters (.declaration bound parts) position = true := by
        simp [enters, notAmbient]
      rcases isChild with ⟨rfl, _⟩ | isPart
      · exact ⟨0, rfl, entered 0⟩
      · obtain ⟨index, atIndex⟩ := List.getElem?_of_mem isPart
        exact ⟨index + 1, atIndex, entered (index + 1)⟩
  | identifier name | call callee arguments | forOf initializer iterable body | group parts
  | token =>
      obtain ⟨position, slot⟩ := List.getElem?_of_mem (List.mem_of_mem_filter visits)
      exact ⟨position, slot, rfl⟩

/-- A walk gets from a node to another one through the slots of a path, and that many levels
down. -/
inductive Reaches (program : Program) :
    NodeRef → (path : List Nat) → (depth : Nat) → NodeRef → Prop
  | here (ref : NodeRef) : Reaches program ref [] 0 ref
  | inside
      {ref child target : NodeRef} {node : Node} {position : Nat} {path : List Nat} {depth : Nat}
      (held : program.tree.node? ref = some node)
      (slot : node.shape.slots[position]? = some child)
      (entered : program.enters node.shape position = true)
      (below : Reaches program child path depth target) :
      Reaches program ref (position :: path) (program.descent node.shape position + depth) target

/-- In pre-order, a node comes before what is below it, and what is below a slot comes before what
is below the slots after it. -/
def Precedes (program : Program) (root first second : NodeRef) : Prop :=
  ∃ firstPath firstDepth secondPath secondDepth,
    program.Reaches root firstPath firstDepth first ∧
      program.Reaches root secondPath secondDepth second ∧ firstPath < secondPath

/-- A node is the identifier that a declaration binds. -/
def IsDeclaredName (program : Program) (ref : NodeRef) : Prop :=
  program.tree.kind? ref = some .identifier ∧
    ∃ declaration node parts, program.tree.node? declaration = some node ∧
      node.shape = .declaration ref parts

/-! ## The last slot of a way -/

variable {program : Program} {root ref target : NodeRef} {path : List Nat} {depth : Nat}

/-- A way that leads anywhere ends in a slot. -/
theorem Reaches.last (reaches : program.Reaches ref path depth target) :
    (path = [] ∧ depth = 0 ∧ target = ref) ∨
      ∃ initial position parent node parentDepth,
        path = initial ++ [position] ∧ program.Reaches ref initial parentDepth parent ∧
          program.tree.node? parent = some node ∧ node.shape.slots[position]? = some target ∧
          depth = parentDepth + program.descent node.shape position := by
  induction reaches with
  | here ref =>
      exact Or.inl ⟨rfl, rfl, rfl⟩
  | @inside ref child target node position path depth held slot entered below
      inductionHypothesis =>
      refine Or.inr ?_
      rcases inductionHypothesis with
        ⟨rfl, rfl, rfl⟩ |
          ⟨initial, last, parent, parentNode, parentDepth, rfl, toParent, parentHeld, lastSlot,
            rfl⟩
      · exact ⟨[], position, ref, node, 0, rfl, .here ref, held, slot, by omega⟩
      · exact ⟨position :: initial, last, parent, parentNode, _, rfl,
          .inside held slot entered toParent, parentHeld, lastSlot, by omega⟩

namespace IsTree

theorem not_mem_slots (isTree : program.IsTree root) {parent : NodeRef} {node : Node}
    {position : Nat} (held : program.tree.node? parent = some node) :
    node.shape.slots[position]? ≠ some root := by
  intro slot
  obtain ⟨file, rootHeld, _⟩ := Option.map_eq_some_iff.mp isTree.isFile
  have present : root.isPresent = true := Tree.isPresent_of_node? rootHeld
  exact isTree.isRoot node (Tree.mem_nodes_of_node? held)
    (NodeShape.mem_children_of_slot slot present)

/-- There is one way to a node at most. -/
theorem way_unique
    (isTree : program.IsTree root) {otherPath : List Nat} {otherDepth : Nat}
    (present : target.isPresent = true)
    (reaches : program.Reaches root path depth target)
    (otherwise : program.Reaches root otherPath otherDepth target) :
    path = otherPath ∧ depth = otherDepth := by
  induction path using List.reverseRecOn generalizing otherPath depth otherDepth target with
  | nil =>
      rcases reaches.last with ⟨_, rfl, rfl⟩ | ⟨initial, position, _, _, _, impossible, _⟩
      · rcases otherwise.last with ⟨rfl, rfl, _⟩ | ⟨_, _, parent, node, _, _, _, held, slot, _⟩
        · exact ⟨rfl, rfl⟩
        · exact absurd slot (isTree.not_mem_slots held)
      · simp at impossible
  | append_singleton initial position inductionHypothesis =>
      rcases reaches.last with
        ⟨impossible, _, _⟩ |
          ⟨before, last, parent, node, parentDepth, split, toParent, held, slot, rfl⟩
      · simp at impossible
      · obtain ⟨rfl, sameLast⟩ := List.append_inj' split rfl
        obtain rfl := List.singleton_inj.mp sameLast
        rcases otherwise.last with
          ⟨_, _, rfl⟩ |
            ⟨otherBefore, otherLast, otherParent, otherNode, otherParentDepth, rfl,
              otherToParent, otherHeld, otherSlot, rfl⟩
        · exact absurd slot (isTree.not_mem_slots held)
        · obtain ⟨rfl, rfl⟩ :=
            isTree.isForest.unshared.slot_unique held otherHeld slot otherSlot present
          obtain rfl := Option.some.inj (held.symm.trans otherHeld)
          obtain ⟨rfl, rfl⟩ :=
            inductionHypothesis (Tree.isPresent_of_node? held) toParent otherToParent
          exact ⟨rfl, rfl⟩

end IsTree

end NameLowering.Program
