import NameLowering.Proofs.Tree.Subtrees

/-!
# Orders on the nodes of a tree

Of two nodes in a tree, one is below the other, or they are below two children of one node. From
this come the two orders in which a walk opens and closes what nodes stand for: post-order, and
a variant of pre-order in which the name of a declaration comes before the declaration.
-/

namespace NameLowering.Tree

/-! ## The orders -/

/-- Two nodes are below two children of one node, in that order. -/
def LeftOf (tree : Tree) (left right : NodeRef) : Prop :=
  ∃ parent node leftChild rightChild, tree.node? parent = some node ∧
    [leftChild, rightChild].Sublist node.shape.children ∧ tree.Below leftChild left ∧
    tree.Below rightChild right

/-- A node is the one that a declaration has for its name, or below that. -/
def InName (tree : Tree) (declaration ref : NodeRef) : Prop :=
  ∃ node bound parts, tree.node? declaration = some node ∧ node.shape = .declaration bound parts ∧
    bound ∈ node.shape.children ∧ tree.Below bound ref

/-- In post-order, a node comes after all that is below it. -/
def ClosesBefore (tree : Tree) (first second : NodeRef) : Prop :=
  (tree.Below second first ∧ first ≠ second) ∨ tree.LeftOf first second

/-- In pre-order, a node comes before all that is below it. Here a declaration comes after its name,
though. -/
def OpensBefore (tree : Tree) (first second : NodeRef) : Prop :=
  (tree.Encloses first second ∧ first ≠ second) ∨ tree.LeftOf first second ∨
    tree.InName second first

variable {tree : Tree} {top ref left right first second declaration : NodeRef}

/-! ## Ancestors -/

theorem Acyclic.below_antisymm (acyclic : tree.Acyclic) (below : tree.Below first second)
    (above : tree.Below second first) :
    first = second := by
  rcases below.eq_or_exists_child with same | ⟨node, child, held, isChild, belowChild⟩
  · exact same.symm
  · exact absurd (belowChild.trans above) (acyclic first node child held isChild)

/-- What is below a node is enclosed by it or in its name. -/
theorem Below.encloses_or_inName (below : tree.Below top ref) :
    tree.Encloses top ref ∨ tree.InName top ref := by
  by_cases encloses : tree.Encloses top ref
  · exact Or.inl encloses
  · obtain ⟨node, bound, parts, held, shape, belowBound⟩ :
        ∃ node bound parts, tree.node? top = some node ∧
          node.shape = .declaration bound parts ∧ tree.Below bound ref := by
      simpa [Encloses, below] using encloses
    have topPresent : top.isPresent = true := isPresent_of_node? held
    have present : bound.isPresent = true :=
      belowBound.isPresent_iff.mpr (below.isPresent_iff.mp topPresent)
    have isChild : bound ∈ node.shape.children := by
      simp [shape, NodeShape.children, NodeShape.slots, present]
    exact Or.inr ⟨node, bound, parts, held, shape, isChild, belowBound⟩

theorem InName.below (inName : tree.InName declaration ref) : tree.Below declaration ref := by
  obtain ⟨node, bound, parts, held, shape, isChild, belowBound⟩ := inName
  exact (Below.of_child held isChild).trans belowBound

theorem InName.not_encloses (inName : tree.InName declaration ref) :
    ¬ tree.Encloses declaration ref := by
  obtain ⟨node, bound, parts, held, shape, isChild, belowBound⟩ := inName
  exact fun encloses => encloses.2 node bound parts held shape belowBound

theorem InName.ne (acyclic : tree.Acyclic) (inName : tree.InName declaration ref) :
    ref ≠ declaration := by
  rintro rfl
  obtain ⟨node, bound, parts, held, shape, isChild, belowBound⟩ := inName
  exact acyclic ref node bound held isChild belowBound

/-! ## Left and right -/

/-- Without repetitions, two elements of a list come in one order only. -/
theorem not_sublist_pair_of_nodup {refs : List NodeRef} (nodup : refs.Nodup)
    (inOrder : [first, second].Sublist refs) :
    ¬ [second, first].Sublist refs := by
  intro reversed
  induction refs with
  | nil =>
      cases inOrder
  | cons ref rest inductionHypothesis =>
      obtain ⟨notAgain, restNodup⟩ := List.nodup_cons.mp nodup
      cases inOrder with
      | cons _ inRest =>
          cases reversed with
          | cons _ reversedInRest =>
              exact inductionHypothesis restNodup inRest reversedInRest
          | cons_cons _ _ =>
              exact notAgain (inRest.subset (List.mem_cons_of_mem _ List.mem_cons_self))
      | cons_cons _ _ =>
          cases reversed with
          | cons _ reversedInRest =>
              exact notAgain (reversedInRest.subset (List.mem_cons_of_mem _ List.mem_cons_self))
          | cons_cons _ inRest =>
              exact notAgain (inRest.subset List.mem_cons_self)

theorem LeftOf.not_below (unshared : tree.Unshared) (acyclic : tree.Acyclic)
    (leftOf : tree.LeftOf left right) :
    ¬ tree.Below left right ∧ ¬ tree.Below right left := by
  obtain ⟨parent, node, leftChild, rightChild, held, inOrder, belowLeft, belowRight⟩ := leftOf
  have different : leftChild ≠ rightChild :=
    List.pairwise_iff_forall_sublist.mp (unshared.children_nodup held) inOrder
  have isLeft : leftChild ∈ node.shape.children := inOrder.subset List.mem_cons_self
  have isRight : rightChild ∈ node.shape.children :=
    inOrder.subset (List.mem_cons_of_mem _ List.mem_cons_self)
  constructor
  · intro below
    exact different
      (unshared.disjoint_children acyclic held isLeft isRight (belowLeft.trans below) belowRight)
  · intro above
    exact different
      (unshared.disjoint_children acyclic held isLeft isRight belowLeft (belowRight.trans above))

/-- A node that is above two nodes and below one that they are apart at is that one. -/
theorem eq_of_below_apart (unshared : tree.Unshared) (acyclic : tree.Acyclic)
    {parent other leftChild rightChild : NodeRef} {node : Node}
    (held : tree.node? parent = some node)
    (inOrder : [leftChild, rightChild].Sublist node.shape.children)
    (belowLeft : tree.Below leftChild left) (belowRight : tree.Below rightChild right)
    (aboveLeft : tree.Below other left) (aboveRight : tree.Below other right)
    (below : tree.Below parent other) :
    other = parent := by
  rcases below.eq_or_exists_child with same | ⟨sameNode, child, sameHeld, isChild, belowChild⟩
  · exact same
  · obtain rfl := Option.some.inj (held.symm.trans sameHeld)
    have isLeft : leftChild ∈ node.shape.children := inOrder.subset List.mem_cons_self
    have isRight : rightChild ∈ node.shape.children :=
      inOrder.subset (List.mem_cons_of_mem _ List.mem_cons_self)
    have onLeft : child = leftChild :=
      unshared.disjoint_children acyclic held isChild isLeft (belowChild.trans aboveLeft) belowLeft
    have onRight : child = rightChild :=
      unshared.disjoint_children acyclic held isChild isRight (belowChild.trans aboveRight)
        belowRight
    have different : leftChild ≠ rightChild :=
      List.pairwise_iff_forall_sublist.mp (unshared.children_nodup held) inOrder
    exact absurd (onLeft.symm.trans onRight) different

theorem LeftOf.asymm (unshared : tree.Unshared) (acyclic : tree.Acyclic)
    (leftOf : tree.LeftOf left right) :
    ¬ tree.LeftOf right left := by
  obtain ⟨parent, node, leftChild, rightChild, held, inOrder, belowLeft, belowRight⟩ := leftOf
  rintro ⟨other, otherNode, otherRight, otherLeft, otherHeld, reversed, belowOtherRight,
    belowOtherLeft⟩
  have isLeft : leftChild ∈ node.shape.children := inOrder.subset List.mem_cons_self
  have isRight : rightChild ∈ node.shape.children :=
    inOrder.subset (List.mem_cons_of_mem _ List.mem_cons_self)
  have isOtherRight : otherRight ∈ otherNode.shape.children :=
    reversed.subset List.mem_cons_self
  have isOtherLeft : otherLeft ∈ otherNode.shape.children :=
    reversed.subset (List.mem_cons_of_mem _ List.mem_cons_self)
  have leftBelow := (Below.of_child held isLeft).trans belowLeft
  have rightBelow := (Below.of_child held isRight).trans belowRight
  have leftBelowOther := (Below.of_child otherHeld isOtherLeft).trans belowOtherLeft
  have rightBelowOther := (Below.of_child otherHeld isOtherRight).trans belowOtherRight
  -- Both pairs of children are those of the lowest node above the two.
  obtain rfl : other = parent := by
    rcases unshared.below_or_below leftBelow leftBelowOther with below | below
    · exact eq_of_below_apart unshared acyclic held inOrder belowLeft belowRight leftBelowOther
        rightBelowOther below
    · exact (eq_of_below_apart unshared acyclic otherHeld reversed belowOtherRight belowOtherLeft
        rightBelow leftBelow below).symm
  obtain rfl := Option.some.inj (held.symm.trans otherHeld)
  obtain rfl :=
    unshared.disjoint_children acyclic held isLeft isOtherLeft belowLeft belowOtherLeft
  obtain rfl :=
    unshared.disjoint_children acyclic held isRight isOtherRight belowRight belowOtherRight
  exact not_sublist_pair_of_nodup (unshared.children_nodup held) inOrder reversed

/-! ## Laws of the orders -/

theorem ClosesBefore.not_below (unshared : tree.Unshared) (acyclic : tree.Acyclic)
    (closesBefore : tree.ClosesBefore first second) :
    ¬ tree.Below first second := by
  rcases closesBefore with ⟨below, different⟩ | leftOf
  · exact fun above => different (acyclic.below_antisymm above below)
  · exact (leftOf.not_below unshared acyclic).1

theorem ClosesBefore.ne (unshared : tree.Unshared) (acyclic : tree.Acyclic)
    (closesBefore : tree.ClosesBefore first second) :
    first ≠ second := by
  rintro rfl
  exact closesBefore.not_below unshared acyclic (Below.refl tree first)

/-- Of two nodes, the one that is closed later is opened earlier just if it encloses the other. -/
theorem ClosesBefore.opensBefore_iff (unshared : tree.Unshared) (acyclic : tree.Acyclic)
    (closesBefore : tree.ClosesBefore first second) :
    tree.OpensBefore second first ↔ tree.Encloses second first := by
  constructor
  · rintro (⟨encloses, _⟩ | leftOf | inName)
    · exact encloses
    · rcases closesBefore with ⟨below, _⟩ | rightOf
      · exact absurd below (leftOf.not_below unshared acyclic).1
      · exact absurd rightOf (leftOf.asymm unshared acyclic)
    · exact absurd inName.below (closesBefore.not_below unshared acyclic)
  · intro encloses
    exact Or.inl ⟨encloses, (closesBefore.ne unshared acyclic).symm⟩

/-- If it does not, the other one is opened earlier. -/
theorem ClosesBefore.opensBefore_iff_not (unshared : tree.Unshared) (acyclic : tree.Acyclic)
    (closesBefore : tree.ClosesBefore first second) :
    tree.OpensBefore first second ↔ ¬ tree.Encloses second first := by
  constructor
  · rintro (⟨above, _⟩ | leftOf | inName) encloses
    · exact closesBefore.not_below unshared acyclic above.1
    · exact (leftOf.not_below unshared acyclic).2 encloses.1
    · exact inName.not_encloses encloses
  · intro apart
    rcases closesBefore with ⟨below, _⟩ | leftOf
    · rcases below.encloses_or_inName with encloses | inName
      · exact absurd encloses apart
      · exact Or.inr (Or.inr inName)
    · exact Or.inr (Or.inl leftOf)

theorem OpensBefore.irrefl (unshared : tree.Unshared) (acyclic : tree.Acyclic) :
    ¬ tree.OpensBefore ref ref := by
  rintro (⟨_, different⟩ | leftOf | inName)
  · exact different rfl
  · exact (leftOf.not_below unshared acyclic).1 (Below.refl tree ref)
  · exact inName.ne acyclic rfl

end NameLowering.Tree
