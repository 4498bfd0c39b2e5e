import Mathlib.Logic.Function.Iterate
import NameLowering.Proofs.Tree.Callees

/-!
# Climbs

Links to parents may run in a circle, lead nowhere, or go on for very long. Whatever they do, a
search among the nodes above finds the first one that is accepted, unless a node before it is
missing or it is beyond the limit. And a node counts as called exactly if what is around the
parentheses around it calls these, and there are no more of them than the limit.
-/

namespace NameLowering.Tree

variable {tree : Tree} {accept : Node → Bool} {ref found : NodeRef} {steps place parentheses : Nat}

/-! ## The first one accepted -/

/-- Of the nodes from `ref` upwards, the one at a place is the first that is accepted. All before
it exist and are not. -/
structure AcceptsFirst (tree : Tree) (accept : Node → Bool) (ref : NodeRef) (place : Nat) :
    Prop where
  passed : ∀ earlier < place, ∃ node,
    tree.node? (tree.parent^[earlier] ref) = some node ∧ accept node = false
  accepted : ∃ node, tree.node? (tree.parent^[place] ref) = some node ∧ accept node = true

theorem acceptsFirst_zero_iff :
    tree.AcceptsFirst accept ref 0 ↔
      ∃ node, tree.node? ref = some node ∧ accept node = true := by
  constructor
  · intro first
    exact first.accepted
  · intro accepted
    exact ⟨fun earlier before => absurd before (Nat.not_lt_zero earlier), accepted⟩

/-- Above a node that is passed, the search goes on from its parent. -/
theorem acceptsFirst_succ_iff :
    tree.AcceptsFirst accept ref (place + 1) ↔
      (∃ node, tree.node? ref = some node ∧ accept node = false) ∧
        tree.AcceptsFirst accept (tree.parent ref) place := by
  constructor
  · rintro ⟨passed, accepted⟩
    obtain ⟨here, above⟩ := Nat.forall_lt_succ_left.mp passed
    exact ⟨here, above, accepted⟩
  · rintro ⟨here, above, accepted⟩
    exact ⟨Nat.forall_lt_succ_left.mpr ⟨here, above⟩, accepted⟩

theorem climbTo?_eq_some_iff_acceptsFirst :
    tree.climbTo? accept steps ref = some found ↔
      ∃ place < steps, tree.parent^[place] ref = found ∧ tree.AcceptsFirst accept ref place := by
  induction steps generalizing ref with
  | zero =>
      simp [climbTo?]
  | succ steps inductionHypothesis =>
      -- At the first place is the node itself, at the others are the nodes from its parent upwards.
      rw [Nat.exists_lt_succ_left, acceptsFirst_zero_iff]
      simp only [acceptsFirst_succ_iff]
      cases held : tree.node? ref with
      | none =>
          simp [climbTo?, held]
      | some node =>
          rw [climbTo?_succ held]
          cases accepts : accept node with
          | true =>
              simp [accepts]
          | false =>
              simp [accepts, inductionHypothesis]

/-! ## Calls around parentheses -/

/-- So many parenthesized expressions are around a node one after the other, and the next node
above calls the outermost of them, or the node itself if there are none. -/
structure CalledIn (tree : Tree) (parentheses : Nat) (ref : NodeRef) : Prop where
  wrapped : ∀ place < parentheses,
    tree.kind? (tree.parent^[place + 1] ref) = some .parenthesizedExpression
  called : ∃ node arguments, tree.node? (tree.parent^[parentheses + 1] ref) = some node ∧
    node.kind.isCallLike = true ∧ node.shape = .call (tree.parent^[parentheses] ref) arguments

theorem calledIn_zero_iff :
    tree.CalledIn 0 ref ↔
      ∃ node, tree.node? (tree.parent ref) = some node ∧ node.calls ref = true := by
  simp only [Node.calls_iff]
  constructor
  · rintro ⟨_, node, arguments, held, calls, shape⟩
    exact ⟨node, held, calls, arguments, shape⟩
  · rintro ⟨node, held, calls, arguments, shape⟩
    exact ⟨fun place before => absurd before (Nat.not_lt_zero place),
      node, arguments, held, calls, shape⟩

/-- The parentheses around the innermost ones are around these as a node of their own. -/
theorem calledIn_succ_iff :
    tree.CalledIn (parentheses + 1) ref ↔
      tree.kind? (tree.parent ref) = some .parenthesizedExpression ∧
        tree.CalledIn parentheses (tree.parent ref) := by
  constructor
  · rintro ⟨wrapped, called⟩
    obtain ⟨innermost, outer⟩ := Nat.forall_lt_succ_left.mp wrapped
    exact ⟨innermost, outer, called⟩
  · rintro ⟨innermost, outer, called⟩
    exact ⟨Nat.forall_lt_succ_left.mpr ⟨innermost, outer⟩, called⟩

theorem isCalleeWithin_iff_calledIn :
    tree.isCalleeWithin steps ref = true ↔ ∃ parentheses ≤ steps, tree.CalledIn parentheses ref := by
  induction steps generalizing ref with
  | zero =>
      simp [isCalleeWithin, calledIn_zero_iff, Option.any_eq_true]
  | succ steps inductionHypothesis =>
      -- The node is called by its parent, or its parent, in one parenthesis less, is called.
      simp only [← Nat.lt_succ_iff]
      rw [Nat.exists_lt_succ_left, calledIn_zero_iff]
      simp only [calledIn_succ_iff, Nat.lt_succ_iff]
      cases held : tree.node? (tree.parent ref) with
      | none =>
          simp [isCalleeWithin, held, kind?]
      | some node =>
          rw [isCalleeWithin_succ held]
          by_cases kind : node.kind = .parenthesizedExpression
          · simp [kind, kind?, held, Node.calls_of_parenthesized kind, inductionHypothesis]
          · simp [kind, kind?, held]

/-! ## What is above a node -/

/-- However the parents are linked, a search among the nodes strictly above one finds the first that
is accepted, provided that none is missing up to it and it is one of the nearest ten thousand. The
use of a node is bare unless a call is around it, with at most ten thousand parentheses in between,
and calls the outermost of these. -/
theorem ancestor?_isBareUse_iff (tree : Tree) (ref : NodeRef) :
    (∀ accept found, tree.ancestor? accept ref = some found ↔
      ∃ place < 10000, tree.parent^[place] (tree.parent ref) = found ∧
        tree.AcceptsFirst accept (tree.parent ref) place) ∧
    (tree.isBareUse ref = false ↔ ∃ parentheses ≤ 10000, tree.CalledIn parentheses ref) := by
  constructor
  · intro accept found
    exact climbTo?_eq_some_iff_acceptsFirst
  · rw [isBareUse, Bool.not_eq_false']
    exact isCalleeWithin_iff_calledIn

-- Parents in a circle: the name is above itself, and the call above it calls it in parentheses.
example :
    let tree : Tree :=
      { nodes := #[
          { kind := .identifier, span := {}, shape := .identifier { text := "f" },
            parent := .node 1 },
          { kind := .parenthesizedExpression, span := {}, shape := .group [.node 0],
            parent := .node 2 },
          { kind := .callExpression, span := {}, shape := .call (.node 1) [],
            parent := .node 0 }] }
    tree.ancestor? (·.kind == .identifier) (.node 0) = some (.node 0) ∧
      tree.isBareUse (.node 0) = false ∧ tree.isBareUse (.node 1) = false := by
  decide

end NameLowering.Tree
