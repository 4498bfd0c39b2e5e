import NameLowering.Limits
import NameLowering.Tree.Basic

/-!
# Ancestors

What a node is part of, found by climbing from parent to parent. Parent links may run in a circle
or lead nowhere, so a climb takes a bounded number of steps.
-/

namespace NameLowering.Tree

/-! ## The nearest ancestor of a sort -/

/-- The first node that `accept` holds of among `ref`, its parent, the parent's parent, …; at most
`steps` nodes are looked at, and one that does not exist ends the search. -/
def climbTo? (tree : Tree) (accept : Node → Bool) : (steps : Nat) → NodeRef → Option NodeRef
  | 0, _ => none
  | steps + 1, ref =>
    match tree.node? ref with
    | none => none
    | some node =>
      if accept node then some ref else tree.climbTo? accept steps node.parent

/-- The nearest node strictly above `ref` that `accept` holds of. -/
def ancestor? (tree : Tree) (accept : Node → Bool) (ref : NodeRef) : Option NodeRef :=
  tree.climbTo? accept Limits.treeClimb (tree.parent ref)

/-! ## Callees -/

/-- Whether the parent of `ref` calls it, where up to `steps` parenthesized expressions around
`ref` are seen through. A parenthesized expression itself calls nothing. -/
def isCalleeWithin (tree : Tree) : (steps : Nat) → NodeRef → Bool
  | 0, ref => (tree.node? (tree.parent ref)).any (·.calls ref)
  | steps + 1, ref =>
    match tree.node? (tree.parent ref) with
    | none => false
    | some node =>
      if node.kind = .parenthesizedExpression then
        tree.isCalleeWithin steps (tree.parent ref)
      else
        node.calls ref

/-- Whether a node is what a call or construction calls, in parentheses or not. -/
def isCallee (tree : Tree) (ref : NodeRef) : Bool :=
  tree.isCalleeWithin Limits.treeClimb ref

/-- Whether a node is used otherwise than by calling it. -/
def isBareUse (tree : Tree) (ref : NodeRef) : Bool :=
  !tree.isCallee ref

/-- Whether a node is in the nearest call around it, and a loop iterates over that call. -/
def isInIteratedCall (tree : Tree) (ref : NodeRef) : Bool :=
  match tree.ancestor? (·.kind == .callExpression) ref with
  | none => false
  | some call => (tree.node? (tree.parent call)).any (·.iteratesOver call)

end NameLowering.Tree
