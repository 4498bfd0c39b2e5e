/-!
# Limits

Bounds on every walk along links that a malformed program could make endless: parent links of
nodes, containers of symbols, links between types, and the depth of a tree.
-/

namespace NameLowering.Limits

/-- The number of parent links that a climb from a node to its ancestors follows. -/
def treeClimb : Nat := 10000

/-- The number of containers listed when the declaring chain of a symbol is resolved. -/
def declaringChain : Nat := 256

/-- The depth at which the walk over a file stops descending; the root is at depth zero. -/
def treeDepth : Nat := 500

/-- The number of links that the resolution of a type follows. -/
def typeNesting : Nat := 64

end NameLowering.Limits
