import NameLowering.Tree.Node

/-!
# Trees

The table of a program's nodes. Trees grow from the leaves: adding a node makes it the parent of
its children, so a node that several nodes list as a child has the last of them for its parent.
-/

namespace NameLowering

/-- The nodes of a program, in the order in which they were added. -/
structure Tree where
  nodes : Array Node := #[]
deriving DecidableEq, Repr, Inhabited

namespace Tree

/-! ## Reading -/

/-- The node that a reference leads to. -/
def node? (tree : Tree) : NodeRef → Option Node
  | .absent => none
  | .node index => tree.nodes[index]?

def kind? (tree : Tree) (ref : NodeRef) : Option NodeKind :=
  (tree.node? ref).map Node.kind

/-- The parent of a node; absent for a root and for a reference that leads nowhere. -/
def parent (tree : Tree) (ref : NodeRef) : NodeRef :=
  match tree.node? ref with
  | some node => node.parent
  | none => .absent

/-- The name that a node holds, if it is one. -/
def name? (tree : Tree) (ref : NodeRef) : Option SourceName :=
  (tree.node? ref).bind fun node => node.shape.name?

/-- The least span that covers those of the nodes that exist. -/
def hull (tree : Tree) (refs : List NodeRef) : Span :=
  Span.hull ((refs.filterMap tree.node?).map Node.span)

/-! ## Growing -/

/-- Sets the parent of one node, if it exists. -/
def setParent (parent : NodeRef) (nodes : Array Node) : NodeRef → Array Node
  | .absent => nodes
  | .node index => nodes.modify index fun node => { node with parent }

/-- Adds a node and makes it the parent of its children. A child that does not exist yet gets no
parent. -/
def add (tree : Tree) (node : Node) : NodeRef × Tree :=
  let ref := .node tree.nodes.size
  let linked := node.shape.children.foldl (setParent ref) tree.nodes
  (ref, { nodes := linked.push node })

/-- Adds a node that spans its children. -/
def addSpanning (tree : Tree) (kind : NodeKind) (shape : NodeShape) : NodeRef × Tree :=
  tree.add { kind, shape, span := tree.hull shape.children }

end Tree

end NameLowering
