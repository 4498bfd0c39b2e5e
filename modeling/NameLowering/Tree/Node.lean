import NameLowering.Tree.NodeKind
import NameLowering.Tree.Span

/-!
# Nodes

A node has a kind, a span, a link to its parent and a shape that holds its children. Nodes refer
to each other by their place in a table. Kind and shape come from a parser and need not fit
together, and a reference may lead nowhere.
-/

namespace NameLowering

/-! ## References to nodes -/

/-- A reference to a node, or its absence where a node may be left out. -/
inductive NodeRef where
  | absent
  /-- The node at a place of the table, which need not hold one. -/
  | node (index : Nat)
deriving DecidableEq, Repr, Inhabited

namespace NodeRef

/-- The number that stands for an absent node. -/
def absentNumber : Nat := 4294967295

/-- The number of a reference, as interfaces and messages write it. -/
def number : NodeRef → Nat
  | absent => absentNumber
  | node index => index

def ofNumber (number : Nat) : NodeRef :=
  if number = absentNumber then absent else node number

@[simp]
theorem number_ofNumber (number : Nat) : (ofNumber number).number = number := by
  unfold ofNumber
  split <;> simp_all [NodeRef.number]

def isPresent : NodeRef → Bool
  | absent => false
  | node _ => true

end NodeRef

/-! ## Shapes -/

/-- A name as the source has it. -/
structure SourceName where
  text : String
  /-- The keyword that the name spells, where it spells one that may also be a name. -/
  keyword : Option NodeKind := none
deriving DecidableEq, Repr, Inhabited

/-- What a node holds. -/
inductive NodeShape where
  | identifier (name : SourceName)
  /-- A call of a function or of a constructor. -/
  | call (callee : NodeRef) (arguments : List NodeRef)
  /-- The member of an object that a dot and a key select. -/
  | member (object key : NodeRef)
  /-- A loop over the elements of an iterable. -/
  | forOf (initializer iterable body : NodeRef)
  /-- A declaration: the name it binds, which some lack, and what follows the name. -/
  | declaration (name : NodeRef) (parts : List NodeRef)
  | group (parts : List NodeRef)
  | token
deriving DecidableEq, Repr, Inhabited

namespace NodeShape

/-- The places for children in source order, whether filled or not. -/
def slots : NodeShape → List NodeRef
  | identifier _ | token => []
  | call callee arguments => callee :: arguments
  | member object key => [object, key]
  | forOf initializer iterable body => [initializer, iterable, body]
  | declaration bound parts => bound :: parts
  | group parts => parts

/-- The children in source order. -/
def children (shape : NodeShape) : List NodeRef :=
  shape.slots.filter NodeRef.isPresent

def name? : NodeShape → Option SourceName
  | identifier name => some name
  | _ => none

end NodeShape

/-! ## Nodes -/

/-- A node of a program's tree. -/
structure Node where
  kind : NodeKind
  span : Span
  shape : NodeShape
  parent : NodeRef := .absent
deriving DecidableEq, Repr, Inhabited

/-- Whether a node calls the node that `callee` refers to. -/
def Node.calls (node : Node) (callee : NodeRef) : Bool :=
  match node.shape with
  | .call target _ => node.kind.isCallLike && target == callee
  | _ => false

/-- Whether a node loops over the elements of the node that `iterable` refers to. -/
def Node.iteratesOver (node : Node) (iterable : NodeRef) : Bool :=
  match node.shape with
  | .forOf _ target _ => target == iterable
  | _ => false

end NameLowering
