import NameLowering.Program.Basic

/-!
# Building programs

Trees are built from the leaves. A leaf is given its span; every other node spans its children.
-/

namespace NameLowering.Program

/-! ## Nodes as they come -/

/-- Adds a node as it is given. -/
def addNode (program : Program) (node : Node) : NodeRef × Program :=
  let (ref, tree) := program.tree.add node
  (ref, { program with tree })

/-- Adds a node that spans its children. -/
def addSpanning (program : Program) (kind : NodeKind) (shape : NodeShape) :
    NodeRef × Program :=
  let (ref, tree) := program.tree.addSpanning kind shape
  (ref, { program with tree })

/-! ## Leaves -/

/-- Adds a name that starts at a position and takes one position for each character. -/
def addName (program : Program) (name : SourceName) (start : UInt32) : NodeRef × Program :=
  program.addNode
    { kind := .identifier
      span := { start, stop := start + UInt32.ofNat name.text.length }
      shape := .identifier name }

/-- Adds an identifier. -/
def addIdentifier (program : Program) (text : String) (start : UInt32) : NodeRef × Program :=
  program.addName { text } start

/-- Adds the name of the undefined value. -/
def addUndefined (program : Program) (start : UInt32) : NodeRef × Program :=
  program.addName { text := "undefined", keyword := some .undefinedKeyword } start

/-- Adds a numeral. -/
def addNumeral (program : Program) (span : Span) : NodeRef × Program :=
  program.addNode { kind := .numericLiteral, span, shape := .token }

/-! ## Expressions and statements -/

/-- Adds the call of a function. -/
def addCall (program : Program) (callee : NodeRef) (arguments : List NodeRef) :
    NodeRef × Program :=
  program.addSpanning .callExpression (.call callee arguments)

/-- Adds the call of a constructor. -/
def addConstruction (program : Program) (callee : NodeRef) (arguments : List NodeRef) :
    NodeRef × Program :=
  program.addSpanning .newExpression (.call callee arguments)

/-- Adds the access to a member of an object. -/
def addMember (program : Program) (object key : NodeRef) : NodeRef × Program :=
  program.addSpanning .propertyAccessExpression (.member object key)

/-- Adds a loop over the elements of an iterable. -/
def addForOf (program : Program) (initializer iterable body : NodeRef) : NodeRef × Program :=
  program.addSpanning .forOfStatement (.forOf initializer iterable body)

/-- Adds a declaration of a name. -/
def addDeclaration (program : Program) (kind : NodeKind) (name : NodeRef)
    (parts : List NodeRef) : NodeRef × Program :=
  program.addSpanning kind (.declaration name parts)

/-- Adds any other node that has children. -/
def addGroup (program : Program) (kind : NodeKind) (parts : List NodeRef) : NodeRef × Program :=
  program.addSpanning kind (.group parts)

/-- Adds a source file and makes it the root of the program. -/
def addSourceFile (program : Program) (statements : List NodeRef) : NodeRef × Program :=
  let (ref, extended) := program.addGroup .sourceFile statements
  (ref, { extended with root := ref })

end NameLowering.Program
