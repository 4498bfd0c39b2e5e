import NameLowering.Program.Basic

/-!
# Lowering errors

What makes lowering stop: a tree that does not hold what it has to. What the author of a program
did wrong is never an error here but a diagnostic.
-/

namespace NameLowering

/-- Why a node cannot be lowered. -/
inductive LoweringError where
  | missingNode (node : NodeRef)
  | notAnIdentifier (node : NodeRef) (kind : NodeKind)
  | notASourceFile (node : NodeRef) (kind : NodeKind)
deriving DecidableEq, Repr, Inhabited

namespace LoweringError

def describeNode (node : NodeRef) : String :=
  "NodeIndex(" ++ toString node.number ++ ")"

/-- The text of an error. -/
def message : LoweringError → String
  | missingNode node => describeNode node ++ " is not part of the program tree"
  | notAnIdentifier node kind =>
    describeNode node ++ " is a " ++ kind.name ++ ", expected an identifier"
  | notASourceFile node kind =>
    describeNode node ++ " is a " ++ kind.name ++ ", expected a source file"

end LoweringError

/-- The name that a node holds. -/
def Program.expectName (program : Program) (ref : NodeRef) : Except LoweringError SourceName :=
  match program.tree.node? ref with
  | none => .error (.missingNode ref)
  | some node =>
    match node.shape.name? with
    | some name => .ok name
    | none => .error (.notAnIdentifier ref node.kind)

end NameLowering
