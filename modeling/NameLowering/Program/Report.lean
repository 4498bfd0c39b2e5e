import NameLowering.Diagnostic.Catalog
import NameLowering.Program.Basic

/-!
# Reports

Diagnostics about the nodes of a program.
-/

namespace NameLowering.Program

/-- The diagnostic about a problem with a node, at the node's span. A node that does not exist is
reported at the start of the file. -/
def report (program : Program) (ref : NodeRef) (problem : Problem) : Diagnostic :=
  let span := ((program.tree.node? ref).map Node.span).getD {}
  problem.rule.report problem.arguments program.fileName span.start span.length

end NameLowering.Program
