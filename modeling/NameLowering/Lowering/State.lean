import NameLowering.Names.Table
import NameLowering.Program.Report
import NameLowering.References.Scopes

/-!
# The state of a compilation unit

What is fixed while a unit is lowered, and what changes: the diagnostics reported, the symbols
numbered, the names handed out and the scopes that are open. Lowering only ever adds to it.
-/

namespace NameLowering

/-- What is lowered, and for which dialect. -/
structure Setting where
  program : Program
  target : Target := .universal

/-- What lowering has come to. -/
structure UnitState where
  diagnostics : Array Diagnostic := #[]
  numbering : Numbering := {}
  names : NameTable := {}
  scopes : OpenScopes := {}
deriving DecidableEq, Repr, Inhabited

/-- Numbers a symbol and notes the reference in every open scope. -/
def UnitState.track (state : UnitState) (symbol : SymbolRef) (ref : NodeRef) :
    SymbolNumber × UnitState :=
  let (number, numbering) := state.numbering.see symbol ref
  (number, { state with numbering, scopes := state.scopes.mention number ref })

namespace Setting

/-- Reports problems with a node. -/
def report (setting : Setting) (ref : NodeRef) (problems : List Problem) (state : UnitState) :
    UnitState :=
  { state with
    diagnostics := state.diagnostics ++ problems.map (setting.program.report ref) }

/-- Tracks the symbol that a name is bound to, if it is bound to one. -/
def trackAt (setting : Setting) (ref : NodeRef) (state : UnitState) :
    Option SymbolNumber × UnitState :=
  match setting.program.symbolAt ref with
  | none => (none, state)
  | some symbol =>
    let (number, state) := state.track symbol ref
    (some number, state)

end Setting

end NameLowering
