import NameLowering.Lowering.State
import NameLowering.Lua.Expr

/-!
# Exported names

An exported symbol is no variable but a field of its container's table. The exports of a module
file are in one table of a fixed name; those of a namespace or enumeration are in the variable
that holds it, so the access is a reference to that variable too.
-/

namespace NameLowering

/-- Where the symbol that a name is bound to is exported to. -/
def Program.exportScopeAt? (program : Program) (ref : NodeRef) : Option ExportScope :=
  (program.symbolAt ref).bind program.symbols.exportScope?

namespace Setting

/-- The variable that holds a namespace or enumeration; nothing if the container does not exist. -/
def containerVariable? (setting : Setting) (container : SymbolRef) (ref : NodeRef)
    (state : UnitState) : Option (Lua.Ident × UnitState) := do
  let symbol ← setting.program.symbols.get? container
  let (text, names) := state.names.mangle setting.target symbol.name
  let (number, state) := { state with names }.track container ref
  return ({ text, sourceName := some symbol.name, symbol := some number }, state)

/-- The table that an export scope keeps its exports in. -/
def exportTable? (setting : Setting) (scope : ExportScope) (ref : NodeRef) (state : UnitState) :
    Option (Lua.Ident × UnitState) :=
  match scope.kind with
  | .sourceFile => some ({ text := Lua.exportsTable }, state)
  | .namespaceDeclaration | .enumDeclaration =>
    setting.containerVariable? scope.container ref state

/-- The access to an exported variable: the field of the container's table under the variable's
own name. A placeholder and a variable without a container stay as they are. -/
def exportAccess (setting : Setting) (ident : Lua.Ident) (scope : ExportScope)
    (state : UnitState) : Lua.Expr × UnitState :=
  if ident.exportable then
    match setting.exportTable? scope (ident.source.getD .absent) state with
    | some (table, state) =>
      let key := ident.sourceName.getD ident.text
      (.index (.ident table) (.text key) ident.source, state)
    | none => (.ident ident, state)
  else
    (.ident ident, state)

end Setting

end NameLowering
