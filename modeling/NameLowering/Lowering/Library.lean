import NameLowering.Lua.Expr
import NameLowering.Program.Basic

/-!
# Library globals

Globals of the source language's standard library that Lua has under another name or has to
compute. A variable of the program with the same name is not one of them.
-/

namespace NameLowering

/-- What stands for a library global under its name, if that is not the name itself. -/
def Lua.Expr.ofGlobal? (source : NodeRef) : String → Option Lua.Expr
  | "NaN" => some (.binary (.numeral "0") "/" (.numeral "0"))
  | "Infinity" => some (.index (.ident { text := "math" }) (.text "huge") (some source))
  | "globalThis" =>
    some (.ident { text := "_G", sourceName := some "globalThis", source := some source })
  | _ => none

/-- What stands for a name that is bound to a library global. -/
def Program.libraryReplacement? (program : Program) (ref : NodeRef) : Option Lua.Expr := do
  let symbol ← program.boundSymbol? ref
  guard symbol.isStandardLibrary
  let name ← program.tree.name? ref
  Lua.Expr.ofGlobal? ref name.text

end NameLowering
