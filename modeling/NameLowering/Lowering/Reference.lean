import NameLowering.Lowering.Error
import NameLowering.Lowering.Export
import NameLowering.Lowering.Library
import NameLowering.Lowering.Misuse
import NameLowering.Lowering.Safety

/-!
# Lowering of references

What one name becomes in the output. There are three ways to lower a name: as the name that a
declaration binds, as a variable that is referred to, and as an expression, which may be the field
of an export table, `nil` or the replacement of a library global. Each fails exactly if the node
holds no name, and then changes nothing.
-/

namespace NameLowering.Setting

/-! ## Lowering a name that is there -/

/-- The variable for a name: safe names as they are written, others escaped. -/
def variableFor (setting : Setting) (ref : NodeRef) (name : SourceName) (state : UnitState) :
    Lua.Ident × UnitState :=
  let (escape, state) := setting.checkName ref state
  let (text, names) := state.names.outputName setting.target escape name.text
  let (symbol, state) := setting.trackAt ref { state with names }
  ({ text, sourceName := some name.text, symbol, source := some ref }, state)

/-- The variable that the use of a name refers to, or a placeholder for a use that cannot be
lowered. -/
def variableUsed (setting : Setting) (ref : NodeRef) (name : SourceName) (state : UnitState) :
    Lua.Ident × UnitState :=
  let verdict := setting.program.useVerdict ref
  let state := setting.report ref verdict.problems state
  if verdict.lowerable then
    setting.variableFor ref name state
  else
    (.placeholder (some ref), state)

/-- An exportable variable under the name of the symbol that a name is bound to. -/
def withSymbolName (setting : Setting) (ref : NodeRef) (ident : Lua.Ident) : Lua.Ident :=
  match setting.program.boundSymbol? ref with
  | some symbol =>
    if ident.exportable then { ident with sourceName := some symbol.name } else ident
  | none => ident

/-- The expression that the use of a name stands for. Exports come first, then `nil`, then library
globals, and variables last. -/
def expressionFor (setting : Setting) (ref : NodeRef) (name : SourceName) (state : UnitState) :
    Lua.Expr × UnitState :=
  match setting.program.exportScopeAt? ref with
  | some scope =>
    let (ident, state) := setting.variableUsed ref name state
    setting.exportAccess (setting.withSymbolName ref ident) scope state
  | none =>
    if name.keyword = some .undefinedKeyword then
      (.nil, state)
    else
      match setting.program.libraryReplacement? ref with
      | some expression => (expression, state)
      | none =>
        let (ident, state) := setting.variableUsed ref name state
        (.ident ident, state)

/-! ## Lowering a node -/

/-- Lowers the name that a node holds, if it holds one. -/
def atName {α : Type} (setting : Setting) (ref : NodeRef)
    (lower : SourceName → UnitState → α × UnitState) (state : UnitState) :
    Except LoweringError α × UnitState :=
  match setting.program.expectName ref with
  | .error error => (.error error, state)
  | .ok name =>
    let (lowered, state) := lower name state
    (.ok lowered, state)

/-- Lowers the name that a declaration binds. That is no use of it, so extensions are not
checked. -/
def lowerDeclared (setting : Setting) (ref : NodeRef) (state : UnitState) :
    Except LoweringError Lua.Ident × UnitState :=
  setting.atName ref (setting.variableFor ref) state

/-- Lowers a name that is referred to. -/
def lowerVariable (setting : Setting) (ref : NodeRef) (state : UnitState) :
    Except LoweringError Lua.Ident × UnitState :=
  setting.atName ref (setting.variableUsed ref) state

/-- Lowers a name that is used as a value. -/
def lowerExpression (setting : Setting) (ref : NodeRef) (state : UnitState) :
    Except LoweringError Lua.Expr × UnitState :=
  setting.atName ref (setting.expressionFor ref) state

end NameLowering.Setting
