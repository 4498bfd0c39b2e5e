import NameLowering.Lowering.State

/-!
# Safety of names in a program

Whether a reference has to be escaped. The symbol decides if the name is bound to one, and the
name's own text if it is not.

* An ambient symbol is declared elsewhere under its own name, so that name has to be emitted as it
  is, and one that the target does not accept is reported.
* An exported symbol is a field of a table and keeps its name.
* A symbol that does not exist has no name to escape.
-/

namespace NameLowering

/-! ## Symbols -/

/-- Whether references to a symbol are escaped. -/
def Symbol.mustEscape (symbol : Symbol) (target : Target) : Bool :=
  if symbol.isAmbient then
    !target.accepts symbol.name
  else
    target.mustEscape symbol.name && !symbol.isExported

/-- What is wrong with the name of a symbol. -/
def Symbol.nameProblems (symbol : Symbol) (target : Target) : List Problem :=
  if symbol.isAmbient && !target.accepts symbol.name then [.ambientName symbol.name] else []

namespace Setting

def escapesSymbol (setting : Setting) (symbol : SymbolRef) : Bool :=
  (setting.program.symbols.get? symbol).any (·.mustEscape setting.target)

def symbolProblems (setting : Setting) (symbol : SymbolRef) : List Problem :=
  match setting.program.symbols.get? symbol with
  | some symbol => symbol.nameProblems setting.target
  | none => []

/-- Whether references to a symbol are escaped; problems with its name are reported at the
reference. -/
def checkSymbol (setting : Setting) (symbol : SymbolRef) (ref : NodeRef) (state : UnitState) :
    Bool × UnitState :=
  (setting.escapesSymbol symbol, setting.report ref (setting.symbolProblems symbol) state)

/-! ## Names -/

/-- Whether a name is escaped, going by its text. -/
def escapesText (setting : Setting) (ref : NodeRef) : Bool :=
  (setting.program.tree.name? ref).any fun name => setting.target.mustEscape name.text

/-- Whether a name is escaped; problems with the name of its symbol are reported. -/
def checkName (setting : Setting) (ref : NodeRef) (state : UnitState) : Bool × UnitState :=
  match setting.program.symbolAt ref with
  | some symbol => setting.checkSymbol symbol ref state
  | none => (setting.escapesText ref, state)

end Setting

end NameLowering
