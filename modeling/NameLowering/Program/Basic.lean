import NameLowering.Symbols.Container
import NameLowering.Tree.Ancestry
import NameLowering.Types.Lookup

/-!
# Programs

A program is one source file after parsing and checking: its tree, types and symbols, and the
checker's answers to two questions, which type a node has and which symbol a name stands for.
-/

namespace NameLowering

/-- A checked source file. -/
structure Program where
  fileName : String
  tree : Tree := {}
  types : TypeTable := {}
  symbols : SymbolTable := {}
  /-- The type of an expression or of a declared name. -/
  typeAt : NodeRef → Option TypeId := fun _ => none
  /-- The symbol that a name is bound to. -/
  symbolAt : NodeRef → Option SymbolRef := fun _ => none
  /-- The node of the source file. -/
  root : NodeRef := .absent

namespace Program

/-! ## The checker's answers -/

/-- Records the type of a node, in place of any earlier answer. -/
def setType (program : Program) (ref : NodeRef) (type : TypeId) : Program :=
  { program with
    typeAt := fun other => if other = ref then some type else program.typeAt other }

/-- Binds a name to a symbol, in place of any earlier answer. -/
def bind (program : Program) (ref : NodeRef) (symbol : SymbolRef) : Program :=
  { program with
    symbolAt := fun other => if other = ref then some symbol else program.symbolAt other }

/-- The symbol that a name is bound to, if there is such a symbol. -/
def boundSymbol? (program : Program) (ref : NodeRef) : Option Symbol :=
  (program.symbolAt ref).bind program.symbols.get?

/-- The annotations on the type of a node. -/
def annotationsAt (program : Program) (ref : NodeRef) : List Annotation :=
  match program.typeAt ref with
  | some type => program.types.annotations type
  | none => []

end Program

end NameLowering
