import NameLowering.Limits
import NameLowering.Symbols.Basic

/-!
# Containers

The containers around a symbol, and the one whose table holds the symbol if it is exported.
-/

namespace NameLowering

/-! ## The declaring chain -/

namespace SymbolTable

/-- The containers from `next` outwards, up to the first that is in `seen` or listed twice, and at
most `length` of them. -/
def containersFrom (table : SymbolTable) :
    (length : Nat) → (seen : List SymbolRef) → (next : Option SymbolRef) → List SymbolRef
  | 0, _, _ => []
  | _, _, none => []
  | length + 1, seen, some container =>
    if seen.contains container then
      []
    else
      container ::
        table.containersFrom length (container :: seen) (table.parent? container)

/-- The containers that declare a symbol, innermost first. A circle is listed once, and a
container that does not exist ends the chain. -/
def declaringChain (table : SymbolTable) (ref : SymbolRef) : List SymbolRef :=
  table.containersFrom Limits.declaringChain [] (table.parent? ref)

end SymbolTable

/-! ## Export scopes -/

/-- A sort of container that keeps its exports in a table. -/
inductive ContainerKind where
  | sourceFile
  | namespaceDeclaration
  | enumDeclaration
deriving DecidableEq, Repr, Inhabited

/-- The container whose table holds an exported symbol. -/
structure ExportScope where
  kind : ContainerKind
  container : SymbolRef
deriving DecidableEq, Repr, Inhabited

/-- The sort of container that a symbol is. One that is of several sorts counts as a file before a
namespace, and as a namespace before an enumeration. -/
def Symbol.containerKind? (symbol : Symbol) : Option ContainerKind :=
  if symbol.flags.contains .sourceFile then some .sourceFile
  else if symbol.flags.contains .namespaceDeclaration then some .namespaceDeclaration
  else if symbol.flags.contains .enumDeclaration then some .enumDeclaration
  else none

/-- Where a symbol is exported to: its innermost container, if the symbol is exported and the
container keeps a table. -/
def SymbolTable.exportScope? (table : SymbolTable) (ref : SymbolRef) : Option ExportScope := do
  let symbol ← table.get? ref
  guard symbol.isExported
  let container ← (table.declaringChain ref).head?
  let declaring ← table.get? container
  let kind ← declaring.containerKind?
  return { kind, container }

end NameLowering
