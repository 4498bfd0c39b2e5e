import NameLowering.Tree.Node

/-!
# Symbols

The table of a program's symbols. A symbol knows the container that declares it; the links from
symbols to containers may run in circles or lead nowhere.
-/

namespace NameLowering

/-- The place of a symbol in the table, which need not hold one. -/
structure SymbolRef where
  index : Nat
deriving DecidableEq, Repr, Inhabited

/-! ## Flags -/

/-- A set of traits of symbols, one bit each. Bits without a meaning are kept. -/
structure SymbolFlags where
  bits : UInt32
deriving DecidableEq, Repr, Inhabited

namespace SymbolFlags

def localVariable : SymbolFlags := ⟨1⟩
def parameter : SymbolFlags := ⟨2⟩
def function : SymbolFlags := ⟨4⟩
def enumMember : SymbolFlags := ⟨8⟩

/-- A source file that is a module. -/
def sourceFile : SymbolFlags := ⟨16⟩

def namespaceDeclaration : SymbolFlags := ⟨32⟩
def enumDeclaration : SymbolFlags := ⟨64⟩

/-- Reachable from outside the container that declares it. -/
def exported : SymbolFlags := ⟨128⟩

/-- Declared elsewhere, so that the declaration emits nothing. -/
def ambient : SymbolFlags := ⟨256⟩

def standardLibrary : SymbolFlags := ⟨512⟩

def union (left right : SymbolFlags) : SymbolFlags :=
  ⟨left.bits ||| right.bits⟩

/-- Whether all traits of `part` are among those of `flags`. -/
def contains (flags part : SymbolFlags) : Bool :=
  flags.bits &&& part.bits == part.bits

/-- Whether the two have a trait in common. -/
def meets (left right : SymbolFlags) : Bool :=
  left.bits &&& right.bits != 0

/-- The traits of symbols that declare others. -/
def container : SymbolFlags :=
  [namespaceDeclaration, enumDeclaration].foldl union sourceFile

/-- The traits of symbols that stand for a value. -/
def value : SymbolFlags :=
  [parameter, function, enumMember, namespaceDeclaration, enumDeclaration].foldl union
    localVariable

end SymbolFlags

/-! ## Symbols -/

/-- What the binder knows of a name. -/
structure Symbol where
  name : String
  flags : SymbolFlags
  declarations : List NodeRef := []
  /-- The container that declares the symbol. -/
  parent : Option SymbolRef := none
deriving DecidableEq, Repr, Inhabited

namespace Symbol

def isExported (symbol : Symbol) : Bool :=
  symbol.flags.contains .exported

def isAmbient (symbol : Symbol) : Bool :=
  symbol.flags.contains .ambient

def isStandardLibrary (symbol : Symbol) : Bool :=
  symbol.flags.contains .standardLibrary

def isContainer (symbol : Symbol) : Bool :=
  symbol.flags.meets .container

end Symbol

/-! ## The table -/

/-- The symbols of a program, in the order in which they were added. -/
structure SymbolTable where
  symbols : Array Symbol := #[]
deriving DecidableEq, Repr, Inhabited

namespace SymbolTable

def get? (table : SymbolTable) (ref : SymbolRef) : Option Symbol :=
  table.symbols[ref.index]?

def add (table : SymbolTable) (symbol : Symbol) : SymbolRef × SymbolTable :=
  (⟨table.symbols.size⟩, { symbols := table.symbols.push symbol })

/-- Changes one symbol, if it exists. -/
def modify (table : SymbolTable) (ref : SymbolRef) (change : Symbol → Symbol) : SymbolTable :=
  { symbols := table.symbols.modify ref.index change }

/-- The container that declares a symbol. -/
def parent? (table : SymbolTable) (ref : SymbolRef) : Option SymbolRef :=
  (table.get? ref).bind Symbol.parent

end SymbolTable

end NameLowering
