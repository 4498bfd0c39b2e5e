import NameLowering.References.Numbering

/-!
# Scopes and the references in them

While a tree is walked, scopes are opened and closed, innermost first, and symbols are mentioned.
A mention belongs to every scope that is open at the time. The mentions of a scope are therefore
one stretch of the log of all mentions: what was logged between its opening and its closing.
-/

namespace NameLowering

/-! ## Scopes -/

/-- A sort of scope, as a set of bits. Bits without a meaning are kept. -/
structure ScopeKind where
  bits : UInt16
deriving DecidableEq, Repr, Inhabited

namespace ScopeKind

def file : ScopeKind := ⟨1⟩
def function : ScopeKind := ⟨2⟩
def block : ScopeKind := ⟨4⟩
def loop : ScopeKind := ⟨8⟩
def namespaceBody : ScopeKind := ⟨16⟩

end ScopeKind

/-- One reference to a symbol: the symbol's number and the name that refers to it. -/
structure Mention where
  symbol : SymbolNumber
  node : NodeRef
deriving DecidableEq, Repr, Inhabited

/-- A closed scope with the references inside it. -/
structure Scope where
  kind : ScopeKind
  /-- The place of the scope among all scopes in the order of opening, counted from one. -/
  id : Nat
  /-- The node that opened the scope. -/
  node : NodeRef
  /-- The references inside the scope, inner scopes included, in the order of the walk. -/
  mentions : List Mention
deriving DecidableEq, Repr, Inhabited

namespace Scope

/-- The symbols referenced in a scope, in the order of the first reference to each. -/
def symbols (scope : Scope) : List SymbolNumber :=
  (scope.mentions.map Mention.symbol).eraseDups

/-- The names in a scope that refer to a symbol. -/
def references (scope : Scope) (symbol : SymbolNumber) : List NodeRef :=
  (scope.mentions.filter (·.symbol == symbol)).map Mention.node

/-- Each referenced symbol with the names that refer to it. -/
def referencedSymbols (scope : Scope) : List (SymbolNumber × List NodeRef) :=
  scope.symbols.map fun symbol => (symbol, scope.references symbol)

end Scope

/-! ## Open scopes -/

/-- A scope that is not closed yet. -/
structure OpenScope where
  kind : ScopeKind
  id : Nat
  node : NodeRef
  /-- The length of the log when the scope was opened. -/
  start : Nat
deriving DecidableEq, Repr, Inhabited

/-- The scopes around the place that a walk has come to. -/
structure OpenScopes where
  /-- The scopes that are open, innermost first. -/
  stack : List OpenScope := []
  /-- The number of scopes opened so far. -/
  opened : Nat := 0
  /-- Every mention so far. -/
  log : Array Mention := #[]
deriving DecidableEq, Repr, Inhabited

namespace OpenScopes

/-- Opens a scope inside those that are open, and returns its number. -/
def enter (scopes : OpenScopes) (kind : ScopeKind) (node : NodeRef) : Nat × OpenScopes :=
  let id := scopes.opened + 1
  let inner : OpenScope := { kind, id, node, start := scopes.log.size }
  (id, { scopes with stack := inner :: scopes.stack, opened := id })

/-- Closes the innermost open scope. -/
def leave? (scopes : OpenScopes) : Option (Scope × OpenScopes) :=
  match scopes.stack with
  | [] => none
  | inner :: outer =>
    let closed : Scope :=
      { kind := inner.kind
        id := inner.id
        node := inner.node
        mentions := (scopes.log.extract inner.start scopes.log.size).toList }
    some (closed, { scopes with stack := outer })

/-- Notes a reference to a symbol in every open scope. -/
def mention (scopes : OpenScopes) (symbol : SymbolNumber) (node : NodeRef) : OpenScopes :=
  { scopes with log := scopes.log.push { symbol, node } }

end OpenScopes

end NameLowering
