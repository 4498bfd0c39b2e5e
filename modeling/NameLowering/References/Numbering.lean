import NameLowering.Symbols.Basic

/-!
# Numbering of symbols

Every symbol that is referenced in a compilation unit gets a number, counted from one in the order
of first sight.
-/

namespace NameLowering

/-- The number of a symbol. No symbol has the number zero. -/
structure SymbolNumber where
  value : Nat
deriving DecidableEq, Repr, Inhabited

/-- The first reference to a symbol. -/
structure Sighting where
  symbol : SymbolRef
  firstSeenAt : NodeRef
deriving DecidableEq, Repr, Inhabited

/-- The symbols seen so far in order; the number of each is its place in the list. -/
structure Numbering where
  sightings : Array Sighting := #[]
deriving DecidableEq, Repr, Inhabited

namespace Numbering

/-- The number of symbols seen. -/
def size (numbering : Numbering) : Nat :=
  numbering.sightings.size

def isEmpty (numbering : Numbering) : Bool :=
  numbering.sightings.isEmpty

/-- The number of a symbol, if it was seen before. -/
def number? (numbering : Numbering) (symbol : SymbolRef) : Option SymbolNumber :=
  (numbering.sightings.findIdx? (·.symbol == symbol)).map fun place => ⟨place + 1⟩

/-- What a number stands for. -/
def sighting? (numbering : Numbering) : SymbolNumber → Option Sighting
  | ⟨0⟩ => none
  | ⟨place + 1⟩ => numbering.sightings[place]?

/-- The number of a symbol, which gets the next one if it was not seen before. -/
def see (numbering : Numbering) (symbol : SymbolRef) (ref : NodeRef) :
    SymbolNumber × Numbering :=
  match numbering.number? symbol with
  | some number => (number, numbering)
  | none =>
    let extended := numbering.sightings.push { symbol, firstSeenAt := ref }
    (⟨extended.size⟩, { sightings := extended })

end Numbering

end NameLowering
