import NameLowering.Limits
import NameLowering.Types.Basic

/-!
# Resolution of types

What a type has, seen through aliases and through the members of intersections and unions. The
links between types may run in circles, so each resolution follows a bounded number of them.
-/

namespace NameLowering.TypeTable

/-! ## Properties -/

/-- The first answer of a list of candidates, provided that every candidate has one. -/
def sharedAnswer? (answer? : TypeId → Option TypeId) : List TypeId → Option TypeId
  | [] => none
  | first :: rest =>
    match answer? first with
    | none => none
    | some found => if rest.all fun id => (answer? id).isSome then some found else none

/-- The type of a property, where at most `levels` types in a chain of links are looked at. -/
def propertyWithin? (table : TypeTable) (name : String) : (levels : Nat) → TypeId → Option TypeId
  | 0, _ => none
  | levels + 1, id =>
    match table.get? id with
    | some (.object properties _) =>
      (properties.find? (·.name == name)).map Property.type
    | some (.alias _ target) => table.propertyWithin? name levels target
    | some (.intersection members) => members.findSome? (table.propertyWithin? name levels)
    | some (.union members) => sharedAnswer? (table.propertyWithin? name levels) members
    | _ => none

/-- The type of a property. An alias has the properties of its target, an intersection those of
any member, with the first member's type, and a union those that all its members have. -/
def property? (table : TypeTable) (id : TypeId) (name : String) : Option TypeId :=
  table.propertyWithin? name (Limits.typeNesting + 1) id

/-! ## Unique symbols -/

/-- Whether a chain of aliases ends in a unique symbol, where at most `levels` types are looked
at. -/
def isUniqueSymbolWithin (table : TypeTable) : (levels : Nat) → TypeId → Bool
  | 0, _ => false
  | levels + 1, id =>
    match table.get? id with
    | some (.uniqueSymbol _) => true
    | some (.alias _ target) => table.isUniqueSymbolWithin levels target
    | _ => false

/-- Whether a type is a unique symbol, seen through aliases. -/
def isUniqueSymbol (table : TypeTable) (id : TypeId) : Bool :=
  table.isUniqueSymbolWithin Limits.typeNesting id

/-! ## Annotations -/

/-- Adds the annotations of a type to those found so far, where at most `levels` types in a chain
of links are looked at. -/
def collectAnnotations (table : TypeTable) :
    (levels : Nat) → List Annotation → TypeId → List Annotation
  | 0, found, _ => found
  | levels + 1, found, id =>
    match table.get? id with
    | some (.object _ annotations) | some (.function _ _ annotations) =>
      annotations.foldl (fun found added => added.insert found) found
    | some (.alias _ target) => table.collectAnnotations levels found target
    | some (.intersection members) => members.foldl (table.collectAnnotations levels) found
    | _ => found

/-- The annotations of an object or function type, seen through aliases and gathered from the
members of intersections, each once and in the order in which they are met. -/
def annotations (table : TypeTable) (id : TypeId) : List Annotation :=
  table.collectAnnotations (Limits.typeNesting + 1) [] id

end NameLowering.TypeTable
