/-!
# Types

The table of a program's types, as far as lowering inspects them: objects with named properties,
functions, intersections, unions, aliases, and annotations on the declarations of types. Types
refer to each other by their place in the table; the references may run in circles or lead
nowhere.
-/

namespace NameLowering

/-- The place of a type in the table, which need not hold one. -/
structure TypeId where
  index : Nat
deriving DecidableEq, Repr, Inhabited

/-- A type built into the language. -/
inductive Intrinsic where
  | any
  | unknown
  | never
  | void
  | undefined
  | null
  | boolean
  | number
  | string
  | symbol
deriving DecidableEq, Repr, Inhabited

/-- An annotation on the declaration of a type. -/
inductive Annotation where
  /-- Calls stand for the header of a numeric loop. -/
  | forRange
deriving DecidableEq, Repr, Inhabited

structure Property where
  name : String
  type : TypeId
deriving DecidableEq, Repr, Inhabited

/-- The structure of a type. -/
inductive TypeForm where
  | intrinsic (type : Intrinsic)
  /-- A symbol type of which each occurrence is a type of its own. -/
  | uniqueSymbol (description : String)
  | object (properties : List Property) (annotations : List Annotation)
  | function (parameters : List TypeId) (result : TypeId) (annotations : List Annotation)
  | intersection (members : List TypeId)
  | union (members : List TypeId)
  | alias (name : String) (target : TypeId)
deriving DecidableEq, Repr, Inhabited

/-- The list with an annotation added at its end, unless it has the annotation. -/
def Annotation.insert (added : Annotation) (annotations : List Annotation) :
    List Annotation :=
  if annotations.contains added then annotations else annotations ++ [added]

/-- The form with an annotation added, if types of this form carry annotations. -/
def TypeForm.annotate? (added : Annotation) : TypeForm → Option TypeForm
  | .object properties annotations =>
    some (.object properties (added.insert annotations))
  | .function parameters result annotations =>
    some (.function parameters result (added.insert annotations))
  | _ => none

/-- The types of a program, in the order in which they were added. -/
structure TypeTable where
  types : Array TypeForm := #[]
deriving DecidableEq, Repr, Inhabited

namespace TypeTable

def get? (table : TypeTable) (id : TypeId) : Option TypeForm :=
  table.types[id.index]?

def add (table : TypeTable) (form : TypeForm) : TypeId × TypeTable :=
  (⟨table.types.size⟩, { types := table.types.push form })

/-- The table with an annotation added to a type; nothing if that type does not carry any. -/
def annotate? (table : TypeTable) (id : TypeId) (added : Annotation) : Option TypeTable := do
  let form ← table.get? id
  let annotated ← form.annotate? added
  return { types := table.types.set! id.index annotated }

end TypeTable

end NameLowering
