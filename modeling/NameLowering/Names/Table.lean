import NameLowering.Names.Spelling

/-!
# The name table of a compilation unit

Different names may escape alike, so the output names of a unit are kept in a table. A name that
is emitted as written is reserved; a name that has to be escaped is given the first of its
numbered candidates that nothing else uses, and keeps it.
-/

namespace NameLowering

/-- The output names of a compilation unit. -/
structure NameTable where
  /-- Names that were escaped, each with the output name it was given. -/
  assigned : List (String × String) := []
  /-- Every output name handed out so far, escaped or not. -/
  used : List String := []
deriving DecidableEq, Repr, Inhabited

namespace NameTable

/-! ## Candidates -/

/-- The candidates for an escaped name: the base itself, then the base with `_1`, `_2`, … -/
def candidate (base : String) : Nat → String
  | 0 => base
  | number + 1 => base ++ "_" ++ toString (number + 1)

/-- The first candidate that is not used. The candidates are pairwise different, so one of the
first `used.length + 1` is free. -/
def firstFree (used : List String) (base : String) : String :=
  let isFree number := !used.contains (candidate base number)
  candidate base (((List.range (used.length + 1)).find? isFree).getD 0)

/-! ## Operations -/

/-- The output name that an escaped name was given earlier. -/
def assigned? (table : NameTable) (name : String) : Option String :=
  table.assigned.lookup name

/-- Records a name that is emitted as written. -/
def reserve (table : NameTable) (name : String) : NameTable :=
  if table.used.contains name then table else { table with used := name :: table.used }

/-- The output name of a name that has to be escaped, assigned now unless it was before. -/
def assign (target : Target) (name : String) (table : NameTable) : String × NameTable :=
  match table.assigned? name with
  | some output => (output, table)
  | none =>
    let output := firstFree table.used (target.escaped name)
    (output,
      { assigned := (name, output) :: table.assigned
        used := output :: table.used })

/-- The output name of a name, given whether it has to be escaped. -/
def outputName
    (target : Target) (escape : Bool) (name : String) (table : NameTable) :
    String × NameTable :=
  if escape then table.assign target name else (name, table.reserve name)

/-- The output name of a name that stands for itself: a safe name as written, any other escaped. -/
def mangle (target : Target) (name : String) (table : NameTable) : String × NameTable :=
  table.outputName target (target.mustEscape name) name

end NameTable

end NameLowering
