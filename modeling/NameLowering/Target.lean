/-!
# Targets

The dialects of Lua that code is generated for, and their spellings in a configuration file.
-/

namespace NameLowering

/-- A dialect of Lua. Code for `universal` runs on all of them. -/
inductive Target where
  | universal
  | lua50
  | lua51
  | lua52
  | lua53
  | lua54
  | luaJit
  | luau
deriving DecidableEq, Repr, Inhabited

namespace Target

/-- The spelling of a target in a configuration file. -/
def spelling : Target → String
  | universal => "universal"
  | lua50 => "5.0"
  | lua51 => "5.1"
  | lua52 => "5.2"
  | lua53 => "5.3"
  | lua54 => "5.4"
  | luaJit => "JIT"
  | luau => "Luau"

/-- Reads a spelling. Case matters, but the three names that are words have a second form. -/
def ofSpelling? : String → Option Target
  | "universal" | "Universal" => some universal
  | "5.0" => some lua50
  | "5.1" => some lua51
  | "5.2" => some lua52
  | "5.3" => some lua53
  | "5.4" => some lua54
  | "JIT" | "jit" => some luaJit
  | "Luau" | "luau" => some luau
  | _ => none

@[simp]
theorem ofSpelling?_spelling (target : Target) :
    ofSpelling? target.spelling = some target := by
  cases target <;> rfl

/-- Whether names may hold characters outside ASCII. Only the JIT dialect lets them. -/
def allowsUnicodeNames (target : Target) : Bool :=
  target == luaJit

end Target

end NameLowering
