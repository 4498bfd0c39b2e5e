/-!
# Fixed words of the output

The words of Lua that a variable cannot have for a name, and the names that generated code keeps
for itself.
-/

namespace NameLowering.Lua

/-- The literal for the absent value. -/
def nilWord : String := "nil"

/-- The table that holds what a module file exports. -/
def exportsTable : String := "____exports"

/-- What every escaped name starts with. -/
def safeMark : String := "____"

/-- The name of a placeholder, to which nothing can refer. -/
def placeholderName : String := "____"

/-- Reserved words, and the two bit libraries that several dialects define as globals. -/
def reservedWords : List String :=
  ["and", "bit", "bit32", "break", "do", "else", "elseif", "end", "false", "for", "function",
    "goto", "if", "in", "local", "nil", "not", "or", "repeat", "return", "then", "true", "until",
    "while"]

/-- Globals of the standard library, which a variable must not shadow. -/
def standardGlobals : List String :=
  ["_G", "assert", "coroutine", "debug", "error", "ipairs", "math", "pairs", "pcall", "print",
    "rawget", "rawequal", "rawlen", "rawset", "require", "select", "string", "table", "type",
    "unpack", "xpcall"]

def isReservedWord (name : String) : Bool :=
  reservedWords.contains name

def isStandardGlobal (name : String) : Bool :=
  standardGlobals.contains name

end NameLowering.Lua
