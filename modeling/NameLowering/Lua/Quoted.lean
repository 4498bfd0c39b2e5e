/-!
# Quoted texts

A text between double quotes. The quote, the backslash, the three control characters with a letter
of their own and the null character are escaped; every other character stands for itself.
-/

namespace NameLowering.Lua

/-- A character as it stands between quotes. -/
def quotedChar : Char → List Char
  | '"' => ['\\', '"']
  | '\\' => ['\\', '\\']
  | '\n' => ['\\', 'n']
  | '\r' => ['\\', 'r']
  | '\t' => ['\\', 't']
  | '\x00' => ['\\', '0']
  | c => [c]

/-- A text in quotes. -/
def quoted (text : List Char) : List Char :=
  '"' :: text.flatMap quotedChar ++ ['"']

end NameLowering.Lua
