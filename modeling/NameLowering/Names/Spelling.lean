import NameLowering.Lua.Words
import NameLowering.Target

/-!
# Spelling of names

Which names a target accepts as identifiers, which names have to be escaped before they can be
emitted, and the escape itself. A name is *safe* when it can be emitted as it is written: it is
an identifier of the target, no global of the standard library, and does not start with the mark
that escaped names start with. The last condition keeps safe and escaped names apart.
-/

namespace NameLowering.Target

/-! ## Identifiers -/

def isNameStart (target : Target) (c : Char) : Bool :=
  c.isAlpha || c == '_' || (128 ≤ c.toNat && target.allowsUnicodeNames)

def isNamePart (target : Target) (c : Char) : Bool :=
  target.isNameStart c || c.isDigit

/-- Whether a name is an identifier of the target: spelt as one, and no reserved word. -/
def accepts (target : Target) (name : String) : Bool :=
  match name.toList with
  | [] => false
  | first :: rest =>
    target.isNameStart first && rest.all target.isNamePart && !Lua.isReservedWord name

/-! ## Safe names -/

/-- Whether a name starts with the mark of escaped names. -/
def hasSafeMark (name : String) : Bool :=
  Lua.safeMark.toList.isPrefixOf name.toList

/-- Whether a name has to be escaped before it can be emitted. -/
def mustEscape (target : Target) (name : String) : Bool :=
  !target.accepts name || Lua.isStandardGlobal name || hasSafeMark name

/-! ## Escaping -/

/-- An underscore and the code point in hexadecimal, with capital letters and no leading zero. -/
def codePointEscape (c : Char) : List Char :=
  '_' :: (Nat.toDigits 16 c.toNat).map Char.toUpper

/-- A character of a name as it stands in the escaped name: itself if an identifier may hold it
after its first character, otherwise its code point. -/
def escapeChar (target : Target) (c : Char) : List Char :=
  if target.isNamePart c then [c] else codePointEscape c

/-- The name with every character that no identifier can hold replaced by its code point. -/
def escapeChars (target : Target) (name : String) : String :=
  String.ofList (name.toList.flatMap target.escapeChar)

/-- The escaped form of a name, before names that escape alike are told apart. -/
def escaped (target : Target) (name : String) : String :=
  Lua.safeMark ++ target.escapeChars name

end NameLowering.Target
