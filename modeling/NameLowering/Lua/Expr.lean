import NameLowering.Lua.Words
import NameLowering.References.Numbering

/-!
# Lua expressions

The forms of expression that a name can be lowered to. Each keeps a link to the node that it was
lowered from, where there is one.
-/

namespace NameLowering.Lua

/-- A variable of the output. -/
structure Ident where
  /-- The name in the output. -/
  text : String
  /-- The name in the source, if the source has one for it. -/
  sourceName : Option String := none
  symbol : Option SymbolNumber := none
  source : Option NodeRef := none
  /-- Placeholders alone can never be exported. -/
  exportable : Bool := true
deriving DecidableEq, Repr, Inhabited

namespace Ident

/-- What stands for a reference that cannot be lowered. -/
def placeholder (source : Option NodeRef) : Ident where
  text := placeholderName
  source := source
  exportable := false

def isPlaceholder (ident : Ident) : Bool :=
  !ident.exportable && ident.text == placeholderName

end Ident

/-- An expression of the output. -/
inductive Expr where
  | ident (ident : Ident)
  /-- The field of a table under a key. -/
  | index (table key : Expr) (source : Option NodeRef)
  | text (value : String)
  /-- A number in the spelling of the source. -/
  | numeral (spelling : String)
  | nil
  | binary (left : Expr) (operator : String) (right : Expr)
deriving DecidableEq, Repr, Inhabited

namespace Expr

def ident? : Expr → Option Ident
  | ident name => some name
  | _ => none

def isNil : Expr → Bool
  | nil => true
  | _ => false

end Expr

end NameLowering.Lua
