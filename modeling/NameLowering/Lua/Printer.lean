import NameLowering.Lua.Expr
import NameLowering.Lua.Quoted
import NameLowering.Names.Spelling

/-!
# Printing

The text of an expression. A field whose key every dialect accepts as a name is written with a
dot, any other with brackets. Binary expressions are always in parentheses.
-/

namespace NameLowering.Lua.Expr

/-- The key of a field that can be written after a dot. -/
def fieldName? : Expr → Option String
  | text key => if Target.universal.accepts key then some key else none
  | _ => none

/-- Whether an expression can be indexed without parentheses around it. -/
def isIndexable : Expr → Bool
  | ident _ | index .. | binary .. => true
  | text _ | numeral _ | nil => false

/-- The characters of an expression. -/
def chars : Expr → List Char
  | ident name => name.text.toList
  | index table key _ =>
    let indexed := if table.isIndexable then table.chars else '(' :: table.chars ++ [')']
    match key.fieldName? with
    | some field => indexed ++ '.' :: field.toList
    | none => indexed ++ '[' :: key.chars ++ [']']
  | text value => quoted value.toList
  | numeral spelling => spelling.toList
  | nil => nilWord.toList
  | binary left operator right =>
    '(' :: left.chars ++ ' ' :: operator.toList ++ ' ' :: right.chars ++ [')']

/-- The text of an expression. -/
def print (expression : Expr) : String :=
  String.ofList expression.chars

end NameLowering.Lua.Expr
