/-!
# Language extensions

The declarations that stand for constructs of Lua without a counterpart in the source language.
Each is known by a brand: a property that the declaration's type has and ordinary types lack.
-/

namespace NameLowering

/-! ## Operators -/

/-- An operator of Lua that a function or method can stand for. -/
inductive Operator where
  | addition
  | subtraction
  | multiplication
  | division
  | modulo
  | power
  | floorDivision
  | bitwiseAnd
  | bitwiseOr
  | bitwiseExclusiveOr
  | bitwiseLeftShift
  | bitwiseRightShift
  | concat
  | lessThan
  | greaterThan
  | negation
  | bitwiseNot
  | length
deriving DecidableEq, Repr, Inhabited

namespace Operator

/-- Every operator, in the order of classification. -/
def all : List Operator :=
  [addition, subtraction, multiplication, division, modulo, power, floorDivision, bitwiseAnd,
    bitwiseOr, bitwiseExclusiveOr, bitwiseLeftShift, bitwiseRightShift, concat, lessThan,
    greaterThan, negation, bitwiseNot, length]

/-- The name of an operator, as brands spell it. -/
def name : Operator → String
  | addition => "Addition"
  | subtraction => "Subtraction"
  | multiplication => "Multiplication"
  | division => "Division"
  | modulo => "Modulo"
  | power => "Power"
  | floorDivision => "FloorDivision"
  | bitwiseAnd => "BitwiseAnd"
  | bitwiseOr => "BitwiseOr"
  | bitwiseExclusiveOr => "BitwiseExclusiveOr"
  | bitwiseLeftShift => "BitwiseLeftShift"
  | bitwiseRightShift => "BitwiseRightShift"
  | concat => "Concat"
  | lessThan => "LessThan"
  | greaterThan => "GreaterThan"
  | negation => "Negation"
  | bitwiseNot => "BitwiseNot"
  | length => "Length"

/-- The token of Lua that an operator is written with. -/
def token : Operator → String
  | addition => "+"
  | subtraction | negation => "-"
  | multiplication => "*"
  | division => "/"
  | modulo => "%"
  | power => "^"
  | floorDivision => "//"
  | bitwiseAnd => "&"
  | bitwiseOr => "|"
  | bitwiseExclusiveOr | bitwiseNot => "~"
  | bitwiseLeftShift => "<<"
  | bitwiseRightShift => ">>"
  | concat => ".."
  | lessThan => "<"
  | greaterThan => ">"
  | length => "#"

/-- The number of operands. -/
def arity : Operator → Nat
  | negation | bitwiseNot | length => 1
  | _ => 2

def isUnary (operator : Operator) : Bool :=
  operator.arity == 1

end Operator

/-! ## Extensions -/

/-- The way an extension is called: as a function, or as a method of its first operand. -/
inductive CallForm where
  | function
  | method
deriving DecidableEq, Repr, Inhabited

/-- A language extension. -/
inductive Extension where
  /-- The function that returns several values at once. -/
  | multiFunction
  /-- The type of several values at once. -/
  | multiType
  /-- The function that counts in the header of a loop. -/
  | rangeFunction
  /-- The type of what loops can iterate over natively. -/
  | iterableType
  | operator (operator : Operator) (form : CallForm)
  | tableGet (form : CallForm)
  | tableSet (form : CallForm)
  | tableNew
deriving DecidableEq, Repr, Inhabited

namespace Extension

/-- Every extension, in the order of classification. -/
def all : List Extension :=
  [multiFunction, multiType, rangeFunction, iterableType] ++
    Operator.all.flatMap (fun op => [operator op .function, operator op .method]) ++
    [tableGet .function, tableGet .method, tableSet .function, tableSet .method, tableNew]

/-- The property that marks the types of what can be called in a form. -/
def callableBrand (name : String) : CallForm → String
  | .function => "__lua" ++ name ++ "Brand"
  | .method => "__lua" ++ name ++ "MethodBrand"

/-- The property that marks the types of an extension. -/
def brand : Extension → String
  | multiFunction => "__luaMultiFunctionBrand"
  | multiType => "__luaMultiReturnBrand"
  | rangeFunction => "__luaRangeFunctionBrand"
  | iterableType => "__luaIterableBrand"
  | operator op form => callableBrand op.name form
  | tableGet form => callableBrand "TableGet" form
  | tableSet form => callableBrand "TableSet" form
  | tableNew => "__luaTableNewBrand"

def isOperator : Extension → Bool
  | operator .. => true
  | _ => false

/-- Whether an extension reads, writes or makes a table. -/
def isTableAccess : Extension → Bool
  | tableGet _ | tableSet _ | tableNew => true
  | _ => false

end Extension

end NameLowering
