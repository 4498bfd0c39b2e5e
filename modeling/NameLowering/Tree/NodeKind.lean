/-!
# Kinds of nodes

The syntactic kinds that lowering tells apart. All others count as `unknown` and are plain
containers.
-/

namespace NameLowering

/-- The syntactic kind of a node. -/
inductive NodeKind where
  | unknown
  | identifier
  | undefinedKeyword
  | numericLiteral
  | stringLiteral
  | sourceFile
  | block
  | moduleBlock
  | variableStatement
  | variableDeclaration
  | parameter
  | functionDeclaration
  | moduleDeclaration
  | enumDeclaration
  | enumMember
  | expressionStatement
  | returnStatement
  | forOfStatement
  | forInStatement
  | forStatement
  | callExpression
  | newExpression
  | propertyAccessExpression
  | elementAccessExpression
  | parenthesizedExpression
  | binaryExpression
  | arrowFunction
  | functionExpression
deriving DecidableEq, Repr, Inhabited

namespace NodeKind

/-- The name of a kind, as error messages write it. -/
def name : NodeKind → String
  | unknown => "Unknown"
  | identifier => "Identifier"
  | undefinedKeyword => "UndefinedKeyword"
  | numericLiteral => "NumericLiteral"
  | stringLiteral => "StringLiteral"
  | sourceFile => "SourceFile"
  | block => "Block"
  | moduleBlock => "ModuleBlock"
  | variableStatement => "VariableStatement"
  | variableDeclaration => "VariableDeclaration"
  | parameter => "Parameter"
  | functionDeclaration => "FunctionDeclaration"
  | moduleDeclaration => "ModuleDeclaration"
  | enumDeclaration => "EnumDeclaration"
  | enumMember => "EnumMember"
  | expressionStatement => "ExpressionStatement"
  | returnStatement => "ReturnStatement"
  | forOfStatement => "ForOfStatement"
  | forInStatement => "ForInStatement"
  | forStatement => "ForStatement"
  | callExpression => "CallExpression"
  | newExpression => "NewExpression"
  | propertyAccessExpression => "PropertyAccessExpression"
  | elementAccessExpression => "ElementAccessExpression"
  | parenthesizedExpression => "ParenthesizedExpression"
  | binaryExpression => "BinaryExpression"
  | arrowFunction => "ArrowFunction"
  | functionExpression => "FunctionExpression"

/-- Every kind. -/
def all : List NodeKind :=
  [unknown, identifier, undefinedKeyword, numericLiteral, stringLiteral, sourceFile, block,
    moduleBlock, variableStatement, variableDeclaration, parameter, functionDeclaration,
    moduleDeclaration, enumDeclaration, enumMember, expressionStatement, returnStatement,
    forOfStatement, forInStatement, forStatement, callExpression, newExpression,
    propertyAccessExpression, elementAccessExpression, parenthesizedExpression,
    binaryExpression, arrowFunction, functionExpression]

/-- The kind with a given name. -/
def ofName? (text : String) : Option NodeKind :=
  all.find? (·.name == text)

/-- Whether nodes of this kind bind the name they hold. -/
def isDeclaration : NodeKind → Bool
  | variableDeclaration | parameter | functionDeclaration | moduleDeclaration
  | enumDeclaration | enumMember => true
  | _ => false

/-- Whether nodes of this kind open the scope of a function. -/
def isFunctionLike : NodeKind → Bool
  | functionDeclaration | functionExpression | arrowFunction => true
  | _ => false

/-- Whether nodes of this kind call what they hold, as a function or a constructor. -/
def isCallLike : NodeKind → Bool
  | callExpression | newExpression => true
  | _ => false

end NodeKind

end NameLowering
