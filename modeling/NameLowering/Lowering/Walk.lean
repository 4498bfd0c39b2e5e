import NameLowering.Lowering.Reference
import NameLowering.Lua.Printer
import NameLowering.Options

/-!
# The walk over a file

All names of a file are lowered in source order, and the scopes around them are kept track of. Not
walked are the keys of member accesses, which are no names, and ambient declarations, which emit
nothing. The name that a declaration binds belongs to the scope around the declaration.
-/

namespace NameLowering

/-! ## What a walk yields -/

/-- What a name was lowered to. -/
inductive Lowered where
  | declaration (ident : Lua.Ident)
  | expression (value : Lua.Expr)
deriving DecidableEq, Repr, Inhabited

/-- The text of what a name was lowered to. -/
def Lowered.print : Lowered → String
  | declaration ident => ident.text
  | expression value => value.print

/-- A name with what it was lowered to. -/
structure LoweredName where
  source : NodeRef
  lowered : Lowered
deriving DecidableEq, Repr, Inhabited

/-- A file of which all names are lowered. -/
structure LoweredUnit where
  /-- The names in source order. -/
  names : Array LoweredName
  diagnostics : Array Diagnostic
  /-- The scopes in the order of closing. -/
  scopes : Array Scope
deriving DecidableEq, Repr, Inhabited

/-- What a name of the file was lowered to. -/
def LoweredUnit.get? (file : LoweredUnit) (ref : NodeRef) : Option Lowered :=
  (file.names.find? (·.source == ref)).map LoweredName.lowered

/-! ## Steps of a walk -/

/-- What a walk has come to. -/
structure Walk where
  state : UnitState := {}
  names : Array LoweredName := #[]
  closed : Array Scope := #[]
deriving DecidableEq, Repr, Inhabited

/-- The sort of scope that nodes of a kind open. -/
def NodeKind.scopeKind? : NodeKind → Option ScopeKind
  | sourceFile => some .file
  | functionDeclaration | functionExpression | arrowFunction => some .function
  | moduleDeclaration => some .namespaceBody
  | block | moduleBlock => some .block
  | forOfStatement | forInStatement | forStatement => some .loop
  | _ => none

/-- Whether the name of a declaration says that the declaration is ambient. -/
def Program.isAmbientName (program : Program) (ref : NodeRef) : Bool :=
  (program.boundSymbol? ref).any Symbol.isAmbient

namespace Walk

def enter (walk : Walk) (kind : ScopeKind) (ref : NodeRef) : Walk :=
  { walk with state.scopes := (walk.state.scopes.enter kind ref).2 }

def leave (walk : Walk) : Walk :=
  match walk.state.scopes.leave? with
  | some (scope, scopes) =>
    { walk with state.scopes := scopes, closed := walk.closed.push scope }
  | none => walk

/-- Does a part of a walk inside the scope that nodes of a kind open, if they open one. -/
def inScope (kind : NodeKind) (ref : NodeRef) (part : Walk → Except LoweringError Walk)
    (walk : Walk) : Except LoweringError Walk :=
  match kind.scopeKind? with
  | none => part walk
  | some scope => (part (walk.enter scope ref)).map leave

/-- Keeps what a name was lowered to. -/
def keep {α : Type} (walk : Walk) (ref : NodeRef) (wrap : α → Lowered) :
    Except LoweringError α × UnitState → Except LoweringError Walk
  | (.error error, _) => .error error
  | (.ok lowered, state) =>
    .ok { walk with state, names := walk.names.push { source := ref, lowered := wrap lowered } }

def lowerDeclared (setting : Setting) (ref : NodeRef) (walk : Walk) :
    Except LoweringError Walk :=
  walk.keep ref .declaration (setting.lowerDeclared ref walk.state)

def lowerExpression (setting : Setting) (ref : NodeRef) (walk : Walk) :
    Except LoweringError Walk :=
  walk.keep ref .expression (setting.lowerExpression ref walk.state)

/-! ## The walk -/

/-- Walks over a node. Nodes `levels` levels below it and further down are left out, whether they
exist or not. -/
def visit (setting : Setting) :
    (levels : Nat) → NodeRef → Walk → Except LoweringError Walk
  | 0, _, walk => .ok walk
  | levels + 1, ref, walk =>
    let visitAll (refs : List NodeRef) (walk : Walk) :=
      refs.foldlM (fun walk ref => visit setting levels ref walk) walk
    match setting.program.tree.node? ref with
    | none => .error (.missingNode ref)
    | some node =>
      match node.shape with
      | .identifier _ => walk.lowerExpression setting ref
      | .member object _ => visit setting levels object walk
      | .declaration bound parts =>
        if setting.program.isAmbientName bound then
          .ok walk
        else do
          -- A name that is an identifier stays on the level of its declaration.
          let walk ←
            if setting.program.tree.kind? bound = some .identifier then
              walk.lowerDeclared setting bound
            else if bound.isPresent then
              visit setting levels bound walk
            else
              .ok walk
          walk.inScope node.kind ref (visitAll parts)
      | shape => walk.inScope node.kind ref (visitAll shape.children)

end Walk

/-! ## Lowering a file -/

namespace Setting

/-- Lowers all names under the node of a source file. -/
def lowerFile (setting : Setting) (root : NodeRef) : Except LoweringError LoweredUnit :=
  match setting.program.tree.kind? root with
  | none => .error (.missingNode root)
  | some .sourceFile => do
    let walk ← Walk.visit setting Limits.treeDepth root {}
    return {
      names := walk.names
      diagnostics := walk.state.diagnostics
      scopes := walk.closed }
  | some kind => .error (.notASourceFile root kind)

end Setting

/-- Lowers all names of a program. -/
def Program.lower (program : Program) (options : Options) : Except LoweringError LoweredUnit :=
  Setting.lowerFile { program, target := options.target } program.root

end NameLowering
