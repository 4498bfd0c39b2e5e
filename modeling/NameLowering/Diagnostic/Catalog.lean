import NameLowering.Diagnostic.Basic
import NameLowering.Diagnostic.Template

/-!
# The catalogue of problems

The rules that a program can break, each with its code and the template of its message, and the
problems that are reported: a broken rule with what its message mentions.
-/

namespace NameLowering

/-! ## Rules -/

/-- A rule that names and extensions have to keep. -/
inductive Rule where
  /-- An ambient name is emitted as written, so the target has to accept it. -/
  | ambientName
  | multiFunctionUse
  | rangeFunctionUse
  | forRangeCall
  | operatorUse
  | tableAccessUse
deriving DecidableEq, Repr, Inhabited

namespace Rule

/-- Every rule, in the order of the codes. -/
def all : List Rule :=
  [ambientName, multiFunctionUse, rangeFunctionUse, forRangeCall, operatorUse, tableAccessUse]

def code : Rule → Nat
  | ambientName => 100001
  | multiFunctionUse => 100002
  | rangeFunctionUse => 100003
  | forRangeCall => 100004
  | operatorUse => 100005
  | tableAccessUse => 100006

def template : Rule → String
  | ambientName =>
    "Invalid ambient identifier name '\x7b0\x7d'. " ++
      "Ambient identifiers must be valid lua identifiers."
  | multiFunctionUse => "The $multi function must be called in a return statement."
  | rangeFunctionUse => "$range can only be used in a for...of loop."
  | forRangeCall => "Invalid @forRange call: \x7b0\x7d."
  | operatorUse => "This function must always be directly called and cannot be referred to."
  | tableAccessUse => "This function must be called directly and cannot be referred to."

/-- Breaking a rule is an error, whichever rule it is. -/
def category (_ : Rule) : Category :=
  .error

/-- The rule with a code. -/
def ofCode? (code : Nat) : Option Rule :=
  all.find? (·.code == code)

/-- The diagnostic that reports a broken rule at a stretch of text. -/
def report
    (rule : Rule) (arguments : List String) (file : String) (start length : UInt32) :
    Diagnostic where
  file := file
  start := start
  length := length
  message := Template.fill rule.template arguments
  category := rule.category
  code := rule.code

end Rule

/-! ## Problems -/

/-- A broken rule, with what the message about it mentions. -/
inductive Problem where
  | ambientName (name : String)
  | multiFunctionUse
  | rangeFunctionUse
  | forRangeCall (reason : String)
  | operatorUse
  | tableAccessUse
deriving DecidableEq, Repr, Inhabited

namespace Problem

def rule : Problem → Rule
  | ambientName _ => .ambientName
  | multiFunctionUse => .multiFunctionUse
  | rangeFunctionUse => .rangeFunctionUse
  | forRangeCall _ => .forRangeCall
  | operatorUse => .operatorUse
  | tableAccessUse => .tableAccessUse

/-- What fills the places of the message. -/
def arguments : Problem → List String
  | ambientName name => [name]
  | forRangeCall reason => [reason]
  | _ => []

end Problem

end NameLowering
