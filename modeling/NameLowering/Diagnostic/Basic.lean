/-!
# Diagnostics

What is reported to the author of a program: a message and the stretch of text that it is about.
-/

namespace NameLowering

/-- The weight of a diagnostic. -/
inductive Category where
  | warning
  | error
  | suggestion
  | message
deriving DecidableEq, Repr, Inhabited

/-- A message about a stretch of a file's text. -/
structure Diagnostic where
  file : String
  start : UInt32
  length : UInt32
  message : String
  category : Category := .error
  /-- The number under which the message is catalogued. -/
  code : Nat
deriving DecidableEq, Repr, Inhabited

/-- The position just past the stretch of text. -/
def Diagnostic.stop (diagnostic : Diagnostic) : UInt32 :=
  diagnostic.start + diagnostic.length

end NameLowering
