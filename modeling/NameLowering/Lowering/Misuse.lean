import NameLowering.Diagnostic.Catalog
import NameLowering.Extension.Recognize

/-!
# Misuse of extensions

Extensions that stand for an operation have to be called where they are named, and functions that
head a numeric loop have to be called in the header of one.
-/

namespace NameLowering

/-! ## Bare uses -/

namespace Extension

/-- The problem with using an extension otherwise than by calling it. -/
def bareUseProblem? : Extension → Option Problem
  | multiFunction => some .multiFunctionUse
  | rangeFunction => some .rangeFunctionUse
  | operator .. => some .operatorUse
  | tableGet _ | tableSet _ | tableNew => some .tableAccessUse
  | multiType | iterableType => none

/-- Whether nothing at all can stand for an extension that is not called. -/
def isCalledOnly : Extension → Bool
  | multiFunction | rangeFunction => true
  | _ => false

end Extension

/-! ## Uses in a program -/

/-- What is to be said of the use of a name. -/
structure UseVerdict where
  /-- What is wrong with the use. -/
  problems : List Problem
  /-- Whether the use can be lowered nevertheless. -/
  lowerable : Bool
deriving DecidableEq, Repr, Inhabited

namespace Program

/-- The extension that a name stands for without being called. -/
def bareExtension? (program : Program) (ref : NodeRef) : Option Extension :=
  if program.tree.isBareUse ref then program.extensionAt? ref else none

/-- The problem with a function that heads a numeric loop and is named elsewhere. -/
def forRangeProblems (program : Program) (ref : NodeRef) : List Problem :=
  if program.isForRangeAt ref && !program.tree.isInIteratedCall ref then
    [.forRangeCall "can be used only as an iterable in a for...of loop"]
  else
    []

/-- The verdict on the use of a name. One that cannot be lowered has the one problem. -/
def useVerdict (program : Program) (ref : NodeRef) : UseVerdict :=
  let bare := program.bareExtension? ref
  let bareProblems := (bare.bind Extension.bareUseProblem?).toList
  if bare.any Extension.isCalledOnly then
    { problems := bareProblems, lowerable := false }
  else
    { problems := bareProblems ++ program.forRangeProblems ref, lowerable := true }

end Program

end NameLowering
