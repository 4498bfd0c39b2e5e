/-!
# Log formats

The two formats of the event log, and the reading of a format's name.
-/

namespace NameLowering

/-- A format of the event log: flat lines of text, or one JSON object a line. -/
inductive LogFormat where
  | text
  | json
deriving DecidableEq, Repr, Inhabited

/-- Reads the name of a format. Case is ignored on ASCII letters, which decides the matter, as no
other letter has `j`, `s`, `o` or `n` for its lower case; what is not `json` means text. -/
def LogFormat.ofName (name : String) : LogFormat :=
  if name.toList.map Char.toLower = ['j', 's', 'o', 'n'] then .json else .text

end NameLowering
