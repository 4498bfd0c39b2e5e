import NameLowering.Json.Value
import NameLowering.Target

/-!
# Options

The settings of a compilation, read from JSON: from a text that holds them alone, or from their
section of a project's configuration.
-/

namespace NameLowering

/-- The settings that lowering depends on. -/
structure Options where
  /-- The dialect to generate code for. -/
  target : Target := .universal
deriving DecidableEq, Repr, Inhabited

/-! ## Failures -/

/-- Why a file could not be read. -/
inductive FileFault where
  | missing
  | notUnicode
deriving DecidableEq, Repr, Inhabited

/-- Why no options were read. -/
inductive OptionsError where
  | unreadable (path : String) (fault : FileFault)
  /-- The text is no JSON, or not of the form that options have. -/
  | malformed
deriving DecidableEq, Repr, Inhabited

def FileFault.message : FileFault → String
  | missing => "No such file or directory (os error 2)"
  | notUnicode => "stream did not contain valid UTF-8"

def OptionsError.message : OptionsError → String
  | unreadable path fault => "failed to read " ++ path ++ ": " ++ fault.message
  | malformed => "invalid compiler options"

/-! ## Settings in JSON -/

/-- The value under a key of an object: `none` if the object is malformed, `some none` if it lacks
the key. Every key has to be a sequence of characters, and the one in question stands once. -/
def Json.memberAt? (key : String) (members : List Json.Member) : Option (Option Json.Value) :=
  if members.all (·.1.isSome) then
    match members.filter (·.1 == some key) with
    | [] => some none
    | [(_, value)] => some (some value)
    | _ => none
  else
    none

/-- The only setting of a section, with the outcomes of `memberAt?`. A section is an object, or an
array that holds the setting or nothing. -/
def Json.Value.setting? (key : String) : Json.Value → Option (Option Json.Value)
  | .object members => Json.memberAt? key members
  | .array [] => some none
  | .array [value] => some (some value)
  | _ => none

/-- The target that a value names: by its spelling, or as the only key of an object. -/
def Target.ofValue? : Json.Value → Option Target
  | .text (some spelling) => ofSpelling? spelling
  | .object [(some spelling, .null)] => ofSpelling? spelling
  | _ => none

namespace Options

/-- The options that a value holds. -/
def ofValue? (value : Json.Value) : Option Options := do
  match ← value.setting? "luaTarget" with
  | none => return {}
  | some setting => return { target := ← Target.ofValue? setting }

/-- The options in their section of a configuration; the default ones if the section is missing or
null. -/
def ofConfigValue? (value : Json.Value) : Option Options := do
  match ← value.setting? "tstl" with
  | none | some .null => return {}
  | some settings => ofValue? settings

/-! ## Reading -/

/-- Reads a text that holds options alone. -/
def parse (text : String) : Except OptionsError Options :=
  match (Json.Value.parse? text).bind ofValue? with
  | some options => .ok options
  | none => .error .malformed

/-- Reads the configuration of a project. -/
def parseConfig (text : String) : Except OptionsError Options :=
  match (Json.Value.parse? text).bind ofConfigValue? with
  | some options => .ok options
  | none => .error .malformed

/-- Reads the configuration of a project from the bytes of a file, which may be missing. -/
def parseConfigFile (path : String) (contents : Option ByteArray) :
    Except OptionsError Options :=
  match contents with
  | none => .error (.unreadable path .missing)
  | some bytes =>
    match String.fromUTF8? bytes with
    | none => .error (.unreadable path .notUnicode)
    | some text => parseConfig text

end Options

end NameLowering
