/-!
# Message templates

A template is a text with numbered places in braces. The places are filled one number after the
other, over the text as filled so far, so an argument that spells a later place is filled too.
-/

namespace NameLowering.Template

/-- Replaces every occurrence of `pattern` from left to right. The first `skip` characters are
passed over: they belong to the occurrence replaced last. -/
def replaceFrom (pattern replacement : List Char) : (skip : Nat) → List Char → List Char
  | _, [] => []
  | skip + 1, _ :: rest => replaceFrom pattern replacement skip rest
  | 0, c :: rest =>
    if pattern.isPrefixOf (c :: rest) then
      replacement ++ replaceFrom pattern replacement (pattern.length - 1) rest
    else
      c :: replaceFrom pattern replacement 0 rest

/-- The place with a number: the number in braces. -/
def place (number : Nat) : List Char :=
  '\x7b' :: (toString number).toList ++ ['\x7d']

/-- Fills every place with a given number. -/
def fillPlace (text : List Char) (argument : String × Nat) : List Char :=
  replaceFrom (place argument.2) argument.1.toList 0 text

/-- Fills the places of a template with arguments, numbered from zero. -/
def fill (template : String) (arguments : List String) : String :=
  String.ofList (arguments.zipIdx.foldl fillPlace template.toList)

end NameLowering.Template
