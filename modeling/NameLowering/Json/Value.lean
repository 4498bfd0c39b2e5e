import NameLowering.Json.Token

/-!
# JSON values

Reading goes token by token. What is not finished yet lies on a stack, so nesting may be of any
depth. Objects keep all their members in order, repeated keys included.
-/

namespace NameLowering.Json

/-- A JSON value. -/
inductive Value where
  | null
  | bool (value : Bool)
  | number
  /-- A text, absent if it is no sequence of characters. -/
  | text (value : Option String)
  | array (items : List Value)
  | object (members : List (Option String × Value))
deriving Inhabited

/-- A member of an object: its key, which is a text, and its value. -/
abbrev Member := Option String × Value

/-! ## Values in progress -/

/-- An array or object around the place of reading, with what was read of it, last item first. -/
inductive Frame where
  | array (done : List Value)
  /-- An object of which the value under `key` is being read. -/
  | object (done : List Member) (key : Option String)

/-- What may come next. -/
inductive Stage where
  | value
  /-- The first item of an array, or its end. -/
  | firstItem
  /-- The first key of an object, or its end. -/
  | firstKey
  /-- The next key of an object. -/
  | nextKey (done : List Member)
  /-- The colon after a key. -/
  | colon (done : List Member) (key : Option String)
  /-- What follows a finished value. -/
  | finished (value : Value)

/-- The state of reading. -/
structure Reader where
  frames : List Frame := []
  stage : Stage := .value

namespace Reader

/-- Reads the first token of a value. -/
def startValue (frames : List Frame) : Token → Option Reader
  | .null => some ⟨frames, .finished .null⟩
  | .bool value => some ⟨frames, .finished (.bool value)⟩
  | .number => some ⟨frames, .finished .number⟩
  | .text value => some ⟨frames, .finished (.text value)⟩
  | .openArray => some ⟨frames, .firstItem⟩
  | .openObject => some ⟨frames, .firstKey⟩
  | _ => none

/-- Reads the token after a finished value, which goes into the innermost frame. -/
def continueAfter (value : Value) : List Frame → Token → Option Reader
  | .array done :: outer, .comma => some ⟨.array (value :: done) :: outer, .value⟩
  | .array done :: outer, .closeArray =>
    some ⟨outer, .finished (.array (value :: done).reverse)⟩
  | .object done key :: outer, .comma => some ⟨outer, .nextKey ((key, value) :: done)⟩
  | .object done key :: outer, .closeObject =>
    some ⟨outer, .finished (.object ((key, value) :: done).reverse)⟩
  | _, _ => none

/-- Reads one token. -/
def step (reader : Reader) (token : Token) : Option Reader :=
  match reader.stage, token with
  | .value, _ => startValue reader.frames token
  | .firstItem, .closeArray => some ⟨reader.frames, .finished (.array [])⟩
  | .firstItem, _ => startValue (.array [] :: reader.frames) token
  | .firstKey, .closeObject => some ⟨reader.frames, .finished (.object [])⟩
  | .firstKey, .text key => some ⟨reader.frames, .colon [] key⟩
  | .nextKey done, .text key => some ⟨reader.frames, .colon done key⟩
  | .colon done key, .colon => some ⟨.object done key :: reader.frames, .value⟩
  | .finished value, _ => continueAfter value reader.frames token
  | _, _ => none

/-- The value that was read, if all of it was. -/
def result? : Reader → Option Value
  | ⟨[], .finished value⟩ => some value
  | _ => none

end Reader

/-- The value that a list of tokens spells. -/
def Value.ofTokens? (tokens : List Token) : Option Value := do
  let reader ← tokens.foldlM Reader.step {}
  reader.result?

/-- The value that a text spells. -/
def Value.parse? (source : String) : Option Value := do
  Value.ofTokens? (← tokens? source.toList)

end NameLowering.Json
