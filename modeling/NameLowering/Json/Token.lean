import NameLowering.Json.Text

/-!
# Tokens of JSON

Strict JSON: four blank characters, no comments, numerals without leading zeros. Where one token
ends and the next begins never depends on blanks, except that blanks end a numeral.
-/

namespace NameLowering.Json

/-- A token. A text is absent if it is no sequence of characters; the value of a numeral is not
kept. -/
inductive Token where
  | null
  | bool (value : Bool)
  | number
  | text (value : Option String)
  | openArray
  | closeArray
  | openObject
  | closeObject
  | comma
  | colon
deriving DecidableEq, Repr, Inhabited

/-! ## Numerals -/

/-- What follows one or more digits. -/
def skipDigits? : List Char → Option (List Char)
  | [] => none
  | c :: rest => if c.isDigit then some (rest.dropWhile Char.isDigit) else none

/-- What follows a whole number, of which a leading zero is all. -/
def skipWhole? : List Char → Option (List Char)
  | '0' :: rest => some rest
  | source => skipDigits? source

/-- What follows a fraction, if there is one. -/
def skipFraction? : List Char → Option (List Char)
  | '.' :: rest => skipDigits? rest
  | source => some source

/-- What follows the sign of an exponent, if there is one. -/
def skipSign : List Char → List Char
  | '+' :: rest | '-' :: rest => rest
  | source => source

/-- What follows an exponent, if there is one. -/
def skipExponent? : List Char → Option (List Char)
  | 'e' :: rest | 'E' :: rest => skipDigits? (skipSign rest)
  | source => some source

/-- What follows a numeral after its sign. -/
def skipUnsigned? (source : List Char) : Option (List Char) := do
  skipExponent? (← skipFraction? (← skipWhole? source))

/-! ## Tokens -/

def isBlank (c : Char) : Bool :=
  c == ' ' || c == '\t' || c == '\n' || c == '\r'

/-- The token at the head of a source that does not start with a blank, and what follows it. -/
def nextToken? : List Char → Option (Token × List Char)
  | '[' :: rest => some (.openArray, rest)
  | ']' :: rest => some (.closeArray, rest)
  | '\x7b' :: rest => some (.openObject, rest)
  | '\x7d' :: rest => some (.closeObject, rest)
  | ',' :: rest => some (.comma, rest)
  | ':' :: rest => some (.colon, rest)
  | 'n' :: 'u' :: 'l' :: 'l' :: rest => some (.null, rest)
  | 't' :: 'r' :: 'u' :: 'e' :: rest => some (.bool true, rest)
  | 'f' :: 'a' :: 'l' :: 's' :: 'e' :: rest => some (.bool false, rest)
  | '"' :: rest => (readText? rest).map fun (pieces, after) => (.text (textOf? pieces), after)
  | '-' :: rest => (skipUnsigned? rest).map fun after => (.number, after)
  | source => (skipUnsigned? source).map fun after => (.number, after)

/-! ## Every reader makes progress -/

theorem length_lt_of_skipDigits? {source after : List Char}
    (skipped : skipDigits? source = some after) :
    after.length < source.length := by
  cases source with
  | nil => simp [skipDigits?] at skipped
  | cons c rest =>
      simp only [skipDigits?] at skipped
      split at skipped
      · cases skipped
        exact Nat.lt_succ_of_le (List.dropWhile_suffix _).length_le
      · cases skipped

theorem length_lt_of_skipWhole? {source after : List Char}
    (skipped : skipWhole? source = some after) :
    after.length < source.length := by
  unfold skipWhole? at skipped
  split at skipped
  · cases skipped
    simp
  · exact length_lt_of_skipDigits? skipped

theorem length_le_of_skipFraction? {source after : List Char}
    (skipped : skipFraction? source = some after) :
    after.length ≤ source.length := by
  unfold skipFraction? at skipped
  split at skipped
  · have := length_lt_of_skipDigits? skipped
    simp only [List.length_cons]
    omega
  · cases skipped
    exact Nat.le_refl _

theorem length_skipSign_le (source : List Char) :
    (skipSign source).length ≤ source.length := by
  unfold skipSign
  split <;> simp

theorem length_le_of_skipExponent? {source after : List Char}
    (skipped : skipExponent? source = some after) :
    after.length ≤ source.length := by
  unfold skipExponent? at skipped
  split at skipped
  case h_3 =>
    cases skipped
    exact Nat.le_refl _
  all_goals
    rename_i rest
    have digits := length_lt_of_skipDigits? skipped
    have sign := length_skipSign_le rest
    simp only [List.length_cons]
    omega

theorem length_lt_of_skipUnsigned? {source after : List Char}
    (skipped : skipUnsigned? source = some after) :
    after.length < source.length := by
  simp only [skipUnsigned?, Option.bind_eq_bind, Option.bind_eq_some_iff] at skipped
  obtain ⟨afterWhole, whole, afterFraction, fraction, exponent⟩ := skipped
  have wholeShrinks := length_lt_of_skipWhole? whole
  have fractionFits := length_le_of_skipFraction? fraction
  have exponentFits := length_le_of_skipExponent? exponent
  omega

theorem length_lt_of_nextToken? {source after : List Char} {token : Token}
    (next : nextToken? source = some (token, after)) :
    after.length < source.length := by
  unfold nextToken? at next
  split at next
  case h_10 =>
    obtain ⟨⟨pieces, rest⟩, text, same⟩ := Option.map_eq_some_iff.1 next
    cases same
    exact Nat.lt_succ_of_lt (length_lt_of_readText? text)
  case h_11 =>
    obtain ⟨rest, numeral, same⟩ := Option.map_eq_some_iff.1 next
    cases same
    exact Nat.lt_succ_of_lt (length_lt_of_skipUnsigned? numeral)
  case h_12 =>
    obtain ⟨rest, numeral, same⟩ := Option.map_eq_some_iff.1 next
    cases same
    exact length_lt_of_skipUnsigned? numeral
  all_goals
    cases next
    simp only [List.length_cons]
    omega

/-! ## Whole sources -/

/-- The tokens of a source; nothing if a part of it is no token. -/
def tokens? : List Char → Option (List Token)
  | [] => some []
  | c :: rest =>
    if isBlank c then
      tokens? rest
    else
      match _next : nextToken? (c :: rest) with
      | none => none
      | some (token, after) => (tokens? after).map (token :: ·)
termination_by source => source.length
decreasing_by
  · exact Nat.lt_succ_self _
  · exact length_lt_of_nextToken? _next

end NameLowering.Json
