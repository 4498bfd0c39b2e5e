/-!
# Texts in JSON

The inside of a quoted text: characters, escapes, and the closing quote. An escape may give one
half of a surrogate pair. A text whose halves do not pair up is well formed as JSON, but it is no
sequence of characters.
-/

namespace NameLowering.Json

/-- A piece of a quoted text: a character, or a 16-bit unit given by its number. -/
inductive TextUnit where
  | char (c : Char)
  | code (unit : Nat)
deriving DecidableEq, Repr, Inhabited

/-! ## Reading -/

/-- The character that stands for a backslash and a letter. -/
def escaped? : Char → Option Char
  | '"' => some '"'
  | '\\' => some '\\'
  | '/' => some '/'
  | 'b' => some '\x08'
  | 'f' => some '\x0c'
  | 'n' => some '\n'
  | 'r' => some '\r'
  | 't' => some '\t'
  | _ => none

/-- The value of a hexadecimal digit of either case. -/
def hexDigit? (c : Char) : Option Nat :=
  if c.isDigit then some (c.toNat - '0'.toNat)
  else if 'a' ≤ c ∧ c ≤ 'f' then some (c.toNat - 'a'.toNat + 10)
  else if 'A' ≤ c ∧ c ≤ 'F' then some (c.toNat - 'A'.toNat + 10)
  else none

/-- The number that hexadecimal digits spell. -/
def hexNumber? (digits : List Char) : Option Nat :=
  (digits.mapM hexDigit?).map fun values => values.foldl (fun number digit => 16 * number + digit) 0

/-- Reads up to the closing quote. Gives the pieces and what follows the quote. A control character
has to be escaped. -/
def readText? : List Char → Option (List TextUnit × List Char)
  | [] => none
  | '"' :: rest => some ([], rest)
  | '\\' :: 'u' :: a :: b :: c :: d :: rest => do
    let unit ← hexNumber? [a, b, c, d]
    let (pieces, after) ← readText? rest
    return (.code unit :: pieces, after)
  | '\\' :: letter :: rest => do
    let c ← escaped? letter
    let (pieces, after) ← readText? rest
    return (.char c :: pieces, after)
  | c :: rest =>
    if c.toNat < 32 then
      none
    else do
      let (pieces, after) ← readText? rest
      return (.char c :: pieces, after)

theorem length_lt_of_readText? {source : List Char} :
    ∀ {pieces after}, readText? source = some (pieces, after) → after.length < source.length := by
  fun_induction readText? source <;>
    simp only [Option.bind_eq_bind, Option.bind_eq_some_iff, Option.pure_def, reduceCtorEq,
      false_implies, implies_true, Option.some.injEq, Prod.mk.injEq, List.length_cons] <;> grind

/-! ## Decoding -/

def isLeadingHalf (unit : Nat) : Bool :=
  0xD800 ≤ unit && unit < 0xDC00

def isTrailingHalf (unit : Nat) : Bool :=
  0xDC00 ≤ unit && unit < 0xE000

/-- The character that a surrogate pair stands for. -/
def ofHalves (leading trailing : Nat) : Char :=
  Char.ofNat (0x10000 + (leading - 0xD800) * 0x400 + (trailing - 0xDC00))

/-- The characters of a text; nothing if half of a surrogate pair stands alone. -/
def characters? : List TextUnit → Option (List Char)
  | [] => some []
  | .char c :: rest => (characters? rest).map (c :: ·)
  | .code leading :: .code trailing :: rest =>
    if isLeadingHalf leading then
      if isTrailingHalf trailing then (characters? rest).map (ofHalves leading trailing :: ·)
      else none
    else if isTrailingHalf leading then none
    else (characters? (.code trailing :: rest)).map (Char.ofNat leading :: ·)
  | .code unit :: rest =>
    if isLeadingHalf unit || isTrailingHalf unit then none
    else (characters? rest).map (Char.ofNat unit :: ·)

/-- The text that the pieces spell. -/
def textOf? (pieces : List TextUnit) : Option String :=
  (characters? pieces).map String.ofList

end NameLowering.Json
