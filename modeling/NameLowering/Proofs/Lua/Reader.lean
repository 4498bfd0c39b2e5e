import Mathlib.Computability.StateTransition
import NameLowering.Lua.Printer

/-!
# Reading printed expressions

A reader of printed expressions. It goes through a text from left to right and keeps the forms that
it is inside of in a list, innermost first. It is either before an expression or right after one,
and the next characters tell what it does. Escapes are read as they are printed, so that each of
them takes one character after the backslash.
-/

namespace NameLowering.Lua

open NameLowering.Lua.Expr

/-! ## Words -/

/-- What can stand right after an expression that is not indexed. -/
def closers : List Char := [' ', ')', ']']

/-- What can stand right after a name. -/
def wordEnds : List Char := '.' :: '[' :: closers

theorem closers_subset_wordEnds : closers ⊆ wordEnds :=
  List.subset_append_right ['.', '['] closers

/-- The text up to the first of some characters, and the text from there on. -/
def upTo (ends text : List Char) : List Char × List Char :=
  text.span fun c => !ends.contains c

/-- A text is empty or starts with one of some characters. -/
def StartsIn (ends text : List Char) : Prop :=
  ∀ c ∈ text.head?, c ∈ ends

theorem startsIn_cons {ends : List Char} {c : Char} (member : c ∈ ends) (rest : List Char) :
    StartsIn ends (c :: rest) := by
  intro first isFirst
  rw [List.head?_cons, Option.mem_some] at isFirst
  rwa [← isFirst]

theorem StartsIn.mono {ends more text : List Char} (started : StartsIn ends text)
    (subset : ends ⊆ more) :
    StartsIn more text :=
  fun c isFirst => subset (started c isFirst)

theorem upTo_append {ends word rest : List Char} (free : ∀ c ∈ word, c ∉ ends)
    (ended : StartsIn ends rest) :
    upTo ends (word ++ rest) = (word, rest) := by
  have inside : ∀ c ∈ word, (!ends.contains c) = true := by
    intro c member
    simp [free c member]
  rw [upTo, List.span_eq_takeWhile_dropWhile, List.takeWhile_append_of_pos inside,
    List.dropWhile_append_of_pos inside]
  cases rest with
  | nil =>
      rw [List.takeWhile_nil, List.dropWhile_nil, List.append_nil]
  | cons first others =>
      have isEnd : first ∈ ends := ended first rfl
      simp [isEnd]

/-! ## Texts in quotes -/

/-- The character that is printed as a backslash and a letter. -/
def unescape? : Char → Option Char
  | '"' => some '"'
  | '\\' => some '\\'
  | 'n' => some '\n'
  | 'r' => some '\r'
  | 't' => some '\t'
  | '0' => some '\x00'
  | _ => none

/-- Reads up to the closing quote. Gives the text and what follows the quote. -/
def readText? : List Char → Option (List Char × List Char)
  | [] => none
  | '"' :: rest => some ([], rest)
  | '\\' :: letter :: rest =>
    match unescape? letter with
    | some c => (readText? rest).map (Prod.map (c :: ·) id)
    | none => none
  | c :: rest => (readText? rest).map (Prod.map (c :: ·) id)

theorem readText?_quotedChar (c : Char) (rest : List Char) :
    readText? (quotedChar c ++ rest) = (readText? rest).map (Prod.map (c :: ·) id) := by
  unfold quotedChar
  split
  case h_7 noQuote noBackslash _ _ _ _ =>
    rw [List.singleton_append, readText?]
    · exact noQuote
    · exact fun letter others isBackslash _ => noBackslash isBackslash
  all_goals rfl

theorem readText?_quoted (text rest : List Char) :
    readText? (text.flatMap quotedChar ++ '"' :: rest) = some (text, rest) := by
  induction text with
  | nil =>
      rfl
  | cons first others inductionHypothesis =>
      rw [List.flatMap_cons, List.append_assoc, readText?_quotedChar, inductionHypothesis]
      rfl

/-! ## Steps -/

/-- What no name and no number starts with. -/
def openers : List Char := ['"', '(']

/-- Reads a number, a name or the absent value, and gives what follows it. -/
def readWord (text : List Char) : Expr × List Char :=
  if text.head?.any Char.isDigit then
    let (spelling, rest) := upTo closers text
    (numeral (String.ofList spelling), rest)
  else
    let (name, rest) := upTo wordEnds text
    (if name = nilWord.toList then nil else ident { text := String.ofList name }, rest)

/-- Reads an expression that has no parts, and gives what follows it. -/
def readAtom? : List Char → Option (Expr × List Char)
  | [] | '(' :: _ => none
  | '"' :: rest => (readText? rest).map (Prod.map (fun value => text (String.ofList value)) id)
  | first :: rest => some (readWord (first :: rest))

theorem readAtom?_of_bare {first : Char} (bare : first ∉ openers) (rest : List Char) :
    readAtom? (first :: rest) = some (readWord (first :: rest)) := by
  obtain ⟨noQuote, noParenthesis⟩ : first ≠ '"' ∧ first ≠ '(' := by
    simpa [openers] using bare
  rw [readAtom?]
  · exact noParenthesis
  · exact noQuote

/-- A form that a reader is inside of. -/
inductive Frame where
  | parenthesis
  /-- The right side of a binary expression. -/
  | operand (left : Expr) (operator : String)
  /-- The key of a field, in brackets. -/
  | key (table : Expr)

/-- Where a reader is: before an expression, or after one that it has read. -/
inductive Reader where
  | before (frames : List Frame) (rest : List Char)
  | after (frames : List Frame) (read : Expr) (rest : List Char)

namespace Reader

/-- One step of a reader. It ends after an expression when no frame is left, and where a text is
not one that is printed. -/
def step : Reader → Option Reader
  | before frames rest =>
    match readAtom? rest, rest with
    | some (atom, rest), _ => some (after frames atom rest)
    | none, '(' :: rest => some (before (.parenthesis :: frames) rest)
    | none, _ => none
  | after frames read ('.' :: rest) =>
    let (field, rest) := upTo wordEnds rest
    some (after frames (index read (text (String.ofList field)) none) rest)
  | after frames read ('[' :: rest) => some (before (.key read :: frames) rest)
  | after (.key table :: frames) read (']' :: rest) =>
    some (after frames (index table read none) rest)
  | after (.parenthesis :: frames) read (')' :: rest) => some (after frames read rest)
  | after (.parenthesis :: frames) read (' ' :: rest) =>
    let (operator, rest) := upTo [' '] rest
    some (before (.operand read (String.ofList operator) :: frames) rest.tail)
  | after (.operand left operator :: frames) read (')' :: rest) =>
    some (after frames (binary left operator read) rest)
  | after .. => none

/-- Nothing is left to do after an expression that ends with the text. -/
theorem step_done (read : Expr) : step (after [] read []) = none :=
  rfl

theorem step_atom {rest remaining : List Char} {atom : Expr} (frames : List Frame)
    (isAtom : readAtom? rest = some (atom, remaining)) :
    step (before frames rest) = some (after frames atom remaining) := by
  simp only [step, isAtom]

theorem step_parenthesis (frames : List Frame) (rest : List Char) :
    step (before frames ('(' :: rest)) = some (before (.parenthesis :: frames) rest) :=
  rfl

theorem step_field {field rest : List Char} (frames : List Frame) (table : Expr)
    (free : ∀ c ∈ field, c ∉ wordEnds) (ended : StartsIn wordEnds rest) :
    step (after frames table ('.' :: (field ++ rest))) =
      some (after frames (index table (text (String.ofList field)) none) rest) := by
  rw [step, upTo_append free ended]

theorem step_operator {operator rest : List Char} (frames : List Frame) (left : Expr)
    (free : ∀ c ∈ operator, c ∉ [' ']) :
    step (after (.parenthesis :: frames) left (' ' :: (operator ++ ' ' :: rest))) =
      some (before (.operand left (String.ofList operator) :: frames) rest) := by
  have ended : StartsIn [' '] (' ' :: rest) := startsIn_cons (by decide) rest
  rw [step, upTo_append free ended]
  rfl

end Reader

end NameLowering.Lua
