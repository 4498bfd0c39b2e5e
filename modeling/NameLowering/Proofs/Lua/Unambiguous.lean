import NameLowering.Proofs.Lua.Reader
import NameLowering.Proofs.Names.Spelling

/-!
# Printing is unambiguous

A reader takes every printed expression back to the expression, less its links to the source. So
two expressions with the same text differ in these links only. The names, numbers and operators in
them have to be spelt as such; a quoted text can hold anything.
-/

namespace NameLowering.Lua

open NameLowering.Lua.Expr Reader
open StateTransition

/-! ## Expressions without links -/

namespace Expr

/-- The expression without its links to the source. -/
def plain : Expr → Expr
  | ident name => ident { text := name.text }
  | index table key _ => index table.plain key.plain none
  | text value => text value
  | numeral spelling => numeral spelling
  | nil => nil
  | binary left operator right => binary left.plain operator right.plain

theorem isIndexable_plain (expression : Expr) :
    expression.plain.isIndexable = expression.isIndexable := by
  cases expression <;> rfl

theorem fieldName?_plain (expression : Expr) :
    expression.plain.fieldName? = expression.fieldName? := by
  cases expression <;> rfl

theorem chars_plain (expression : Expr) : expression.plain.chars = expression.chars := by
  induction expression with
  | index table key source tableHypothesis keyHypothesis =>
      rw [plain, chars, chars, tableHypothesis, keyHypothesis, isIndexable_plain,
        fieldName?_plain]
  | binary left operator right leftHypothesis rightHypothesis =>
      rw [plain, chars, chars, leftHypothesis, rightHypothesis]
  | _ =>
      rfl

end Expr

/-! ## Spelling -/

/-- The binary operators of Lua. -/
def binaryOperators : List String :=
  ["+", "-", "*", "/", "//", "%", "^", "&", "|", "~", "<<", ">>", "..", "<", "<=", ">", ">=",
    "==", "~=", "and", "or"]

/-- Whether a text is spelt as a number: a digit, then letters, digits and dots. -/
def isNumeral (spelling : String) : Bool :=
  match spelling.toList with
  | [] => false
  | first :: rest => first.isDigit && rest.all fun c => c.isAlphanum || c == '.'

/-- Every variable has a name that some target accepts, and every number and every operator is
spelt as one. -/
def Expr.WellSpelt : Expr → Prop
  | ident name => ∃ target : Target, target.accepts name.text = true
  | index table key _ => table.WellSpelt ∧ key.WellSpelt
  | text _ => True
  | numeral spelling => isNumeral spelling = true
  | nil => True
  | binary left operator right =>
    left.WellSpelt ∧ operator ∈ binaryOperators ∧ right.WellSpelt

theorem eq_text_of_fieldName?_eq_some {key : Expr} {field : String}
    (fieldName : key.fieldName? = some field) :
    key = text field ∧ Target.universal.accepts field = true := by
  cases key with
  | text value =>
      rw [fieldName?, Option.ite_none_right_eq_some] at fieldName
      obtain ⟨accepted, isField⟩ := fieldName
      cases isField
      exact ⟨rfl, accepted⟩
  | _ =>
      contradiction

theorem not_mem_of_any_eq_false {test : Char → Bool} {chars : List Char} {c : Char}
    (noneHolds : chars.any test = false) (holds : test c = true) :
    c ∉ chars :=
  fun member => List.any_eq_false.mp noneHolds c member holds

theorem exists_toList_of_isNumeral {spelling : String} (spelt : isNumeral spelling = true) :
    ∃ first rest, spelling.toList = first :: rest ∧ first.isDigit = true ∧
      ∀ c ∈ first :: rest, c ∉ closers := by
  unfold isNumeral at spelt
  cases characters : spelling.toList with
  | nil =>
      rw [characters] at spelt
      contradiction
  | cons first rest =>
      rw [characters] at spelt
      simp only [Bool.and_eq_true, List.all_eq_true] at spelt
      obtain ⟨digit, parts⟩ := spelt
      have inNumeral : ∀ c ∈ first :: rest, (c.isAlphanum || c == '.') = true := by
        refine List.forall_mem_cons.mpr ⟨?_, parts⟩
        rw [Char.isAlphanum, digit, Bool.or_true, Bool.true_or]
      have noCloser : closers.any (fun c => c.isAlphanum || c == '.') = false := by
        decide
      exact ⟨first, rest, rfl, digit, fun c member =>
        not_mem_of_any_eq_false noCloser (inNumeral c member)⟩

theorem not_mem_wordEnds_of_accepts {target : Target} {name : String}
    (accepted : target.accepts name = true) :
    ∀ c ∈ name.toList, c ∉ wordEnds := by
  obtain ⟨first, others, characters, _, parts⟩ := Target.exists_toList_of_accepts accepted
  have noPart : wordEnds.any target.isNamePart = false := by
    cases target <;> decide
  intro c member
  rw [characters] at member
  exact not_mem_of_any_eq_false noPart (parts c member)

theorem not_mem_of_mem_binaryOperators {operator : String} (known : operator ∈ binaryOperators) :
    ∀ c ∈ operator.toList, c ∉ [' '] := by
  have noSpace : ∀ operator ∈ binaryOperators, ' ' ∉ operator.toList := by
    decide
  intro c member isSpace
  rw [List.mem_singleton.mp isSpace] at member
  exact noSpace operator known member

/-! ## Reading atoms -/

theorem readAtom?_word {first : Char} {others rest : List Char} (bare : first ∉ openers)
    (noDigit : first.isDigit = false) (free : ∀ c ∈ first :: others, c ∉ wordEnds)
    (ended : StartsIn wordEnds rest) :
    readAtom? (first :: others ++ rest) =
      some (if first :: others = nilWord.toList then nil
        else ident { text := String.ofList (first :: others) }, rest) := by
  have taken : upTo wordEnds (first :: others ++ rest) = (first :: others, rest) :=
    upTo_append free ended
  have isWord : ¬ (first :: others ++ rest).head?.any Char.isDigit = true := by
    simp [noDigit]
  rw [List.cons_append, readAtom?_of_bare bare, ← List.cons_append, readWord, if_neg isWord, taken]

theorem readAtom?_ident {target : Target} {name : String} {rest : List Char}
    (accepted : target.accepts name = true) (ended : StartsIn wordEnds rest) :
    readAtom? (name.toList ++ rest) = some (ident { text := name }, rest) := by
  obtain ⟨first, others, characters, start, _⟩ := Target.exists_toList_of_accepts accepted
  have noStart : openers.any target.isNameStart = false := by
    cases target <;> decide
  have bare : first ∉ openers := not_mem_of_any_eq_false noStart start
  have noDigit := Target.isDigit_eq_false_of_isNameStart start
  have free := not_mem_wordEnds_of_accepts accepted
  rw [characters] at free
  have notNil : first :: others ≠ nilWord.toList := by
    intro same
    have unreserved := Target.isReservedWord_eq_false_of_accepts accepted
    rw [← characters, String.toList_inj] at same
    rw [same] at unreserved
    contradiction
  rw [characters, readAtom?_word bare noDigit free ended, if_neg notNil, ← characters,
    String.ofList_toList]

theorem readAtom?_nil {rest : List Char} (ended : StartsIn closers rest) :
    readAtom? (nilWord.toList ++ rest) = some (nil, rest) := by
  have letters : nilWord.toList = ['n', 'i', 'l'] := by
    decide
  have free : ∀ c ∈ ['n', 'i', 'l'], c ∉ wordEnds := by
    simp [wordEnds, closers]
  have wordEnded : StartsIn wordEnds rest := ended.mono closers_subset_wordEnds
  rw [letters, readAtom?_word (by decide) (by decide) free wordEnded, if_pos letters.symm]

theorem readAtom?_numeral {spelling : String} {rest : List Char}
    (spelt : isNumeral spelling = true) (ended : StartsIn closers rest) :
    readAtom? (spelling.toList ++ rest) = some (numeral spelling, rest) := by
  obtain ⟨first, others, characters, digit, free⟩ := exists_toList_of_isNumeral spelt
  have taken : upTo closers (first :: others ++ rest) = (first :: others, rest) :=
    upTo_append free ended
  have noDigit : openers.any Char.isDigit = false := by
    decide
  have bare : first ∉ openers := not_mem_of_any_eq_false noDigit digit
  have isNumber : (first :: others ++ rest).head?.any Char.isDigit = true := by
    simp [digit]
  rw [characters, List.cons_append, readAtom?_of_bare bare, ← List.cons_append, readWord,
    if_pos isNumber, taken, ← characters]
  dsimp only
  rw [String.ofList_toList]

theorem readAtom?_text (value : String) (rest : List Char) :
    readAtom? (quoted value.toList ++ rest) = some (text value, rest) := by
  have read := readText?_quoted value.toList rest
  have written :
      quoted value.toList ++ rest = '"' :: (value.toList.flatMap quotedChar ++ '"' :: rest) := by
    simp [quoted]
  rw [written, readAtom?, read, Option.map_some, Prod.map, String.ofList_toList]
  rfl

/-! ## Reading expressions -/

namespace Expr

/-- What can stand right after an expression. -/
def ends (expression : Expr) : List Char :=
  if expression.isIndexable then wordEnds else closers

/-- A table as it stands before the key of a field. -/
def indexed (table : Expr) : List Char :=
  if table.isIndexable then table.chars else '(' :: table.chars ++ [')']

/-- The reader gets from before an expression to after it, inside of whatever forms it is and
whatever follows. -/
def IsRead (expression : Expr) : Prop :=
  ∀ (frames : List Frame) (rest : List Char), StartsIn expression.ends rest →
    Reaches step (before frames (expression.chars ++ rest)) (after frames expression.plain rest)

end Expr

theorem mem_ends_of_mem_closers {c : Char} (closer : c ∈ closers) (expression : Expr) :
    c ∈ expression.ends := by
  unfold ends
  split
  · exact closers_subset_wordEnds closer
  · exact closer

/-- A table is read also in the parentheses that it may be printed in. -/
theorem reaches_after_indexed {table : Expr} (isRead : table.IsRead) (frames : List Frame)
    {rest : List Char} (ended : StartsIn ['.', '['] rest) :
    Reaches step (before frames (table.indexed ++ rest)) (after frames table.plain rest) := by
  cases indexable : table.isIndexable with
  | true =>
      have bare : table.indexed = table.chars := by
        rw [indexed, if_pos indexable]
      have wordEnded : StartsIn table.ends rest := by
        rw [ends, if_pos indexable]
        exact ended.mono (List.subset_append_left ['.', '['] closers)
      rw [bare]
      exact isRead frames rest wordEnded
  | false =>
      have enclosed :
          table.indexed ++ rest = '(' :: (table.chars ++ ')' :: rest) := by
        simp [indexed, indexable]
      have inside : Reaches step
          (before (.parenthesis :: frames) (table.chars ++ ')' :: rest))
          (after (.parenthesis :: frames) table.plain (')' :: rest)) :=
        isRead _ _ (startsIn_cons (mem_ends_of_mem_closers (by decide) table) rest)
      have closes : step (after (.parenthesis :: frames) table.plain (')' :: rest)) =
          some (after frames table.plain rest) := rfl
      rw [enclosed]
      exact .head (step_parenthesis frames _) (inside.tail closes)

theorem isRead_index {table key : Expr} (tableRead : table.IsRead) (keyRead : key.IsRead)
    (source : Option NodeRef) :
    (index table key source).IsRead := by
  intro frames rest ended
  cases fieldName : key.fieldName? with
  | some field =>
      have written : (index table key source).chars ++ rest =
          table.indexed ++ '.' :: (field.toList ++ rest) := by
        simp [chars, indexed, fieldName]
      have toTable : Reaches step
          (before frames (table.indexed ++ '.' :: (field.toList ++ rest)))
          (after frames table.plain ('.' :: (field.toList ++ rest))) :=
        reaches_after_indexed tableRead frames (startsIn_cons (by decide) _)
      obtain ⟨isText, accepted⟩ := eq_text_of_fieldName?_eq_some fieldName
      have names : step (after frames table.plain ('.' :: (field.toList ++ rest))) =
          some (after frames (index table.plain (text field) none) rest) := by
        rw [step_field frames table.plain (not_mem_wordEnds_of_accepts accepted) ended,
          String.ofList_toList]
      rw [written, isText]
      exact toTable.tail names
  | none =>
      have written : (index table key source).chars ++ rest =
          table.indexed ++ '[' :: (key.chars ++ ']' :: rest) := by
        simp [chars, indexed, fieldName]
      have toTable : Reaches step
          (before frames (table.indexed ++ '[' :: (key.chars ++ ']' :: rest)))
          (after frames table.plain ('[' :: (key.chars ++ ']' :: rest))) :=
        reaches_after_indexed tableRead frames (startsIn_cons (by decide) _)
      have opens : step (after frames table.plain ('[' :: (key.chars ++ ']' :: rest))) =
          some (before (.key table.plain :: frames) (key.chars ++ ']' :: rest)) := rfl
      have toKey : Reaches step
          (before (.key table.plain :: frames) (key.chars ++ ']' :: rest))
          (after (.key table.plain :: frames) key.plain (']' :: rest)) :=
        keyRead _ _ (startsIn_cons (mem_ends_of_mem_closers (by decide) key) rest)
      have closes : step (after (.key table.plain :: frames) key.plain (']' :: rest)) =
          some (after frames (index table.plain key.plain none) rest) := rfl
      rw [written]
      exact toTable.trans (.head opens (toKey.tail closes))

theorem isRead_binary {left right : Expr} {operator : String} (leftRead : left.IsRead)
    (known : operator ∈ binaryOperators) (rightRead : right.IsRead) :
    (binary left operator right).IsRead := by
  intro frames rest _
  have written : (binary left operator right).chars ++ rest =
      '(' :: (left.chars ++ ' ' :: (operator.toList ++ ' ' :: (right.chars ++ ')' :: rest))) := by
    simp [chars]
  have toLeft : Reaches step
      (before (.parenthesis :: frames)
        (left.chars ++ ' ' :: (operator.toList ++ ' ' :: (right.chars ++ ')' :: rest))))
      (after (.parenthesis :: frames) left.plain
        (' ' :: (operator.toList ++ ' ' :: (right.chars ++ ')' :: rest)))) :=
    leftRead _ _ (startsIn_cons (mem_ends_of_mem_closers (by decide) left) _)
  have operates : step (after (.parenthesis :: frames) left.plain
        (' ' :: (operator.toList ++ ' ' :: (right.chars ++ ')' :: rest)))) =
      some (before (.operand left.plain operator :: frames) (right.chars ++ ')' :: rest)) := by
    rw [step_operator frames left.plain (not_mem_of_mem_binaryOperators known),
      String.ofList_toList]
  have toRight : Reaches step
      (before (.operand left.plain operator :: frames) (right.chars ++ ')' :: rest))
      (after (.operand left.plain operator :: frames) right.plain (')' :: rest)) :=
    rightRead _ _ (startsIn_cons (mem_ends_of_mem_closers (by decide) right) rest)
  have closes : step (after (.operand left.plain operator :: frames) right.plain (')' :: rest)) =
      some (after frames (binary left.plain operator right.plain) rest) := rfl
  rw [written]
  exact .head (step_parenthesis frames _) (toLeft.trans (.head operates (toRight.tail closes)))

theorem Expr.WellSpelt.isRead {expression : Expr} (spelt : expression.WellSpelt) :
    expression.IsRead := by
  induction expression with
  | ident name =>
      obtain ⟨target, accepted⟩ := spelt
      intro frames rest ended
      exact .single (step_atom frames (readAtom?_ident accepted ended))
  | index table key source tableHypothesis keyHypothesis =>
      exact isRead_index (tableHypothesis spelt.1) (keyHypothesis spelt.2) source
  | text value =>
      intro frames rest _
      exact .single (step_atom frames (readAtom?_text value rest))
  | numeral spelling =>
      intro frames rest ended
      exact .single (step_atom frames (readAtom?_numeral spelt ended))
  | nil =>
      intro frames rest ended
      exact .single (step_atom frames (readAtom?_nil ended))
  | binary left operator right leftHypothesis rightHypothesis =>
      exact isRead_binary (leftHypothesis spelt.1) spelt.2.1 (rightHypothesis spelt.2.2)

/-! ## Same texts -/

/-- A reader of the text of a well spelt expression comes to rest after the expression. -/
theorem Expr.WellSpelt.after_mem_eval {expression : Expr} (spelt : expression.WellSpelt) :
    after [] expression.plain [] ∈ eval step (before [] expression.chars) := by
  have ended : StartsIn expression.ends [] := nofun
  have reaches := spelt.isRead [] [] ended
  rw [List.append_nil] at reaches
  exact mem_eval.mpr ⟨reaches, step_done expression.plain⟩

namespace Expr

/-- Two well spelt expressions have the same text just if they differ at most in their links to the
source. -/
theorem print_eq_iff {first second : Expr} (firstSpelt : first.WellSpelt)
    (secondSpelt : second.WellSpelt) :
    first.print = second.print ↔ first.plain = second.plain := by
  constructor
  · intro same
    have sameChars : first.chars = second.chars := String.ofList_injective same
    have firstRead := firstSpelt.after_mem_eval
    have secondRead := secondSpelt.after_mem_eval
    rw [← sameChars] at secondRead
    have sameEnd : after [] first.plain [] = after [] second.plain [] :=
      Part.mem_unique firstRead secondRead
    injection sameEnd
  · intro samePlain
    rw [print, print, ← chars_plain first, ← chars_plain second, samePlain]

/-- A field of a text, which stands in parentheses, is told from a concatenation. -/
theorem print_eq_iff_fieldOfText :
    (index (text "x") (text "y") none).WellSpelt ∧
      (binary (text "x") ".." (ident { text := "y" })).WellSpelt ∧
        (index (text "x") (text "y") none).print ≠
          (binary (text "x") ".." (ident { text := "y" })).print := by
  have fieldSpelt : (index (text "x") (text "y") none).WellSpelt := ⟨trivial, trivial⟩
  have joinedSpelt : (binary (text "x") ".." (ident { text := "y" })).WellSpelt :=
    ⟨trivial, by decide, .universal, by decide⟩
  refine ⟨fieldSpelt, joinedSpelt, fun same => ?_⟩
  have samePlain := (print_eq_iff fieldSpelt joinedSpelt).mp same
  contradiction

end Expr

end NameLowering.Lua
