import Mathlib.Algebra.Group.Nat.Defs
import NameLowering.Lua.Printer

/-!
# Reading quoted texts back

A quoted text denotes bytes. A backslash is followed by a letter that stands for a byte, or by up to
three decimal digits that spell one; as many digits are taken as there are. Every text in quotes is
one complete literal. It denotes the text's own bytes, except that a null character takes up to two
digits after it into its escape.
-/

namespace NameLowering.Lua

def bytes (text : List Char) : List UInt8 :=
  text.flatMap String.utf8EncodeChar

/-! ## Reading -/

/-- The byte that a letter stands for after a backslash. -/
def letterByte? : Char → Option UInt8
  | '"' => some 34
  | '\\' => some 92
  | 'n' => some 10
  | 'r' => some 13
  | 't' => some 9
  | _ => none

/-- The decimal digits that a text starts with, at most so many. -/
def leadingDigits (limit : Nat) (text : List Char) : List Char :=
  (text.take limit).takeWhile Char.isDigit

/-- The byte that an escape stands for and the number of characters that the escape takes, given
what follows the backslash. -/
def escape? (text : List Char) : Option (UInt8 × Nat) :=
  match text.head?.bind letterByte? with
  | some byte => some (byte, 1)
  | none =>
    let digits := leadingDigits 3 text
    let value := Nat.ofDigitChars 10 digits 0
    if digits = [] ∨ 255 < value then none else some (UInt8.ofNat value, digits.length)

/-- Reads up to the closing quote. Gives the bytes and what follows the quote. -/
def readBytes? : List Char → Option (List UInt8 × List Char)
  | [] => none
  | '"' :: rest => some ([], rest)
  | '\\' :: rest =>
    match escape? rest with
    | some (byte, width) => (readBytes? (rest.drop width)).map (Prod.map (byte :: ·) id)
    | none => none
  | c :: rest => (readBytes? rest).map (Prod.map (String.utf8EncodeChar c ++ ·) id)
termination_by text => text.length
decreasing_by
  all_goals simp only [List.length_cons, List.length_drop]
  all_goals omega

/-- The bytes that a text denotes as a complete quoted literal. -/
def readQuoted? : List Char → Option (List UInt8)
  | '"' :: rest =>
    match readBytes? rest with
    | some (read, []) => some read
    | _ => none
  | _ => none

/-! ## What a text in quotes denotes -/

/-- The bytes that a text in quotes denotes: a null character and the digits after it, two of them
at most, are one byte. -/
def denoted : List Char → List UInt8
  | [] => []
  | '\x00' :: rest =>
    let digits := leadingDigits 2 rest
    UInt8.ofNat (Nat.ofDigitChars 10 digits 0) :: denoted (rest.drop digits.length)
  | c :: rest => String.utf8EncodeChar c ++ denoted rest
termination_by text => text.length
decreasing_by
  all_goals simp only [List.length_cons, List.length_drop]
  all_goals omega

/-- A null character stands directly before a decimal digit. -/
def NullBeforeDigit (text : List Char) : Prop :=
  ∃ digit : Char, digit.isDigit = true ∧ ['\x00', digit] <:+: text

/-! ## Digits between quotes -/

theorem quotedChar_of_isDigit {c : Char} (digit : c.isDigit = true) : quotedChar c = [c] := by
  unfold quotedChar
  split <;> first | rfl | contradiction

theorem exists_quotedChar_of_not_isDigit {c : Char} (noDigit : c.isDigit = false) :
    ∃ first rest, quotedChar c = first :: rest ∧ first.isDigit = false := by
  unfold quotedChar
  split <;> exact ⟨_, _, rfl, by first | rfl | exact noDigit⟩

/-- Digits stand for themselves between quotes, and the closing quote ends them. -/
theorem leadingDigits_quoted (limit : Nat) (text after : List Char) :
    leadingDigits limit (text.flatMap quotedChar ++ '"' :: after) = leadingDigits limit text := by
  induction limit generalizing text with
  | zero =>
      simp [leadingDigits]
  | succ limit inductionHypothesis =>
      cases text with
      | nil =>
          simp [leadingDigits]
      | cons c rest =>
          cases digit : c.isDigit with
          | true =>
              have restDigits := inductionHypothesis rest
              simp only [leadingDigits] at restDigits
              simp [leadingDigits, quotedChar_of_isDigit digit, digit, restDigits]
          | false =>
              obtain ⟨first, others, written, noDigit⟩ := exists_quotedChar_of_not_isDigit digit
              simp [leadingDigits, written, noDigit, digit]

theorem isDigit_of_mem_leadingDigits {limit : Nat} {text : List Char} :
    ∀ c ∈ leadingDigits limit text, c.isDigit = true := by
  intro c member
  exact List.all_eq_true.mp (List.all_takeWhile) c member

theorem leadingDigits_append_drop (limit : Nat) (text : List Char) :
    leadingDigits limit text ++ text.drop (leadingDigits limit text).length = text := by
  have starts : leadingDigits limit text <+: text :=
    (List.takeWhile_prefix Char.isDigit).trans (List.take_prefix limit text)
  exact (List.prefix_iff_eq_append.mp starts)

theorem flatMap_quotedChar_of_digits {digits : List Char}
    (allDigits : ∀ c ∈ digits, c.isDigit = true) :
    digits.flatMap quotedChar = digits := by
  induction digits with
  | nil =>
      rfl
  | cons first rest inductionHypothesis =>
      have firstKept := quotedChar_of_isDigit (allDigits first List.mem_cons_self)
      have restKept := inductionHypothesis fun c member =>
        allDigits c (List.mem_cons_of_mem first member)
      rw [List.flatMap_cons, firstKept, restKept, List.singleton_append]

theorem drop_quoted_of_digits {digits : List Char}
    (allDigits : ∀ c ∈ digits, c.isDigit = true) (rest after : List Char) :
    ((digits ++ rest).flatMap quotedChar ++ after).drop digits.length =
      rest.flatMap quotedChar ++ after := by
  rw [List.flatMap_append, flatMap_quotedChar_of_digits allDigits, List.append_assoc,
    List.drop_left]

theorem drop_leadingDigits_quoted (limit : Nat) (text after : List Char) :
    (text.flatMap quotedChar ++ after).drop (leadingDigits limit text).length =
      (text.drop (leadingDigits limit text).length).flatMap quotedChar ++ after := by
  have allDigits : ∀ c ∈ leadingDigits limit text, c.isDigit = true :=
    isDigit_of_mem_leadingDigits
  have dropped :=
    drop_quoted_of_digits allDigits (text.drop (leadingDigits limit text).length) after
  rwa [leadingDigits_append_drop limit text] at dropped

/-! ## Values of digits -/

theorem ofDigitChars_lt {digits : List Char} (allDigits : ∀ c ∈ digits, c.isDigit = true)
    (start : Nat) :
    Nat.ofDigitChars 10 digits start < (start + 1) * 10 ^ digits.length := by
  induction digits generalizing start with
  | nil =>
      simp
  | cons first rest inductionHypothesis =>
      have firstBound : first.toNat - '0'.toNat < 10 := by
        have isDigit := allDigits first List.mem_cons_self
        simp only [Char.isDigit, Bool.and_eq_true, decide_eq_true_eq] at isDigit
        have atMostNine : first.toNat ≤ '9'.toNat := isDigit.2
        have zero : '0'.toNat = 48 := rfl
        have nine : '9'.toNat = 57 := rfl
        omega
      have restBound := inductionHypothesis
        (fun c member => allDigits c (List.mem_cons_of_mem first member))
        (10 * start + (first.toNat - '0'.toNat))
      rw [Nat.ofDigitChars_cons, List.length_cons, Nat.pow_succ]
      calc
        Nat.ofDigitChars 10 rest (10 * start + (first.toNat - '0'.toNat))
            < (10 * start + (first.toNat - '0'.toNat) + 1) * 10 ^ rest.length := restBound
        _ ≤ ((start + 1) * 10) * 10 ^ rest.length := Nat.mul_le_mul_right _ (by omega)
        _ = (start + 1) * (10 ^ rest.length * 10) := by
          rw [Nat.mul_assoc, Nat.mul_comm 10 (10 ^ rest.length)]

/-! ## Reading what is in quotes -/

/-- A null character is escaped as a zero, and reading takes up to two digits more. -/
theorem escape?_zero (rest : List Char) :
    escape? ('0' :: rest) =
      some (UInt8.ofNat (Nat.ofDigitChars 10 (leadingDigits 2 rest) 0),
        (leadingDigits 2 rest).length + 1) := by
  have digits : leadingDigits 3 ('0' :: rest) = '0' :: leadingDigits 2 rest := by
    simp [leadingDigits]
  have short : (leadingDigits 2 rest).length ≤ 2 :=
    Nat.le_trans (List.takeWhile_prefix Char.isDigit).length_le (List.length_take_le 2 rest)
  have value :
      Nat.ofDigitChars 10 ('0' :: leadingDigits 2 rest) 0 =
        Nat.ofDigitChars 10 (leadingDigits 2 rest) 0 := by
    rw [Nat.ofDigitChars_cons]
    rfl
  have bound : Nat.ofDigitChars 10 (leadingDigits 2 rest) 0 ≤ 255 := by
    have allDigits : ∀ c ∈ leadingDigits 2 rest, c.isDigit = true := isDigit_of_mem_leadingDigits
    have below := ofDigitChars_lt allDigits 0
    have power : 10 ^ (leadingDigits 2 rest).length ≤ 10 ^ 2 :=
      Nat.pow_le_pow_right (by decide) short
    omega
  have spelt :
      ¬ ('0' :: leadingDigits 2 rest = [] ∨
        255 < Nat.ofDigitChars 10 ('0' :: leadingDigits 2 rest) 0) := by
    rw [value]
    simpa using bound
  have noLetter : ('0' :: rest).head?.bind letterByte? = none := rfl
  rw [escape?, noLetter, digits]
  dsimp only
  rw [if_neg spelt, value, List.length_cons]

theorem readBytes?_escape {rest : List Char} {byte : UInt8} {width : Nat}
    (escape : escape? rest = some (byte, width)) :
    readBytes? ('\\' :: rest) = (readBytes? (rest.drop width)).map (Prod.map (byte :: ·) id) := by
  rw [readBytes?, escape]

theorem readBytes?_letter {letter c : Char} {byte : UInt8}
    (stands : letterByte? letter = some byte) (encoded : String.utf8EncodeChar c = [byte])
    (rest : List Char) :
    readBytes? ('\\' :: letter :: rest) =
      (readBytes? rest).map (Prod.map (String.utf8EncodeChar c ++ ·) id) := by
  have escape : escape? (letter :: rest) = some (byte, 1) := by
    simp [escape?, stands]
  rw [readBytes?_escape escape, encoded]
  rfl

theorem readBytes?_quotedChar {c : Char} (notNull : c ≠ '\x00') (rest : List Char) :
    readBytes? (quotedChar c ++ rest) =
      (readBytes? rest).map (Prod.map (String.utf8EncodeChar c ++ ·) id) := by
  unfold quotedChar
  split
  · exact readBytes?_letter rfl rfl rest
  · exact readBytes?_letter rfl rfl rest
  · exact readBytes?_letter rfl rfl rest
  · exact readBytes?_letter rfl rfl rest
  · exact readBytes?_letter rfl rfl rest
  · contradiction
  case _ noQuote noBackslash _ _ _ _ =>
    rw [List.singleton_append, readBytes?]
    · exact noQuote
    · exact noBackslash

theorem readBytes?_quoted (text after : List Char) :
    readBytes? (text.flatMap quotedChar ++ '"' :: after) = some (denoted text, after) := by
  fun_induction denoted text with
  | case1 =>
      rw [List.flatMap_nil, List.nil_append, readBytes?]
  | case2 rest digits inductionHypothesis =>
      have escape := escape?_zero (rest.flatMap quotedChar ++ '"' :: after)
      rw [leadingDigits_quoted] at escape
      change readBytes? ('\\' :: '0' :: (rest.flatMap quotedChar ++ '"' :: after)) = _
      rw [readBytes?_escape escape, List.drop_succ_cons, drop_leadingDigits_quoted,
        inductionHypothesis]
      rfl
  | case3 c rest notNull inductionHypothesis =>
      rw [List.flatMap_cons, List.append_assoc, readBytes?_quotedChar notNull,
        inductionHypothesis]
      rfl

/-! ## When a text in quotes denotes itself -/

theorem bytes_cons (c : Char) (rest : List Char) :
    bytes (c :: rest) = String.utf8EncodeChar c ++ bytes rest :=
  List.flatMap_cons

theorem length_bytes_append (first second : List Char) :
    (bytes (first ++ second)).length = (bytes first).length + (bytes second).length := by
  rw [bytes, List.flatMap_append, List.length_append]
  rfl

theorem length_le_length_bytes (text : List Char) : text.length ≤ (bytes text).length := by
  induction text with
  | nil =>
      exact Nat.zero_le _
  | cons c rest inductionHypothesis =>
      have positive : 0 < (String.utf8EncodeChar c).length := by
        rw [String.length_utf8EncodeChar]
        exact c.utf8Size_pos
      rw [bytes_cons, List.length_append, List.length_cons]
      omega

theorem length_denoted_le (text : List Char) : (denoted text).length ≤ (bytes text).length := by
  fun_induction denoted text with
  | case1 =>
      exact Nat.le_refl _
  | case2 rest digits inductionHypothesis =>
      have split := leadingDigits_append_drop 2 rest
      have lengths := length_bytes_append digits (rest.drop digits.length)
      rw [split] at lengths
      have null : (String.utf8EncodeChar '\x00').length = 1 := rfl
      rw [bytes_cons, List.length_append, List.length_cons]
      omega
  | case3 c rest notNull inductionHypothesis =>
      rw [bytes_cons, List.length_append, List.length_append]
      omega

theorem nullBeforeDigit_cons {c : Char} {rest : List Char} :
    NullBeforeDigit (c :: rest) ↔
      (c = '\x00' ∧ leadingDigits 2 rest ≠ []) ∨ NullBeforeDigit rest := by
  unfold NullBeforeDigit
  simp only [List.infix_cons_iff, and_or_left, exists_or]
  refine or_congr_left ?_
  cases rest with
  | nil =>
      simp [leadingDigits]
  | cons next others =>
      simp only [List.cons_prefix_cons, List.nil_prefix, and_true]
      constructor
      · rintro ⟨digit, isDigit, isNull, isNext⟩
        refine ⟨isNull.symm, ?_⟩
        simp [leadingDigits, ← isNext, isDigit]
      · rintro ⟨isNull, digits⟩
        refine ⟨next, ?_, isNull.symm, rfl⟩
        cases isDigit : next.isDigit with
        | true =>
            rfl
        | false =>
            simp [leadingDigits, isDigit] at digits

/-- A text in quotes denotes its own bytes just if no null character stands before a digit. -/
theorem denoted_eq_bytes_iff (text : List Char) :
    denoted text = bytes text ↔ ¬ NullBeforeDigit text := by
  fun_induction denoted text with
  | case1 =>
      refine iff_of_true rfl ?_
      rintro ⟨digit, _, isInfix⟩
      exact absurd isInfix (by simp)
  | case2 rest digits inductionHypothesis =>
      rw [nullBeforeDigit_cons, bytes_cons]
      have encoded : String.utf8EncodeChar '\x00' = [0] := rfl
      by_cases noDigits : leadingDigits 2 rest = []
      · have nothing : digits = [] := noDigits
        have zero : UInt8.ofNat (Nat.ofDigitChars 10 [] 0) = 0 := rfl
        rw [nothing, List.length_nil, List.drop_zero] at inductionHypothesis
        rw [nothing, List.length_nil, List.drop_zero, zero, encoded, List.singleton_append,
          List.cons.injEq, inductionHypothesis]
        simp [noDigits]
      · -- The digits are lost, so that there are fewer bytes than in the text.
        refine iff_of_false ?_ fun none => none (Or.inl ⟨rfl, noDigits⟩)
        intro same
        have split := leadingDigits_append_drop 2 rest
        have lengths := length_bytes_append digits (rest.drop digits.length)
        have kept := length_le_length_bytes digits
        have positive : 0 < digits.length := List.length_pos_iff.mpr noDigits
        have rests := length_denoted_le (rest.drop digits.length)
        have sameLength := congrArg List.length same
        rw [split] at lengths
        rw [encoded, List.singleton_append, List.length_cons, List.length_cons] at sameLength
        omega
  | case3 c rest notNull inductionHypothesis =>
      rw [nullBeforeDigit_cons, bytes_cons, List.append_cancel_left_eq, inductionHypothesis]
      exact not_congr (or_iff_right fun null => notNull null.1).symm

/-! ## Printed texts -/

theorem readQuoted?_quoted (text : List Char) :
    readQuoted? (quoted text) = some (denoted text) := by
  rw [quoted, List.cons_append, readQuoted?, readBytes?_quoted]

theorem print_text (value : String) :
    (Expr.text value).print.toList = quoted value.toList := by
  rw [Expr.print, String.toList_ofList, Expr.chars]

/-- A printed text is one complete literal. It denotes the bytes of the text just if the text has no
null character directly before a decimal digit; the escape of such a null character takes up to two
of the digits. -/
theorem readQuoted?_print (value : String) :
    readQuoted? (Expr.text value).print.toList = some (denoted value.toList) ∧
      (denoted value.toList = bytes value.toList ↔ ¬ NullBeforeDigit value.toList) := by
  refine ⟨?_, denoted_eq_bytes_iff value.toList⟩
  rw [print_text, readQuoted?_quoted]

/-- A null character and a one print as a literal of a single byte. -/
theorem readQuoted?_print_nullBeforeDigit :
    ¬ ∀ value : String,
      readQuoted? (Expr.text value).print.toList = some (bytes value.toList) := by
  intro readsBack
  have nullBefore : NullBeforeDigit "\x001".toList :=
    ⟨'1', rfl, List.infix_refl _⟩
  have read := readsBack "\x001"
  rw [print_text, readQuoted?_quoted, Option.some.injEq, denoted_eq_bytes_iff] at read
  exact read nullBefore

end NameLowering.Lua
