import NameLowering.Json.Token

/-!
# Texts one after the other

A token does not depend on what comes after it, except that a numeral may go on. So the tokens of
two texts, one written after the other, are those of the first and those of the second, if the
second does not begin with a character that goes on with a numeral.
-/

namespace NameLowering.Json

/-- What follows does not go on with a numeral. -/
def EndsNumeral (rest : List Char) : Prop :=
  ∀ c ∈ rest.head?, c.isDigit = false ∧ c ≠ '.' ∧ c ≠ 'e' ∧ c ≠ 'E'

variable {source after rest : List Char}

theorem endsNumeral_cons {c : Char} (ends : c.isDigit = false ∧ c ≠ '.' ∧ c ≠ 'e' ∧ c ≠ 'E')
    (rest : List Char) :
    EndsNumeral (c :: rest) := by
  intro first isHead
  obtain rfl : c = first := Option.some.inj isHead
  exact ends

/-! ## Numerals -/

theorem EndsNumeral.dropWhile_isDigit (ends : EndsNumeral rest) :
    rest.dropWhile Char.isDigit = rest := by
  cases rest with
  | nil =>
      rfl
  | cons c rest =>
      obtain ⟨notDigit, _⟩ := ends c rfl
      rw [List.dropWhile_cons, notDigit]
      rfl

theorem skipDigits?_append (ends : EndsNumeral rest) (skipped : skipDigits? source = some after) :
    skipDigits? (source ++ rest) = some (after ++ rest) := by
  cases source with
  | nil =>
      contradiction
  | cons c digits =>
      rw [skipDigits?] at skipped
      split at skipped
      · rename_i isDigit
        obtain rfl := Option.some.inj skipped
        rw [List.cons_append, skipDigits?, if_pos isDigit, List.dropWhile_append]
        split
        · rename_i allDigits
          rw [ends.dropWhile_isDigit, List.isEmpty_iff.mp allDigits, List.nil_append]
        · rfl
      · contradiction

theorem skipWhole?_cons (c : Char) (tail : List Char) :
    skipWhole? (c :: tail) = if c = '0' then some tail else skipDigits? (c :: tail) := by
  by_cases zero : c = '0'
  · subst zero
    rfl
  · rw [if_neg zero, skipWhole?]
    intro _ same
    exact zero (List.cons.inj same).1

theorem skipFraction?_cons (c : Char) (tail : List Char) :
    skipFraction? (c :: tail) = if c = '.' then skipDigits? tail else some (c :: tail) := by
  by_cases point : c = '.'
  · subst point
    rfl
  · rw [if_neg point, skipFraction?]
    intro _ same
    exact point (List.cons.inj same).1

theorem skipSign_cons (c : Char) (tail : List Char) :
    skipSign (c :: tail) = if c = '+' ∨ c = '-' then tail else c :: tail := by
  by_cases sign : c = '+' ∨ c = '-'
  · rw [if_pos sign]
    rcases sign with rfl | rfl <;> rfl
  · rw [if_neg sign, skipSign]
    · intro _ same
      exact sign (Or.inl (List.cons.inj same).1)
    · intro _ same
      exact sign (Or.inr (List.cons.inj same).1)

theorem skipExponent?_cons (c : Char) (tail : List Char) :
    skipExponent? (c :: tail) =
      if c = 'e' ∨ c = 'E' then skipDigits? (skipSign tail) else some (c :: tail) := by
  by_cases mark : c = 'e' ∨ c = 'E'
  · rw [if_pos mark]
    rcases mark with rfl | rfl <;> rfl
  · rw [if_neg mark, skipExponent?]
    · intro _ same
      exact mark (Or.inl (List.cons.inj same).1)
    · intro _ same
      exact mark (Or.inr (List.cons.inj same).1)

theorem skipWhole?_append (ends : EndsNumeral rest) (skipped : skipWhole? source = some after) :
    skipWhole? (source ++ rest) = some (after ++ rest) := by
  cases source with
  | nil =>
      contradiction
  | cons c tail =>
      rw [skipWhole?_cons] at skipped
      rw [List.cons_append, skipWhole?_cons]
      by_cases zero : c = '0'
      · rw [if_pos zero] at skipped ⊢
        rw [Option.some.inj skipped]
      · rw [if_neg zero] at skipped ⊢
        exact skipDigits?_append ends skipped

theorem EndsNumeral.skipFraction? (ends : EndsNumeral rest) :
    skipFraction? rest = some rest := by
  cases rest with
  | nil =>
      rfl
  | cons c rest =>
      obtain ⟨_, notPoint, _⟩ := ends c rfl
      rw [skipFraction?_cons, if_neg notPoint]

theorem EndsNumeral.skipExponent? (ends : EndsNumeral rest) :
    skipExponent? rest = some rest := by
  cases rest with
  | nil =>
      rfl
  | cons c rest =>
      obtain ⟨_, _, notMark⟩ := ends c rfl
      rw [skipExponent?_cons, if_neg (not_or.mpr notMark)]

theorem skipFraction?_append (ends : EndsNumeral rest)
    (skipped : skipFraction? source = some after) :
    skipFraction? (source ++ rest) = some (after ++ rest) := by
  cases source with
  | nil =>
      obtain rfl := Option.some.inj skipped
      exact ends.skipFraction?
  | cons c tail =>
      rw [skipFraction?_cons] at skipped
      rw [List.cons_append, skipFraction?_cons]
      by_cases point : c = '.'
      · rw [if_pos point] at skipped ⊢
        exact skipDigits?_append ends skipped
      · rw [if_neg point] at skipped ⊢
        rw [← Option.some.inj skipped, List.cons_append]

theorem skipSign_append {c : Char} (tail rest : List Char) :
    skipSign (c :: tail ++ rest) = skipSign (c :: tail) ++ rest := by
  rw [List.cons_append, skipSign_cons, skipSign_cons]
  by_cases sign : c = '+' ∨ c = '-'
  · rw [if_pos sign, if_pos sign]
  · rw [if_neg sign, if_neg sign, List.cons_append]

theorem skipExponent?_append (ends : EndsNumeral rest)
    (skipped : skipExponent? source = some after) :
    skipExponent? (source ++ rest) = some (after ++ rest) := by
  cases source with
  | nil =>
      obtain rfl := Option.some.inj skipped
      exact ends.skipExponent?
  | cons c tail =>
      rw [skipExponent?_cons] at skipped
      rw [List.cons_append, skipExponent?_cons]
      by_cases mark : c = 'e' ∨ c = 'E'
      · rw [if_pos mark] at skipped ⊢
        cases tail with
        | nil =>
            contradiction
        | cons first digits =>
            rw [skipSign_append]
            exact skipDigits?_append ends skipped
      · rw [if_neg mark] at skipped ⊢
        rw [← Option.some.inj skipped, List.cons_append]

theorem skipUnsigned?_append (ends : EndsNumeral rest)
    (skipped : skipUnsigned? source = some after) :
    skipUnsigned? (source ++ rest) = some (after ++ rest) := by
  simp only [skipUnsigned?, Option.bind_eq_bind, Option.bind_eq_some_iff] at skipped ⊢
  obtain ⟨afterWhole, whole, afterFraction, fraction, exponent⟩ := skipped
  exact ⟨_, skipWhole?_append ends whole, _, skipFraction?_append ends fraction,
    skipExponent?_append ends exponent⟩

/-- A numeral without a sign begins with a digit. -/
theorem exists_cons_of_skipUnsigned? (skipped : skipUnsigned? source = some after) :
    ∃ c tail, source = c :: tail ∧ c.isDigit = true := by
  simp only [skipUnsigned?, Option.bind_eq_bind, Option.bind_eq_some_iff] at skipped
  obtain ⟨_, whole, _⟩ := skipped
  cases source with
  | nil =>
      contradiction
  | cons c tail =>
      refine ⟨c, tail, rfl, ?_⟩
      rw [skipWhole?_cons] at whole
      by_cases zero : c = '0'
      · subst zero
        rfl
      · rw [if_neg zero, skipDigits?] at whole
        split at whole
        · assumption
        · contradiction

/-! ## Quoted texts -/

section Quoted

variable {pieces : List TextUnit}

theorem readText?_code {a b c d : Char} {unit : Nat} (number : hexNumber? [a, b, c, d] = some unit)
    (source : List Char) :
    readText? ('\\' :: 'u' :: a :: b :: c :: d :: source) =
      (readText? source).map fun (pieces, after) => (.code unit :: pieces, after) := by
  rw [readText?, number]
  cases readText? source <;> rfl

theorem readText?_letter {letter c : Char} (escape : escaped? letter = some c)
    (source : List Char) :
    readText? ('\\' :: letter :: source) =
      (readText? source).map fun (pieces, after) => (.char c :: pieces, after) := by
  have notCode : letter ≠ 'u' := by
    rintro rfl
    contradiction
  rw [readText?, escape]
  · cases readText? source <;> rfl
  · intro _ _ _ _ _ isCode _
    exact notCode isCode

theorem readText?_plain {c : Char} (notQuote : c ≠ '"') (notBackslash : c ≠ '\\')
    (printable : ¬ c.toNat < 32) (source : List Char) :
    readText? (c :: source) =
      (readText? source).map fun (pieces, after) => (.char c :: pieces, after) := by
  rw [readText?, if_neg printable]
  · cases readText? source <;> rfl
  · exact notQuote
  · intro _ _ _ _ _ isBackslash _
    exact notBackslash isBackslash
  · intro _ _ isBackslash _
    exact notBackslash isBackslash

theorem readText?_append (rest : List Char) (read : readText? source = some (pieces, after)) :
    readText? (source ++ rest) = some (pieces, after ++ rest) := by
  fun_induction readText? source generalizing pieces after with
  | case1 | case5 =>
      contradiction
  | case2 source =>
      obtain ⟨rfl, rfl⟩ := Prod.mk.inj (Option.some.inj read)
      rfl
  | case3 a b c d source inductionHypothesis =>
      simp only [Option.bind_eq_bind, Option.bind_eq_some_iff] at read
      obtain ⟨unit, number, ⟨inside, _⟩, found, same⟩ := read
      obtain ⟨rfl, rfl⟩ := Prod.mk.inj (Option.some.inj same)
      simp only [List.cons_append]
      rw [readText?_code number, inductionHypothesis found]
      rfl
  | case4 letter source notCode inductionHypothesis =>
      simp only [Option.bind_eq_bind, Option.bind_eq_some_iff] at read
      obtain ⟨c, escape, ⟨inside, _⟩, found, same⟩ := read
      obtain ⟨rfl, rfl⟩ := Prod.mk.inj (Option.some.inj same)
      simp only [List.cons_append]
      rw [readText?_letter escape, inductionHypothesis found]
      rfl
  | case6 c source notQuote _ notEscape printable inductionHypothesis =>
      simp only [Option.bind_eq_bind, Option.bind_eq_some_iff] at read
      obtain ⟨⟨inside, _⟩, found, same⟩ := read
      obtain ⟨rfl, rfl⟩ := Prod.mk.inj (Option.some.inj same)
      have notBackslash : c ≠ '\\' := by
        intro isBackslash
        cases source with
        | nil =>
            contradiction
        | cons letter source =>
            exact notEscape letter source isBackslash rfl
      rw [List.cons_append, readText?_plain notQuote notBackslash printable,
        inductionHypothesis found]
      rfl

end Quoted

/-! ## Tokens -/

theorem nextToken?_of_isDigit {c : Char} (isDigit : c.isDigit = true) (tail : List Char) :
    nextToken? (c :: tail) = (skipUnsigned? (c :: tail)).map fun after => (.number, after) := by
  unfold nextToken?
  split
  case h_12 =>
    rfl
  all_goals
    rename_i same
    obtain ⟨rfl, _⟩ := List.cons.inj same
    contradiction

theorem nextToken?_append {token : Token} (ends : EndsNumeral rest)
    (next : nextToken? source = some (token, after)) :
    nextToken? (source ++ rest) = some (token, after ++ rest) := by
  unfold nextToken? at next
  split at next
  case h_10 source =>
    obtain ⟨⟨pieces, _⟩, read, same⟩ := Option.map_eq_some_iff.mp next
    obtain ⟨rfl, rfl⟩ := Prod.mk.inj same
    rw [List.cons_append, nextToken?, readText?_append rest read]
    rfl
  case h_11 source =>
    obtain ⟨_, skipped, same⟩ := Option.map_eq_some_iff.mp next
    obtain ⟨rfl, rfl⟩ := Prod.mk.inj same
    rw [List.cons_append, nextToken?, skipUnsigned?_append ends skipped]
    rfl
  case h_12 source =>
    obtain ⟨_, skipped, same⟩ := Option.map_eq_some_iff.mp next
    obtain ⟨rfl, rfl⟩ := Prod.mk.inj same
    obtain ⟨c, tail, rfl, isDigit⟩ := exists_cons_of_skipUnsigned? skipped
    have whole := skipUnsigned?_append ends skipped
    rw [List.cons_append] at whole ⊢
    rw [nextToken?_of_isDigit isDigit, whole]
    rfl
  all_goals
    obtain ⟨rfl, rfl⟩ := Prod.mk.inj (Option.some.inj next)
    rfl

theorem tokens?_cons_of_blank {c : Char} (blank : isBlank c = true) (tail : List Char) :
    tokens? (c :: tail) = tokens? tail := by
  rw [tokens?, if_pos blank]

theorem tokens?_cons_of_next {c : Char} {tail : List Char} {token : Token}
    (notBlank : isBlank c = false) (next : nextToken? (c :: tail) = some (token, after)) :
    tokens? (c :: tail) = (tokens? after).map (token :: ·) := by
  rw [tokens?, notBlank, if_neg Bool.false_ne_true]
  split
  · rename_i none
    rw [next] at none
    contradiction
  · rename_i other found
    rw [next] at found
    obtain ⟨rfl, rfl⟩ := Prod.mk.inj (Option.some.inj found)
    rfl

theorem exists_next_of_tokens? {c : Char} {tail : List Char} {tokens : List Token}
    (notBlank : isBlank c = false) (found : tokens? (c :: tail) = some tokens) :
    ∃ token after later, nextToken? (c :: tail) = some (token, after) ∧
      tokens? after = some later ∧ tokens = token :: later := by
  cases next : nextToken? (c :: tail) with
  | some result =>
      obtain ⟨token, after⟩ := result
      rw [tokens?_cons_of_next notBlank next, Option.map_eq_some_iff] at found
      obtain ⟨later, laterFound, same⟩ := found
      exact ⟨token, after, later, rfl, laterFound, same.symm⟩
  | none =>
      rw [tokens?, notBlank, if_neg Bool.false_ne_true] at found
      split at found
      · contradiction
      · rename_i _ _ isNext
        rw [next] at isNext
        contradiction

/-- Only a numeral goes on with a numeral. -/
theorem endsNumeral_of_tokens? {tokens : List Token} (found : tokens? source = some tokens)
    (notNumber : tokens.head? ≠ some .number) :
    EndsNumeral source := by
  intro c isHead
  obtain ⟨tail, rfl⟩ := List.head?_eq_some_iff.mp isHead
  cases blank : isBlank c with
  | true =>
      simp only [isBlank, Bool.or_eq_true, beq_iff_eq] at blank
      rcases blank with ((rfl | rfl) | rfl) | rfl <;> decide
  | false =>
      obtain ⟨token, after, later, next, _, rfl⟩ := exists_next_of_tokens? blank found
      have notNumeral : (skipUnsigned? (c :: tail)).map (fun after => (Token.number, after)) ≠
          some (token, after) := by
        intro numeral
        obtain ⟨_, _, same⟩ := Option.map_eq_some_iff.mp numeral
        obtain ⟨rfl, _⟩ := Prod.mk.inj same
        exact notNumber rfl
      refine ⟨?_, ?_, ?_, ?_⟩
      · rw [Bool.eq_false_iff]
        intro isDigit
        rw [nextToken?_of_isDigit isDigit] at next
        exact notNumeral next
      all_goals
        rintro rfl
        exact notNumeral next

/-- The tokens of one text after the other are the tokens of both. -/
theorem tokens?_append {tokens : List Token} (ends : EndsNumeral rest)
    (found : tokens? source = some tokens) :
    tokens? (source ++ rest) = (tokens? rest).map (tokens ++ ·) := by
  fun_induction tokens? source generalizing tokens with
  | case1 =>
      obtain rfl := Option.some.inj found
      rw [List.nil_append]
      exact Option.map_id'.symm
  | case2 c tail blank inductionHypothesis =>
      rw [List.cons_append, tokens?_cons_of_blank blank]
      exact inductionHypothesis found
  | case3 c tail notBlank missing =>
      contradiction
  | case4 c tail notBlank token after next inductionHypothesis =>
      obtain ⟨later, laterFound, rfl⟩ := Option.map_eq_some_iff.mp found
      have nextAppended := nextToken?_append ends next
      rw [List.cons_append] at nextAppended ⊢
      rw [tokens?_cons_of_next (by simpa using notBlank) nextAppended,
        inductionHypothesis laterFound, Option.map_map]
      rfl

end NameLowering.Json
