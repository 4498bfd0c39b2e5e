import NameLowering.Proofs.Names.Overtaking

/-!
# Validity of output names

An escaped name is an identifier of the target, whatever the name it stands for: the mark is a
good start, escaped characters may follow it, and no reserved word carries the mark. So every
output name that a table has assigned is valid.
-/

namespace NameLowering

namespace Target

variable {target : Target} {name base : String}

/-! ## Characters of escaped names -/

theorem isNamePart_of_isAlpha {c : Char} (alpha : c.isAlpha = true) :
    target.isNamePart c = true := by
  simp [isNamePart, isNameStart, alpha]

theorem isNamePart_of_isDigit {c : Char} (digit : c.isDigit = true) :
    target.isNamePart c = true := by
  simp [isNamePart, digit]

theorem isNameStart_underscore : target.isNameStart '_' = true := by
  simp [isNameStart]

theorem isNamePart_underscore : target.isNamePart '_' = true := by
  simp [isNamePart, isNameStart_underscore]

theorem isNamePart_digitChar {digit : Nat} (bound : digit < 16) :
    target.isNamePart digit.digitChar.toUpper = true := by
  have letterOrDigit :
      ∀ digit < 16,
        digit.digitChar.toUpper.isAlpha = true ∨ digit.digitChar.toUpper.isDigit = true := by
    decide
  rcases letterOrDigit digit bound with alpha | isDigit
  · exact isNamePart_of_isAlpha alpha
  · exact isNamePart_of_isDigit isDigit

theorem all_isNamePart_toDigits (number : Nat) :
    ((Nat.toDigits 16 number).map Char.toUpper).all target.isNamePart = true := by
  induction number using Nat.strongRecOn with
  | ind number inductionHypothesis =>
      by_cases small : number < 16
      · rw [Nat.toDigits_of_lt_base small]
        simp [isNamePart_digitChar small]
      · have remainder : number % 16 < 16 := Nat.mod_lt number (by decide)
        have quotient := inductionHypothesis (number / 16) (by omega)
        rw [Nat.toDigits_of_base_le (by decide) (by omega), List.map_append, List.all_append,
          quotient]
        simp [isNamePart_digitChar remainder]

theorem all_isNamePart_escapeChar (target : Target) (c : Char) :
    (target.escapeChar c).all target.isNamePart = true := by
  unfold escapeChar
  split
  case isTrue isPart =>
    simp [isPart]
  case isFalse =>
    simp only [codePointEscape, List.all_cons, isNamePart_underscore, all_isNamePart_toDigits,
      Bool.and_self]

/-- An escaped name holds characters of identifiers only. -/
theorem all_isNamePart_escaped (target : Target) (name : String) :
    (target.escaped name).toList.all target.isNamePart = true := by
  have mark : Lua.safeMark.toList.all target.isNamePart = true := by
    have underscores : Lua.safeMark.toList = ['_', '_', '_', '_'] := by decide
    simp [underscores, isNamePart_underscore]
  have escapes : (name.toList.flatMap target.escapeChar).all target.isNamePart = true := by
    rw [List.all_flatMap, List.all_eq_true]
    intro c _
    exact all_isNamePart_escapeChar target c
  rw [escaped, escapeChars, String.toList_append, String.toList_ofList, List.all_append, mark,
    escapes, Bool.and_self]

/-! ## Accepted names -/

/-- A name that carries the mark is accepted if the rest of it can stand in an identifier. -/
theorem accepts_of_hasSafeMark
    (marked : hasSafeMark name = true) (parts : name.toList.all target.isNamePart = true) :
    target.accepts name = true := by
  have notReserved := isReservedWord_eq_false_of_hasSafeMark marked
  unfold hasSafeMark at marked
  rw [List.isPrefixOf_iff_prefix] at marked
  obtain ⟨rest, split⟩ := marked
  have starts : name.toList = '_' :: ('_' :: '_' :: '_' :: rest) := by
    rw [← split]
    rfl
  rw [starts, List.all_cons, Bool.and_eq_true] at parts
  simp only [accepts, starts, isNameStart_underscore, parts.2, notReserved, Bool.not_false,
    Bool.and_self]

/-- A name that need not be escaped is accepted. -/
theorem accepts_of_safe (safe : target.mustEscape name = false) : target.accepts name = true := by
  by_contra refused
  simp [mustEscape, refused] at safe

end Target

namespace NameTable

variable {target : Target}

theorem all_isNamePart_candidate
    {base : String} (parts : base.toList.all target.isNamePart = true) (number : Nat) :
    (candidate base number).toList.all target.isNamePart = true := by
  cases number with
  | zero =>
      exact parts
  | succ number =>
      have digits : (toString (number + 1)).toList.all target.isNamePart = true := by
        rw [Nat.toString_eq_repr, Nat.toList_repr, List.all_eq_true]
        intro c member
        exact Target.isNamePart_of_isDigit
          (Nat.isDigit_of_mem_toDigits (by decide) (by decide) member)
      have separator : "_".toList.all target.isNamePart = true := by
        simp [Target.isNamePart_underscore]
      rw [candidate, String.toList_append, String.toList_append, List.all_append, List.all_append,
        parts, separator, digits]
      rfl

theorem accepts_candidate (target : Target) (name : String) (number : Nat) :
    target.accepts (candidate (target.escaped name) number) = true := by
  have parts := all_isNamePart_candidate (target.all_isNamePart_escaped name) number
  have marked := hasSafeMark_candidate (target.hasSafeMark_escaped name) number
  exact Target.accepts_of_hasSafeMark marked parts

/-! ## Answers of a table -/

/-- After any history the answer to a request is valid, unless it is a name that is kept as it is
written and that the target does not accept. -/
theorem accepts_serve
    (requests : List NameRequest) (request : NameRequest)
    (kept : request.escapes target = false → target.accepts request.name = true) :
    target.accepts ((serveAll target requests {}).serve target request).1 = true := by
  cases escapes : request.escapes target with
  | false =>
      rw [serve_of_kept escapes]
      exact kept escapes
  | true =>
      obtain ⟨number, isCandidate⟩ := exists_candidate_of_serve requests escapes
      rw [isCandidate]
      exact accepts_candidate target request.name number

theorem accepts_serve_mangle (requests : List NameRequest) (name : String) :
    target.accepts ((serveAll target requests {}).serve target (.mangle name)).1 = true :=
  accepts_serve requests (.mangle name) Target.accepts_of_safe

end NameTable

end NameLowering
