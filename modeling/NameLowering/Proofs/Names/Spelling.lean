import NameLowering.Names.Spelling

/-!
# Laws of spelling

A safe name never starts with the mark of escaped names, while an escaped name always does and is
longer than the name it stands for. So a safe name and an escaped one are never the same.
-/

namespace NameLowering.Target

/-! ## The mark -/

theorem hasSafeMark_append
    {name : String} (marked : hasSafeMark name = true) (rest : String) :
    hasSafeMark (name ++ rest) = true := by
  unfold hasSafeMark at marked ⊢
  rw [List.isPrefixOf_iff_prefix] at marked ⊢
  rw [String.toList_append]
  exact marked.trans (List.prefix_append name.toList rest.toList)

theorem hasSafeMark_escaped (target : Target) (name : String) :
    hasSafeMark (target.escaped name) = true :=
  hasSafeMark_append (by decide) (target.escapeChars name)

/-- A name that carries the mark already is escaped again. -/
theorem mustEscape_of_hasSafeMark
    {name : String} (target : Target) (marked : hasSafeMark name = true) :
    target.mustEscape name = true := by
  unfold mustEscape
  rw [marked, Bool.or_true]

theorem hasSafeMark_eq_false_of_safe
    {target : Target} {name : String} (safe : target.mustEscape name = false) :
    hasSafeMark name = false := by
  cases marked : hasSafeMark name with
  | false =>
      rfl
  | true =>
      rw [mustEscape_of_hasSafeMark target marked] at safe
      contradiction

/-- A list of words that do not carry the mark holds no name that does. -/
theorem contains_eq_false_of_hasSafeMark
    {words : List String} {name : String} (marked : hasSafeMark name = true)
    (unmarked : ∀ word ∈ words, hasSafeMark word = false) :
    words.contains name = false := by
  cases listed : words.contains name with
  | false =>
      rfl
  | true =>
      have member : name ∈ words := by simpa using listed
      rw [unmarked name member] at marked
      contradiction

theorem isReservedWord_eq_false_of_hasSafeMark
    {name : String} (marked : hasSafeMark name = true) :
    Lua.isReservedWord name = false :=
  contains_eq_false_of_hasSafeMark marked (by decide)

theorem isStandardGlobal_eq_false_of_hasSafeMark
    {name : String} (marked : hasSafeMark name = true) :
    Lua.isStandardGlobal name = false :=
  contains_eq_false_of_hasSafeMark marked (by decide)

/-! ## Lengths -/

/-- No character is escaped to nothing. -/
theorem length_escapeChar_pos (target : Target) (c : Char) :
    0 < (target.escapeChar c).length := by
  unfold escapeChar codePointEscape
  split <;> simp

theorem length_le_flatMap_escapeChar (target : Target) (chars : List Char) :
    chars.length ≤ (chars.flatMap target.escapeChar).length := by
  induction chars with
  | nil =>
      exact Nat.zero_le _
  | cons first rest inductionHypothesis =>
      have firstPositive := length_escapeChar_pos target first
      rw [List.flatMap_cons, List.length_append, List.length_cons]
      omega

/-- Escaping adds the mark to a name and drops nothing of it. -/
theorem add_length_le_length_escaped (target : Target) (name : String) :
    Lua.safeMark.length + name.length ≤ (target.escaped name).length := by
  have kept := length_le_flatMap_escapeChar target name.toList
  rw [String.length_toList] at kept
  rw [escaped, escapeChars, String.length_append, String.length_ofList]
  omega

/-! ## Accepted names -/

theorem isNamePart_of_isNameStart {target : Target} {c : Char}
    (start : target.isNameStart c = true) :
    target.isNamePart c = true := by
  rw [isNamePart, start, Bool.true_or]

theorem lt_toNat_of_isAlpha {c : Char} (alpha : c.isAlpha = true) : '9'.toNat < c.toNat := by
  have letter : (c.isUpper || c.isLower) = true := alpha
  rcases Bool.or_eq_true_iff.mp letter with upper | lower
  · have capital : c.val ≥ 'A'.val ∧ c.val ≤ 'Z'.val := of_decide_eq_true upper
    exact Nat.lt_of_lt_of_le (by decide) (UInt32.le_iff_toNat_le.mp capital.1)
  · have start : decide (c.val ≥ 'a'.val) = true := (Bool.and_eq_true_iff.mp lower).1
    exact Nat.lt_of_lt_of_le (by decide) (UInt32.le_iff_toNat_le.mp (of_decide_eq_true start))

theorem isDigit_eq_false_of_isNameStart {target : Target} {c : Char}
    (start : target.isNameStart c = true) :
    c.isDigit = false := by
  have beyond : '9'.toNat < c.toNat := by
    simp only [isNameStart, Bool.or_eq_true, Bool.and_eq_true, beq_iff_eq,
      decide_eq_true_eq] at start
    rcases start with (alpha | underscore) | outside
    · exact lt_toNat_of_isAlpha alpha
    · rw [underscore]
      decide
    · exact Nat.lt_of_lt_of_le (by decide) outside.1
  have notAtMost : decide (c.val ≤ '9'.val) = false := by
    rw [decide_eq_false_iff_not, UInt32.le_iff_toNat_le]
    exact Nat.not_le_of_lt beyond
  rw [Char.isDigit, notAtMost, Bool.and_false]

/-- An accepted name starts like a name and has only characters of names. -/
theorem exists_toList_of_accepts
    {target : Target} {name : String} (accepted : target.accepts name = true) :
    ∃ first rest, name.toList = first :: rest ∧ target.isNameStart first = true ∧
      ∀ c ∈ first :: rest, target.isNamePart c = true := by
  unfold accepts at accepted
  cases characters : name.toList with
  | nil =>
      rw [characters] at accepted
      contradiction
  | cons first rest =>
      rw [characters] at accepted
      simp only [Bool.and_eq_true, List.all_eq_true] at accepted
      obtain ⟨⟨start, parts⟩, _⟩ := accepted
      exact ⟨first, rest, rfl, start,
        List.forall_mem_cons.mpr ⟨isNamePart_of_isNameStart start, parts⟩⟩

theorem isReservedWord_eq_false_of_accepts
    {target : Target} {name : String} (accepted : target.accepts name = true) :
    Lua.isReservedWord name = false := by
  unfold accepts at accepted
  split at accepted
  · contradiction
  · rw [Bool.and_eq_true, Bool.not_eq_true'] at accepted
    exact accepted.2

end NameLowering.Target
