import NameLowering.Proofs.Names.Overtaking

/-!
# The name of the table of exports

The table that holds the exports of a module file has a fixed name, which carries the mark of
escaped names. No other name is ever mangled to it. A safe name does not carry the mark, an escape
without a further underscore is that of a safe name, and a numbered candidate ends in a digit.
-/

namespace NameLowering

namespace Target

variable {target : Target} {name : String}

/-- A character is kept, or its escape has an underscore in it. -/
theorem escapeChar_eq_or_mem (target : Target) (c : Char) :
    target.escapeChar c = [c] ∨ '_' ∈ target.escapeChar c := by
  by_cases isPart : target.isNamePart c = true
  · exact Or.inl (by rw [escapeChar, if_pos isPart])
  · exact Or.inr (by rw [escapeChar, if_neg isPart, codePointEscape]; exact List.mem_cons_self)

/-- An escape without an underscore leaves everything as it is. -/
theorem flatMap_escapeChar_eq_self {chars : List Char}
    (plain : '_' ∉ chars.flatMap target.escapeChar) :
    chars.flatMap target.escapeChar = chars := by
  induction chars with
  | nil =>
      rfl
  | cons first rest inductionHypothesis =>
      rw [List.flatMap_cons, List.mem_append, not_or] at plain
      have firstKept : target.escapeChar first = [first] :=
        (escapeChar_eq_or_mem target first).resolve_right plain.1
      have restKept := inductionHypothesis plain.2
      rw [List.flatMap_cons, firstKept, restKept, List.singleton_append]

/-- The name whose escape would be the table of exports is safe. -/
theorem escaped_ne_exportsTable (unsafeName : target.mustEscape name = true) :
    target.escaped name ≠ Lua.exportsTable := by
  intro same
  have marked : Lua.exportsTable = Lua.safeMark ++ "exports" := by decide
  have escapes : target.escapeChars name = "exports" := by
    rw [marked, escaped] at same
    exact (String.append_right_inj Lua.safeMark).mp same
  have chars : name.toList.flatMap target.escapeChar = "exports".toList := by
    rw [← escapes, escapeChars, String.toList_ofList]
  have plain : '_' ∉ name.toList.flatMap target.escapeChar := by
    rw [chars]
    decide
  have isExports : name = "exports" := by
    rw [← String.toList_inj, ← chars, flatMap_escapeChar_eq_self plain]
  have safe : target.mustEscape "exports" = false := by
    cases target <;> decide
  rw [isExports, safe] at unsafeName
  contradiction

end Target

namespace NameTable

variable {target : Target} {name output : String}

theorem candidate_ne_exportsTable (unsafeName : target.mustEscape name = true) (number : Nat) :
    candidate (target.escaped name) number ≠ Lua.exportsTable := by
  cases number with
  | zero =>
      exact Target.escaped_ne_exportsTable unsafeName
  | succ number =>
      intro same
      have digits : (toString (number + 1)).toList = Nat.toDigits 10 (number + 1) := by
        rw [Nat.toString_eq_repr, Nat.toList_repr]
      have nonempty : Nat.toDigits 10 (number + 1) ≠ [] := Nat.toDigits_ne_nil
      have lastIsDigit :
          ((Nat.toDigits 10 (number + 1)).getLast nonempty).isDigit = true :=
        Nat.isDigit_of_mem_toDigits (by decide) (by decide) (List.getLast_mem nonempty)
      have ending : Lua.exportsTable.toList.getLast? = some 's' := by decide
      rw [← same, candidate, String.toList_append, digits,
        List.getLast?_append_of_ne_nil _ nonempty, List.getLast?_eq_some_getLast nonempty,
        Option.some.injEq] at ending
      rw [ending] at lastIsDigit
      contradiction

/-- No history leads to a table that knows the table of exports as a mangled name. -/
theorem Knows.output_ne_exportsTable {requests : List NameRequest}
    (known : Knows target (serveAll target requests {}) ⟨.mangle name, output⟩) :
    output ≠ Lua.exportsTable := by
  cases escapes : target.mustEscape name with
  | true =>
      have assigned : (serveAll target requests {}).assigned? name = some output :=
        known.escaped escapes
      obtain ⟨number, rfl⟩ := exists_candidate_of_assigned? assigned
      exact candidate_ne_exportsTable escapes number
  | false =>
      have kept : output = name := known.kept escapes
      have unmarked := Target.hasSafeMark_eq_false_of_safe escapes
      have marked : Target.hasSafeMark Lua.exportsTable = true := by decide
      intro same
      rw [← kept, same, marked] at unmarked
      contradiction

end NameTable

end NameLowering
