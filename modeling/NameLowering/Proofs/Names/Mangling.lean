import NameLowering.Proofs.Names.ExportsTable
import NameLowering.Proofs.Names.Validity

/-!
# Mangled names

Whatever a table was asked for before, it mangles a safe name to the name itself and any other name
to one of the candidates for its escape. No candidate clashes with a word of the language, a global
of the standard library or a name that generated code keeps for itself.
-/

namespace NameLowering

/-- What is asked of the output name of a name that has to be escaped. -/
structure Target.IsEscapeOf (target : Target) (name output : String) : Prop where
  different : output ≠ name
  marked : hasSafeMark output = true
  accepted : target.accepts output = true
  notReserved : Lua.isReservedWord output = false
  notGlobal : Lua.isStandardGlobal output = false
  notExports : output ≠ Lua.exportsTable
  /-- The empty name alone may be escaped to the mark and nothing else. -/
  notPlaceholder : name ≠ "" → output ≠ Lua.placeholderName

namespace NameTable

variable {target : Target} {name : String}

theorem candidate_ne_placeholderName (target : Target) (nonempty : name ≠ "") (number : Nat) :
    candidate (target.escaped name) number ≠ Lua.placeholderName := by
  have positive : 0 < name.length := by
    apply Nat.pos_of_ne_zero
    intro isZero
    exact nonempty (String.length_eq_zero_iff.mp isZero)
  have escapedLonger := target.add_length_le_length_escaped name
  have candidateLonger := length_le_length_candidate (target.escaped name) number
  -- An escape is made of the mark and what stands for each character of the name.
  have sameLength : Lua.placeholderName.length = Lua.safeMark.length := rfl
  intro same
  rw [same] at candidateLonger
  omega

theorem isEscapeOf_candidate (unsafeName : target.mustEscape name = true) (number : Nat) :
    target.IsEscapeOf name (candidate (target.escaped name) number) where
  different same := by
    have longer := length_lt_length_candidate target name number
    rw [same] at longer
    exact Nat.lt_irrefl _ longer
  marked := hasSafeMark_candidate (target.hasSafeMark_escaped name) number
  accepted := accepts_candidate target name number
  notReserved := Target.isReservedWord_eq_false_of_accepts (accepts_candidate target name number)
  notGlobal :=
    Target.isStandardGlobal_eq_false_of_hasSafeMark
      (hasSafeMark_candidate (target.hasSafeMark_escaped name) number)
  notExports := candidate_ne_exportsTable unsafeName number
  notPlaceholder nonempty := candidate_ne_placeholderName target nonempty number

/-- After any history, a name is mangled to itself if it is safe, and to a proper escape if not. -/
theorem mangle_after_history (target : Target) (requests : List NameRequest) (name : String) :
    (target.mustEscape name = false →
      ((serveAll target requests {}).mangle target name).1 = name) ∧
    (target.mustEscape name = true →
      target.IsEscapeOf name ((serveAll target requests {}).mangle target name).1) := by
  constructor
  · intro safe
    rw [mangle, safe]
    rfl
  · intro unsafeName
    have escapes : (NameRequest.mangle name).escapes target = true := unsafeName
    obtain ⟨number, isCandidate⟩ := exists_candidate_of_serve requests escapes
    change target.IsEscapeOf name
      ((serveAll target requests {}).serve target (.mangle name)).1
    rw [isCandidate]
    exact isEscapeOf_candidate unsafeName number

/-- A digit at the start, a character of no identifier and a name that got in the way. -/
theorem mangle_after_history_collision :
    Target.universal.mustEscape "9-" = true ∧
      Target.universal.IsEscapeOf "9-" "____9_2D_1" := by
  refine ⟨by decide, ?_⟩
  have escapes :=
    (mangle_after_history .universal [.reserve "____9_2D", .assign "exports"] "9-").2 (by decide)
  have output :
      ((serveAll .universal [.reserve "____9_2D", .assign "exports"] {}).mangle .universal
        "9-").1 = "____9_2D_1" := by
    decide +kernel
  rwa [output] at escapes

end NameTable

end NameLowering
