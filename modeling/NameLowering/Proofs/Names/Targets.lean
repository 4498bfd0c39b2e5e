import Mathlib.Data.List.Basic
import NameLowering.Names.Table

/-!
# Targets that spell alike

Targets differ only in the characters that may stand in names. So two targets that agree on the
characters of a name both accept it or both do not, escape it alike, and get the same output name
for it from the same table.
-/

namespace NameLowering

namespace Target

/-! ## Agreement on characters -/

/-- Two targets agree on which characters of a name may start names. -/
def SpellsLike (left right : Target) (name : String) : Prop :=
  ∀ c ∈ name.toList, left.isNameStart c = right.isNameStart c

variable {left right : Target} {name : String}

theorem SpellsLike.refl (target : Target) (name : String) : target.SpellsLike target name :=
  fun _ _ => rfl

/-- All targets agree on ASCII. -/
theorem SpellsLike.of_ascii (ascii : ∀ c ∈ name.toList, c.toNat < 128) :
    left.SpellsLike right name := by
  intro c member
  have notBeyond : decide (128 ≤ c.toNat) = false := by
    have bound := ascii c member
    simp only [decide_eq_false_iff_not]
    omega
  rw [isNameStart, isNameStart, notBeyond, Bool.false_and, Bool.false_and]

/-- Only the JIT dialect differs from others. -/
theorem SpellsLike.of_ne_luaJit (leftPlain : left ≠ .luaJit) (rightPlain : right ≠ .luaJit) :
    left.SpellsLike right name := by
  have restricted {target : Target} (plain : target ≠ .luaJit) :
      target.allowsUnicodeNames = false :=
    beq_eq_false_iff_ne.mpr plain
  intro c _
  rw [isNameStart, isNameStart, restricted leftPlain, restricted rightPlain]

namespace SpellsLike

/-! ## Accepted and escaped names -/

theorem isNamePart_eq (alike : left.SpellsLike right name) {c : Char} (member : c ∈ name.toList) :
    left.isNamePart c = right.isNamePart c := by
  rw [isNamePart, isNamePart, alike c member]

theorem accepts_eq (alike : left.SpellsLike right name) :
    left.accepts name = right.accepts name := by
  unfold accepts
  cases chars : name.toList with
  | nil =>
      rfl
  | cons first rest =>
      have member {c : Char} (isLater : c ∈ rest) : c ∈ name.toList := by
        rw [chars]
        exact List.mem_cons_of_mem first isLater
      have start : left.isNameStart first = right.isNameStart first :=
        alike first (by rw [chars]; exact List.mem_cons_self)
      have parts : rest.all left.isNamePart = rest.all right.isNamePart := by
        rw [Bool.eq_iff_iff, List.all_eq_true, List.all_eq_true]
        exact forall₂_congr fun c isLater => by rw [alike.isNamePart_eq (member isLater)]
      simp only [start, parts]

theorem mustEscape_eq (alike : left.SpellsLike right name) :
    left.mustEscape name = right.mustEscape name := by
  rw [mustEscape, mustEscape, alike.accepts_eq]

theorem escaped_eq (alike : left.SpellsLike right name) :
    left.escaped name = right.escaped name := by
  have chars : name.toList.flatMap left.escapeChar = name.toList.flatMap right.escapeChar := by
    refine List.flatMap_congr fun c member => ?_
    rw [escapeChar, escapeChar, alike.isNamePart_eq member]
  rw [escaped, escaped, escapeChars, escapeChars, chars]

end SpellsLike

end Target

/-! ## Output names -/

namespace NameTable

variable {left right : Target} {name : String}

theorem outputName_congr (alike : left.SpellsLike right name) (escape : Bool) (table : NameTable) :
    table.outputName left escape name = table.outputName right escape name := by
  rw [outputName, outputName, assign, assign, alike.escaped_eq]

theorem mangle_congr (alike : left.SpellsLike right name) (table : NameTable) :
    table.mangle left name = table.mangle right name := by
  rw [mangle, mangle, alike.mustEscape_eq, outputName_congr alike]

end NameTable

end NameLowering
