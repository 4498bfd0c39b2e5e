import Mathlib
import NameLowering.Options
import NameLowering.Proofs.Json.Objects

/-!
# Options on their own and in a section

A configuration gives the same options as the text of its section alone, or fails as that does. It
does not matter what else it says, in which order, how often, and with which blanks, as long as no
other section has the same key. A missing section and one that is null give the default options.
-/

namespace NameLowering

/-! ## Members by their keys -/

namespace Json

/-- The member has a key, and another one than `key`. -/
def Member.IsOther (key : String) (member : Member) : Prop :=
  ∃ name, member.1 = some name ∧ name ≠ key

variable {key : String} {value : Value} {members before after : List Member}

theorem all_isSome_of_others (others : ∀ member ∈ members, Member.IsOther key member) :
    members.all (·.1.isSome) = true := by
  rw [List.all_eq_true]
  intro member isMember
  obtain ⟨name, isName, _⟩ := others member isMember
  rw [isName]
  rfl

theorem filter_of_others (others : ∀ member ∈ members, Member.IsOther key member) :
    members.filter (·.1 == some key) = [] := by
  rw [List.filter_eq_nil_iff]
  intro member isMember isKey
  obtain ⟨name, isName, different⟩ := others member isMember
  rw [isName, beq_iff_eq] at isKey
  exact different (Option.some.inj isKey)

theorem memberAt?_of_others (others : ∀ member ∈ members, Member.IsOther key member) :
    memberAt? key members = some none := by
  rw [memberAt?, if_pos (all_isSome_of_others others), filter_of_others others]

theorem memberAt?_insert (others : ∀ member ∈ before ++ after, Member.IsOther key member) :
    memberAt? key (before ++ (some key, value) :: after) = some (some value) := by
  rw [List.forall_mem_append] at others
  obtain ⟨othersBefore, othersAfter⟩ := others
  have named : (before ++ (some key, value) :: after).all (·.1.isSome) = true := by
    rw [List.all_append, List.all_cons, all_isSome_of_others othersBefore,
      all_isSome_of_others othersAfter]
    rfl
  have found : (before ++ (some key, value) :: after).filter (·.1 == some key) =
      [(some key, value)] := by
    rw [List.filter_append, filter_of_others othersBefore, List.nil_append, List.filter_cons,
      beq_self_eq_true, if_pos rfl, filter_of_others othersAfter]
  rw [memberAt?, if_pos named, found]

/-- An object is malformed where a key is no sequence of characters, and for a key that stands more
than once. -/
theorem memberAt?_eq_none_iff :
    memberAt? key members = none ↔
      (∃ member ∈ members, member.1 = none) ∨ 1 < members.countP (·.1 == some key) := by
  rw [memberAt?, List.countP_eq_length_filter]
  by_cases named : members.all (·.1.isSome) = true
  · rw [if_pos named]
    have noneUnnamed : ¬ ∃ member ∈ members, member.1 = none := by
      rintro ⟨member, isMember, unnamed⟩
      have isNamed := List.all_eq_true.mp named member isMember
      rw [unnamed] at isNamed
      contradiction
    rw [or_iff_right noneUnnamed]
    cases members.filter (·.1 == some key) with
    | nil =>
        simp
    | cons _ others =>
        cases others <;> simp
  · rw [if_neg named]
    have unnamed : ∃ member ∈ members, member.1 = none := by
      simpa using named
    exact iff_of_true rfl (Or.inl unnamed)

/-- The entry spells a member that has another key than `key`. -/
def Entry.IsOther (key : String) (entry : Entry) : Prop :=
  ∃ name value, name ≠ key ∧ entry.Spells (some name, value)

theorem exists_members_of_others {entries : List Entry}
    (others : ∀ entry ∈ entries, entry.IsOther key) :
    ∃ members, List.Forall₂ Entry.Spells entries members ∧
      ∀ member ∈ members, Member.IsOther key member := by
  induction entries with
  | nil =>
      exact ⟨[], .nil, by simp⟩
  | cons entry rest inductionHypothesis =>
      rw [List.forall_mem_cons] at others
      obtain ⟨⟨name, value, different, spells⟩, restOthers⟩ := others
      obtain ⟨members, restSpells, membersOther⟩ := inductionHypothesis restOthers
      exact ⟨(some name, value) :: members, .cons spells restSpells,
        List.forall_mem_cons.mpr ⟨⟨name, rfl, different⟩, membersOther⟩⟩

end Json

/-! ## Configurations -/

namespace Options

open Json

variable {text : String} {value settings : Value} {members : List Member}

theorem ofConfigValue?_of_missing (missing : value.setting? "tstl" = some none) :
    ofConfigValue? value = some {} := by
  rw [ofConfigValue?, missing]
  rfl

theorem ofConfigValue?_of_null (found : value.setting? "tstl" = some (some .null)) :
    ofConfigValue? value = some {} := by
  rw [ofConfigValue?, found]
  rfl

theorem ofConfigValue?_of_setting (found : value.setting? "tstl" = some (some settings))
    (notNull : settings ≠ .null) :
    ofConfigValue? value = ofValue? settings := by
  rw [ofConfigValue?, found]
  cases settings
  case null =>
    exact absurd rfl notNull
  all_goals
    rfl

theorem parse_eq (spells : Value.parse? text = some value) :
    parse text = (ofValue? value).elim (.error .malformed) .ok := by
  rw [parse, spells, Option.bind_some]
  cases ofValue? value <;> rfl

theorem parseConfig_eq (spells : Value.parse? text = some value) :
    parseConfig text = (ofConfigValue? value).elim (.error .malformed) .ok := by
  rw [parseConfig, spells, Option.bind_some]
  cases ofConfigValue? value <;> rfl

section Objects

variable {opening closing : String} {entries before after : List Entry} {own : Entry}

/-- A configuration with a key that is no sequence of characters, or with more than one section of
options, is malformed. -/
theorem parseConfig_eq_malformed (opens : tokens? opening.toList = some [.openObject])
    (closes : tokens? closing.toList = some [.closeObject])
    (spells : List.Forall₂ Entry.Spells entries members)
    (unreadable : (∃ member ∈ members, member.1 = none) ∨
      1 < members.countP (·.1 == some "tstl")) :
    parseConfig (objectText opening entries closing) = .error .malformed := by
  have noSetting : (Value.object members).setting? "tstl" = none :=
    memberAt?_eq_none_iff.mpr unreadable
  rw [parseConfig_eq (parse?_objectText opens closes spells), ofConfigValue?, noSetting]
  rfl

/-- The section may stand anywhere among the members of the configuration, of which the keys are
texts other than its own. -/
theorem parseConfig_objectText (opens : tokens? opening.toList = some [.openObject])
    (closes : tokens? closing.toList = some [.closeObject])
    (others : ∀ entry ∈ before ++ after, entry.IsOther "tstl")
    (spells : own.Spells (some "tstl", settings)) :
    (settings ≠ .null →
      parseConfig (objectText opening (before ++ own :: after) closing) = parse own.value) ∧
    (settings = .null →
      parseConfig (objectText opening (before ++ own :: after) closing) = .ok {}) ∧
    parseConfig (objectText opening (before ++ after) closing) = .ok {} := by
  rw [List.forall_mem_append] at others
  obtain ⟨membersBefore, spellsBefore, othersBefore⟩ := exists_members_of_others others.1
  obtain ⟨membersAfter, spellsAfter, othersAfter⟩ := exists_members_of_others others.2
  have allOthers : ∀ member ∈ membersBefore ++ membersAfter, Member.IsOther "tstl" member :=
    List.forall_mem_append.mpr ⟨othersBefore, othersAfter⟩
  have withSection := parse?_objectText opens closes
    (List.rel_append spellsBefore (.cons spells spellsAfter))
  have withoutSection := parse?_objectText opens closes (List.rel_append spellsBefore spellsAfter)
  have found : (Value.object (membersBefore ++ (some "tstl", settings) :: membersAfter)).setting?
      "tstl" = some (some settings) := memberAt?_insert allOthers
  have missing : (Value.object (membersBefore ++ membersAfter)).setting? "tstl" = some none :=
    memberAt?_of_others allOthers
  refine ⟨fun notNull => ?_, ?_, ?_⟩
  · rw [parseConfig_eq withSection, ofConfigValue?_of_setting found notNull, parse_eq spells.value]
  · rintro rfl
    rw [parseConfig_eq withSection, ofConfigValue?_of_null found]
    rfl
  · rw [parseConfig_eq withoutSection, ofConfigValue?_of_missing missing]
    rfl

/-- A configuration with blanks, an escape in the key of the section, the section as an array, a key
that stands twice, and a text of half a surrogate pair. -/
theorem parseConfig_objectText_arraySection :
    parseConfig (objectText " \x7b\n" ([⟨" \"files\" ", "[1.5e3, \x7b\x7d ] "⟩] ++
      ⟨"\"ts\\u0074l\"", " [ \"5.1\" ]\t"⟩ :: [⟨"\"files\"", "\"\\ud800\""⟩]) "\x7d\r\n") =
        parse " [ \"5.1\" ]\t" ∧
      parse " [ \"5.1\" ]\t" = .ok { target := .lua51 } := by
  have others : ∀ entry ∈ [Entry.mk " \"files\" " "[1.5e3, \x7b\x7d ] "] ++
      [Entry.mk "\"files\"" "\"\\ud800\""], entry.IsOther "tstl" := by
    intro entry isEntry
    simp only [List.cons_append, List.nil_append, List.mem_cons, List.not_mem_nil, or_false]
      at isEntry
    rcases isEntry with rfl | rfl
    · exact ⟨"files", .array [.number, .object []], by decide, by cbv, by cbv⟩
    · exact ⟨"files", .text none, by decide, by cbv, by cbv⟩
  have isSection : (Entry.mk "\"ts\\u0074l\"" " [ \"5.1\" ]\t").Spells
      (some "tstl", .array [.text (some "5.1")]) := ⟨by cbv, by cbv⟩
  exact ⟨(parseConfig_objectText (by cbv) (by cbv) others isSection).1 (by simp), by cbv⟩

end Objects

end Options

end NameLowering
