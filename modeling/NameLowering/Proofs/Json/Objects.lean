import Mathlib.Data.List.Forall2
import NameLowering.Json.Value
import NameLowering.Proofs.Json.Tokens

/-!
# Objects and their members

A value is read in the same way whatever is around it. So the text of an object can be put together
from the texts of its keys and values, which may have blanks around them, and spells the object of
the members that these spell.
-/

namespace NameLowering.Json

/-! ## Reading inside of something -/

namespace Reader

/-- The reader with more frames around it. -/
def within (reader : Reader) (frames : List Frame) : Reader :=
  ⟨reader.frames ++ frames, reader.stage⟩

variable {reader next : Reader} {token : Token} {tokens : List Token} {frames inner : List Frame}

theorem startValue_within (started : startValue inner token = some next) :
    startValue (inner ++ frames) token = some (next.within frames) := by
  cases token
  case null | bool | number | text | openArray | openObject =>
    obtain rfl := Option.some.inj started
    rfl
  case closeArray | closeObject | comma | colon =>
    contradiction

theorem continueAfter_within {value : Value}
    (continued : continueAfter value inner token = some next) :
    continueAfter value (inner ++ frames) token = some (next.within frames) := by
  unfold continueAfter at continued
  split at continued
  case h_5 =>
    contradiction
  all_goals
    obtain rfl := Option.some.inj continued
    rfl

/-- The first item of an array begins like any other value. -/
theorem step_firstItem (notEnd : token ≠ .closeArray) (frames : List Frame) :
    step ⟨frames, .firstItem⟩ token = startValue (.array [] :: frames) token := by
  cases token
  case closeArray =>
    exact absurd rfl notEnd
  all_goals
    rfl

/-- A token that can be read is read in the same way inside of something. -/
theorem step_within (stepped : reader.step token = some next) :
    (reader.within frames).step token = some (next.within frames) := by
  obtain ⟨inner, stage⟩ := reader
  cases stage with
  | value =>
      exact startValue_within stepped
  | firstItem =>
      by_cases isEnd : token = .closeArray
      · subst isEnd
        obtain rfl := Option.some.inj stepped
        rfl
      · rw [step_firstItem isEnd] at stepped
        exact (step_firstItem isEnd _).trans (startValue_within stepped)
  | firstKey =>
      cases token
      case closeObject | text =>
        obtain rfl := Option.some.inj stepped
        rfl
      all_goals
        contradiction
  | nextKey done =>
      cases token
      case text =>
        obtain rfl := Option.some.inj stepped
        rfl
      all_goals
        contradiction
  | colon done key =>
      cases token
      case colon =>
        obtain rfl := Option.some.inj stepped
        rfl
      all_goals
        contradiction
  | finished value =>
      exact continueAfter_within stepped

theorem foldlM_within (read : tokens.foldlM step reader = some next) :
    tokens.foldlM step (reader.within frames) = some (next.within frames) := by
  induction tokens generalizing reader with
  | nil =>
      obtain rfl := Option.some.inj read
      rfl
  | cons token rest inductionHypothesis =>
      rw [List.foldlM_cons, Option.bind_eq_bind, Option.bind_eq_some_iff] at read
      obtain ⟨middle, stepped, restRead⟩ := read
      rw [List.foldlM_cons, step_within stepped]
      exact inductionHypothesis restRead

end Reader

/-- The tokens of a value can be read wherever a value is expected. -/
theorem foldlM_of_ofTokens? {tokens : List Token} {value : Value}
    (spells : Value.ofTokens? tokens = some value) (frames : List Frame) :
    tokens.foldlM Reader.step ⟨frames, .value⟩ = some ⟨frames, .finished value⟩ := by
  rw [Value.ofTokens?, Option.bind_eq_bind, Option.bind_eq_some_iff] at spells
  obtain ⟨⟨inner, stage⟩, read, result⟩ := spells
  obtain ⟨rfl, rfl⟩ : inner = [] ∧ stage = .finished value := by
    unfold Reader.result? at result
    split at result
    · rename_i same
      obtain ⟨rfl, rfl⟩ := Reader.mk.inj same
      exact ⟨rfl, congrArg Stage.finished (Option.some.inj result)⟩
    · contradiction
  exact Reader.foldlM_within read

/-! ## Members -/

/-- A member of an object as it is written: its key, which is quoted, and its value. -/
structure Entry where
  key : String
  value : String

/-- What an entry spells. There may be blanks around the key and around the value. -/
structure Entry.Spells (entry : Entry) (member : Member) : Prop where
  key : tokens? entry.key.toList = some [.text member.1]
  value : Value.parse? entry.value = some member.2

def Entry.text (entry : Entry) : String :=
  entry.key ++ ":" ++ entry.value

/-- An object as it is written, with blanks around the opening and the closing brace. -/
def objectText (opening : String) (entries : List Entry) (closing : String) : String :=
  opening ++ ",".intercalate (entries.map Entry.text) ++ closing

variable {entry : Entry} {member : Member} {entries : List Entry} {members : List Member}
  {opening closing : String}

/-! ## Single tokens -/

theorem tokens?_colon (rest : List Char) :
    tokens? (':' :: rest) = (tokens? rest).map (.colon :: ·) :=
  tokens?_cons_of_next rfl rfl

theorem tokens?_comma (rest : List Char) :
    tokens? (',' :: rest) = (tokens? rest).map (.comma :: ·) :=
  tokens?_cons_of_next rfl rfl

/-! ## The members of an object -/

/-- A member can be read where a key is expected. -/
theorem foldlM_member {reader : Reader} {frames : List Frame} {done : List Member}
    {tokens : List Token} {key : Option String} {value : Value}
    (expectsKey : reader.step (.text key) = some ⟨frames, .colon done key⟩)
    (spells : Value.ofTokens? tokens = some value) :
    (.text key :: .colon :: tokens).foldlM Reader.step reader =
      some ⟨.object done key :: frames, .finished value⟩ := by
  rw [List.foldlM_cons, expectsKey]
  exact foldlM_of_ofTokens? spells (.object done key :: frames)

theorem Entry.Spells.exists_tokens (spells : entry.Spells member) :
    ∃ valueTokens, Value.ofTokens? valueTokens = some member.2 ∧
      ∀ rest later, EndsNumeral rest → tokens? rest = some later →
        tokens? (entry.text.toList ++ rest) =
          some (.text member.1 :: .colon :: valueTokens ++ later) := by
  have valueSpells := spells.value
  rw [Value.parse?, Option.bind_eq_bind, Option.bind_eq_some_iff] at valueSpells
  obtain ⟨valueTokens, found, isValue⟩ := valueSpells
  refine ⟨valueTokens, isValue, fun rest later ends restFound => ?_⟩
  have chars : entry.text.toList ++ rest =
      entry.key.toList ++ ':' :: (entry.value.toList ++ rest) := by
    simp [Entry.text]
  rw [chars, tokens?_append (endsNumeral_cons (by decide) _) spells.key, tokens?_colon,
    tokens?_append ends found, restFound]
  rfl

/-- The members of an object up to its end, from the first key on. -/
theorem exists_tokens_of_entries (closes : tokens? closing.toList = some [.closeObject])
    (spells : List.Forall₂ Entry.Spells (entry :: entries) members) :
    ∃ tokens, tokens? ((",".intercalate ((entry :: entries).map Entry.text)).toList ++
        closing.toList) = some tokens ∧ tokens.head? ≠ some .number ∧
      ∀ reader frames done,
        (∀ key, Reader.step reader (.text key) = some ⟨frames, .colon done key⟩) →
          tokens.foldlM Reader.step reader =
            some ⟨frames, .finished (.object (done.reverse ++ members))⟩ := by
  induction entries generalizing entry members with
  | nil =>
      obtain ⟨member, _, isMember, isEnd, rfl⟩ := List.forall₂_cons_left_iff.mp spells
      obtain rfl := List.forall₂_nil_left_iff.mp isEnd
      obtain ⟨valueTokens, isValue, found⟩ := isMember.exists_tokens
      refine ⟨.text member.1 :: .colon :: valueTokens ++ [.closeObject], ?_, by simp,
        fun reader frames done expectsKey => ?_⟩
      · rw [List.map_singleton, String.intercalate_singleton]
        exact found _ _ (endsNumeral_of_tokens? closes (by simp)) closes
      · rw [List.foldlM_append, foldlM_member (expectsKey member.1) isValue]
        change some _ = _
        rw [List.reverse_cons]
  | cons next rest inductionHypothesis =>
      obtain ⟨member, later, isMember, restSpells, rfl⟩ := List.forall₂_cons_left_iff.mp spells
      obtain ⟨valueTokens, isValue, found⟩ := isMember.exists_tokens
      obtain ⟨restTokens, restFound, _, restRead⟩ := inductionHypothesis restSpells
      refine ⟨.text member.1 :: .colon :: valueTokens ++ .comma :: restTokens, ?_, by simp,
        fun reader frames done expectsKey => ?_⟩
      · have chars : (",".intercalate ((entry :: next :: rest).map Entry.text)).toList ++
              closing.toList =
            entry.text.toList ++
              ',' :: ((",".intercalate ((next :: rest).map Entry.text)).toList ++
                closing.toList) := by
          rw [List.map_cons, List.map_cons, String.intercalate_cons_cons]
          simp
        rw [chars]
        apply found _ _ (endsNumeral_cons (by decide) _)
        rw [tokens?_comma, restFound]
        rfl
      · rw [List.foldlM_append, foldlM_member (expectsKey member.1) isValue]
        change restTokens.foldlM Reader.step ⟨frames, .nextKey (member :: done)⟩ = _
        rw [restRead _ frames (member :: done) fun _ => rfl, List.reverse_cons, List.append_assoc]
        rfl

/-- An object that is put together from entries spells their members. -/
theorem parse?_objectText (opens : tokens? opening.toList = some [.openObject])
    (closes : tokens? closing.toList = some [.closeObject])
    (spells : List.Forall₂ Entry.Spells entries members) :
    Value.parse? (objectText opening entries closing) = some (.object members) := by
  obtain ⟨tokens, found, notNumber, read⟩ : ∃ tokens,
      tokens? ((",".intercalate (entries.map Entry.text)).toList ++ closing.toList) =
        some tokens ∧ tokens.head? ≠ some .number ∧
      tokens.foldlM Reader.step ⟨[], .firstKey⟩ = some ⟨[], .finished (.object members)⟩ := by
    cases entries with
    | nil =>
        obtain rfl := List.forall₂_nil_left_iff.mp spells
        exact ⟨[.closeObject], closes, by simp, rfl⟩
    | cons entry rest =>
        obtain ⟨tokens, found, notNumber, read⟩ := exists_tokens_of_entries closes spells
        exact ⟨tokens, found, notNumber, read _ [] [] fun _ => rfl⟩
  have ends : EndsNumeral _ := endsNumeral_of_tokens? found notNumber
  have whole :
      tokens? (objectText opening entries closing).toList = some (.openObject :: tokens) := by
    rw [objectText, String.toList_append, String.toList_append, List.append_assoc,
      tokens?_append ends opens, found]
    rfl
  have readWhole : (Token.openObject :: tokens).foldlM Reader.step {} =
      some ⟨[], .finished (.object members)⟩ := read
  rw [Value.parse?, whole]
  change Value.ofTokens? (.openObject :: tokens) = _
  rw [Value.ofTokens?, readWhole]
  rfl

end NameLowering.Json
