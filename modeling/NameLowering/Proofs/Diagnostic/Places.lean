import Mathlib.Data.List.Infix
import NameLowering.Diagnostic.Template
import NameLowering.Proofs.Names.Candidates

/-!
# Places in a text

A place begins with an opening brace and has no other one, so no two places overlap and a text splits
at each of its places. Counting the places and filling them in one pass go along with that splitting.
-/

namespace NameLowering.Template

/-- Fills the places that have one of the given numbers, in one pass over the text. The first `skip`
characters are passed over: they belong to the place filled last. -/
def fillPlacesFrom (arguments : List (String × Nat)) : (skip : Nat) → List Char → List Char
  | _, [] => []
  | skip + 1, _ :: rest => fillPlacesFrom arguments skip rest
  | 0, c :: rest =>
    match arguments.find? fun argument => (place argument.2).isPrefixOf (c :: rest) with
    | some argument =>
      argument.1.toList ++ fillPlacesFrom arguments ((place argument.2).length - 1) rest
    | none => c :: fillPlacesFrom arguments 0 rest

def fillPlaces (arguments : List (String × Nat)) (text : List Char) : List Char :=
  fillPlacesFrom arguments 0 text

/-- How often a text has the place with a number. -/
def countPlaces (number : Nat) (text : List Char) : Nat :=
  text.tails.countP (place number).isPrefixOf

variable {arguments : List (String × Nat)} {number other : Nat}
  {before text after more : List Char}

/-! ## Places in a text -/

/-- The text of a place between its braces. -/
def digitsOf (number : Nat) : List Char :=
  (toString number).toList

theorem place_eq_cons (number : Nat) :
    place number = '\x7b' :: (digitsOf number ++ ['\x7d']) :=
  rfl

theorem isDigit_of_mem_digitsOf {c : Char} (member : c ∈ digitsOf number) : c.isDigit = true := by
  rw [digitsOf, Nat.toString_eq_repr, Nat.toList_repr] at member
  exact Nat.isDigit_of_mem_toDigits (by decide) (by decide) member

theorem opening_notMem_tail : '\x7b' ∉ digitsOf number ++ ['\x7d'] := by
  intro member
  rcases List.mem_append.mp member with isDigit | isClosing
  · exact absurd (isDigit_of_mem_digitsOf isDigit) (by decide)
  · exact absurd isClosing (by decide)

/-- Only the first character of a place is an opening brace. -/
theorem opening_notMem_of_place_eq (equal : before ++ more = place number) (nonempty : before ≠ []) :
    '\x7b' ∉ more := by
  obtain ⟨first, rest, rfl⟩ := List.exists_cons_of_ne_nil nonempty
  rw [place_eq_cons, List.cons_append, List.cons.injEq] at equal
  intro member
  have inTail := List.mem_append_right rest member
  rw [equal.2] at inTail
  exact opening_notMem_tail inTail

theorem length_lt_length_place_append (number : Nat) (after : List Char) :
    after.length < (place number ++ after).length := by
  rw [place_eq_cons, List.cons_append, List.length_cons, List.length_append]
  omega

/-- Two different places are never at the same spot. -/
theorem eq_of_place_prefix (isPrefix : place number <+: place other ++ after) : number = other := by
  have upToClosing (number : Nat) (more : List Char) :
      (digitsOf number ++ '\x7d' :: more).takeWhile (· ≠ '\x7d') = digitsOf number := by
    rw [List.takeWhile_append_of_pos]
    · simp
    · intro c member
      have isDigit := isDigit_of_mem_digitsOf member
      by_cases closing : c = '\x7d'
      · rw [closing] at isDigit
        exact absurd isDigit (by decide)
      · simpa using closing
  obtain ⟨more, equal⟩ := isPrefix
  simp only [place_eq_cons, List.cons_append, List.cons.injEq, true_and, List.append_assoc,
    List.nil_append] at equal
  have sameDigits : digitsOf number = digitsOf other := by
    rw [← upToClosing number more, equal, upToClosing]
  exact NameTable.toString_nat_injective (String.toList_injective sameDigits)

theorem isPrefixOf_place_append (number other : Nat) (after : List Char) :
    (place number).isPrefixOf (place other ++ after) = (number == other) := by
  rw [Bool.eq_iff_iff, List.isPrefixOf_iff_prefix, beq_iff_eq]
  constructor
  · exact eq_of_place_prefix
  · rintro rfl
    exact List.prefix_append _ _

/-- No place starts before another one and ends inside it. -/
theorem isPrefixOf_append_place (nonempty : before ≠ []) (number other : Nat) (after : List Char) :
    (place number).isPrefixOf (before ++ (place other ++ after)) =
      (place number).isPrefixOf before := by
  rw [Bool.eq_iff_iff, List.isPrefixOf_iff_prefix, List.isPrefixOf_iff_prefix]
  constructor
  · intro isPrefix
    rcases List.prefix_or_prefix_of_prefix isPrefix (List.prefix_append _ _) with within | beyond
    · exact within
    · obtain ⟨more, equal⟩ := beyond
      rw [← equal, List.prefix_append_right_inj] at isPrefix
      cases more with
      | nil =>
          rw [← equal, List.append_nil]
      | cons c more =>
          -- The place would have the opening brace of the other one inside.
          obtain rfl : c = '\x7b' := (List.cons_prefix_cons.mp isPrefix).1
          exact absurd List.mem_cons_self (opening_notMem_of_place_eq equal nonempty)
  · exact fun isPrefix => isPrefix.trans (List.prefix_append _ _)

theorem isPrefixOf_of_ne {c : Char} (plain : c ≠ '\x7b') :
    (place number).isPrefixOf (c :: text) = false := by
  rw [place_eq_cons, List.isPrefixOf, beq_eq_false_iff_ne.mpr plain.symm, Bool.false_and]

/-! ## Counting the places of a text -/

theorem countPlaces_cons (c : Char) :
    countPlaces number (c :: text) =
      countPlaces number text + if (place number).isPrefixOf (c :: text) then 1 else 0 := by
  rw [countPlaces, List.tails_cons, List.countP_cons, countPlaces]

theorem countPlaces_append_of_plain (plain : '\x7b' ∉ before) :
    countPlaces number (before ++ after) = countPlaces number after := by
  induction before with
  | nil =>
      rfl
  | cons c rest inductionHypothesis =>
      obtain ⟨notOpening, restPlain⟩ := List.ne_and_not_mem_of_not_mem_cons plain
      rw [List.cons_append, countPlaces_cons, isPrefixOf_of_ne notOpening.symm,
        inductionHypothesis restPlain]
      rfl

theorem countPlaces_place_append :
    countPlaces number (place other ++ after) =
      (if number = other then 1 else 0) + countPlaces number after := by
  have here := isPrefixOf_place_append number other after
  rw [place_eq_cons other, List.cons_append] at here ⊢
  rw [countPlaces_cons, here, countPlaces_append_of_plain opening_notMem_tail, Nat.add_comm]
  simp only [beq_iff_eq]

theorem countPlaces_append_place :
    countPlaces number (before ++ (place other ++ after)) =
      countPlaces number before + countPlaces number (place other ++ after) := by
  induction before with
  | nil =>
      simp [countPlaces, place_eq_cons, List.isPrefixOf]
  | cons c rest inductionHypothesis =>
      have here := isPrefixOf_append_place (List.cons_ne_nil c rest) number other after
      rw [List.cons_append] at here ⊢
      rw [countPlaces_cons, countPlaces_cons, here, inductionHypothesis]
      omega

theorem countPlaces_split (number : Nat) (before after : List Char) :
    countPlaces number (before ++ (place number ++ after)) =
      countPlaces number before + countPlaces number after + 1 := by
  rw [countPlaces_append_place, countPlaces_place_append, if_pos rfl]
  omega

/-- A text lacks a place, or splits at the first one. -/
theorem countPlaces_eq_zero_or_split (number : Nat) (text : List Char) :
    countPlaces number text = 0 ∨
      ∃ before after, text = before ++ (place number ++ after) ∧ countPlaces number before = 0 := by
  induction text with
  | nil =>
      exact Or.inl rfl
  | cons c rest inductionHypothesis =>
      by_cases here : (place number).isPrefixOf (c :: rest)
      · obtain ⟨after, equal⟩ := List.isPrefixOf_iff_prefix.mp here
        exact Or.inr ⟨[], after, equal.symm, rfl⟩
      · rcases inductionHypothesis with lacking | ⟨before, after, rfl, lacking⟩
        · left
          rw [countPlaces_cons, if_neg here, lacking]
        · right
          rw [← List.cons_append, isPrefixOf_append_place (List.cons_ne_nil c before)] at here
          refine ⟨c :: before, after, rfl, ?_⟩
          rw [countPlaces_cons, if_neg here, lacking]

/-- Induction that takes the places of one number from left to right. -/
@[elab_as_elim]
theorem induction_at_places (number : Nat) {motive : List Char → Prop}
    (none : ∀ text, countPlaces number text = 0 → motive text)
    (some : ∀ before after, countPlaces number before = 0 → motive after →
      motive (before ++ (place number ++ after)))
    (text : List Char) : motive text := by
  induction size : text.length using Nat.strongRecOn generalizing text with
  | ind size inductionHypothesis =>
      rcases countPlaces_eq_zero_or_split number text with lacking | ⟨before, after, rfl, lacking⟩
      · exact none text lacking
      · apply some before after lacking
        apply inductionHypothesis after.length _ after rfl
        have shorter := length_lt_length_place_append number after
        rw [← size, List.length_append]
        omega

/-! ## Filling in one pass -/

/-- What a place is filled with: the argument of its number, or nothing else than itself. -/
def filling (arguments : List (String × Nat)) (number : Nat) : List Char :=
  match arguments.find? fun argument => argument.2 == number with
  | some argument => argument.1.toList
  | none => place number

theorem fillPlaces_append_of_plain (plain : '\x7b' ∉ before) :
    fillPlaces arguments (before ++ after) = before ++ fillPlaces arguments after := by
  induction before with
  | nil =>
      rfl
  | cons c rest inductionHypothesis =>
      obtain ⟨notOpening, restPlain⟩ := List.ne_and_not_mem_of_not_mem_cons plain
      have noPlace : (arguments.find? fun argument =>
          (place argument.2).isPrefixOf (c :: (rest ++ after))) = none := by
        simp [isPrefixOf_of_ne notOpening.symm]
      rw [List.cons_append, fillPlaces, fillPlacesFrom, noPlace]
      exact congrArg (c :: ·) (inductionHypothesis restPlain)

theorem fillPlacesFrom_length_append (skipped : List Char) :
    fillPlacesFrom arguments skipped.length (skipped ++ after) = fillPlaces arguments after := by
  induction skipped with
  | nil =>
      rfl
  | cons c rest inductionHypothesis =>
      rw [List.length_cons, List.cons_append, fillPlacesFrom, inductionHypothesis]

theorem fillPlaces_place_append :
    fillPlaces arguments (place number ++ after) =
      filling arguments number ++ fillPlaces arguments after := by
  have sameSearch : (arguments.find? fun argument =>
      (place argument.2).isPrefixOf (place number ++ after)) =
        arguments.find? fun argument => argument.2 == number := by
    simp only [isPrefixOf_place_append]
  rw [filling]
  cases search : arguments.find? fun argument => argument.2 == number with
  | some argument =>
      have sameNumber : argument.2 = number := by simpa using List.find?_some search
      rw [search, place_eq_cons, List.cons_append] at sameSearch
      rw [place_eq_cons, List.cons_append, fillPlaces, fillPlacesFrom, sameSearch]
      simp only [sameNumber, place_eq_cons, List.length_cons, Nat.add_one_sub_one]
      rw [fillPlacesFrom_length_append]
  | none =>
      rw [search, place_eq_cons, List.cons_append] at sameSearch
      rw [place_eq_cons, List.cons_append, fillPlaces, fillPlacesFrom, sameSearch]
      exact congrArg ('\x7b' :: ·) (fillPlaces_append_of_plain opening_notMem_tail)

theorem fillPlacesFrom_append_place {skip : Nat} (within : skip ≤ before.length) :
    fillPlacesFrom arguments skip (before ++ (place number ++ after)) =
      fillPlacesFrom arguments skip before ++ fillPlaces arguments (place number ++ after) := by
  induction before generalizing skip with
  | nil =>
      obtain rfl := Nat.le_zero.mp within
      rfl
  | cons c rest inductionHypothesis =>
      cases skip with
      | succ skip =>
          exact inductionHypothesis (Nat.le_of_succ_le_succ within)
      | zero =>
          have sameSearch : (arguments.find? fun argument =>
              (place argument.2).isPrefixOf (c :: (rest ++ (place number ++ after)))) =
                arguments.find? fun argument => (place argument.2).isPrefixOf (c :: rest) := by
            simp only [← List.cons_append, isPrefixOf_append_place (List.cons_ne_nil c rest)]
          rw [List.cons_append, fillPlacesFrom, sameSearch, fillPlacesFrom]
          cases search :
              arguments.find? fun argument => (place argument.2).isPrefixOf (c :: rest) with
          | none =>
              exact congrArg (c :: ·) (inductionHypothesis (Nat.zero_le _))
          | some argument =>
              have atPlace := List.find?_some search
              have short := (List.isPrefixOf_iff_prefix.mp atPlace).length_le
              rw [List.length_cons] at short
              simp only [inductionHypothesis (Nat.sub_le_of_le_add short), List.append_assoc]

theorem fillPlaces_append_place :
    fillPlaces arguments (before ++ (place number ++ after)) =
      fillPlaces arguments before ++ (filling arguments number ++ fillPlaces arguments after) := by
  rw [← fillPlaces_place_append]
  exact fillPlacesFrom_append_place (Nat.zero_le _)

theorem fillPlaces_nil (text : List Char) : fillPlaces [] text = text := by
  induction text with
  | nil =>
      rfl
  | cons c rest inductionHypothesis =>
      exact congrArg (c :: ·) inductionHypothesis

end NameLowering.Template
