import NameLowering.Diagnostic.Catalog
import NameLowering.Proofs.Diagnostic.Places

/-!
# Places that are filled one after the other and at once

A message is to be its template with each place filled by the argument of its number. As the places
are filled number by number, what has been filled in is read again in all later rounds. The rounds
come to the same as one pass over the template exactly as long as the filling makes no new places.
-/

namespace NameLowering.Template

/-- The template with each place filled by the argument of its number, all at the same time. -/
def fillAtOnce (template : String) (arguments : List String) : String :=
  String.ofList (fillPlaces arguments.zipIdx template.toList)

variable {arguments : List (String × Nat)} {argument : String} {number : Nat}
  {before text after : List Char}

/-! ## One more argument -/

theorem fillPlacesFrom_concat_of_lacking {skip : Nat} (lacking : countPlaces number text = 0) :
    fillPlacesFrom (arguments ++ [(argument, number)]) skip text =
      fillPlacesFrom arguments skip text := by
  induction text generalizing skip with
  | nil =>
      cases skip <;> rfl
  | cons c rest inductionHypothesis =>
      rw [countPlaces_cons, Nat.add_eq_zero_iff] at lacking
      cases skip with
      | succ skip =>
          exact inductionHypothesis lacking.1
      | zero =>
          have noPlace : (place number).isPrefixOf (c :: rest) = false := by
            apply Bool.eq_false_iff.mpr
            simpa using lacking.2
          have sameSearch : ((arguments ++ [(argument, number)]).find? fun argument =>
              (place argument.2).isPrefixOf (c :: rest)) =
                arguments.find? fun argument => (place argument.2).isPrefixOf (c :: rest) := by
            rw [List.find?_append, List.find?_singleton, noPlace]
            simp
          rw [fillPlacesFrom, fillPlacesFrom, sameSearch]
          simp only [inductionHypothesis lacking.1]

theorem fillPlaces_concat_of_lacking (lacking : countPlaces number text = 0) :
    fillPlaces (arguments ++ [(argument, number)]) text = fillPlaces arguments text :=
  fillPlacesFrom_concat_of_lacking lacking

section Fresh

variable (fresh : ∀ given ∈ arguments, given.2 ≠ number)

include fresh

theorem find?_number_of_fresh :
    (arguments.find? fun argument => argument.2 == number) = none := by
  simpa using fresh

/-- A place that no argument is for stays. -/
theorem fillPlaces_split (before after : List Char) :
    fillPlaces arguments (before ++ (place number ++ after)) =
      fillPlaces arguments before ++ (place number ++ fillPlaces arguments after) := by
  rw [fillPlaces_append_place, filling, find?_number_of_fresh fresh]

theorem fillPlaces_concat_split (lacking : countPlaces number before = 0) (after : List Char) :
    fillPlaces (arguments ++ [(argument, number)]) (before ++ (place number ++ after)) =
      fillPlaces arguments before ++
        (argument.toList ++ fillPlaces (arguments ++ [(argument, number)]) after) := by
  have search : ((arguments ++ [(argument, number)]).find? fun argument => argument.2 == number) =
      some (argument, number) := by
    rw [List.find?_append, find?_number_of_fresh fresh]
    simp
  rw [fillPlaces_append_place, filling, search, fillPlaces_concat_of_lacking lacking]

/-- The places that no argument is for are there after the filling as well. -/
theorem countPlaces_le_countPlaces_fillPlaces (text : List Char) :
    countPlaces number text ≤ countPlaces number (fillPlaces arguments text) := by
  induction text using induction_at_places number with
  | none text lacking =>
      rw [lacking]
      exact Nat.zero_le _
  | some before after lacking inductionHypothesis =>
      rw [fillPlaces_split fresh, countPlaces_split, countPlaces_split]
      omega

theorem length_fillPlaces_concat (argument : String) (text : List Char) :
    (fillPlaces (arguments ++ [(argument, number)]) text).length +
        countPlaces number text * (place number).length =
      (fillPlaces arguments text).length + countPlaces number text * argument.toList.length := by
  induction text using induction_at_places number with
  | none text lacking =>
      rw [fillPlaces_concat_of_lacking lacking, lacking, Nat.zero_mul, Nat.zero_mul]
  | some before after lacking inductionHypothesis =>
      rw [fillPlaces_split fresh, fillPlaces_concat_split fresh lacking, countPlaces_split, lacking,
        Nat.zero_add, Nat.add_one_mul, Nat.add_one_mul]
      simp only [List.length_append]
      omega

theorem fillPlaces_concat_of_eq_place (itself : argument.toList = place number)
    (text : List Char) :
    fillPlaces (arguments ++ [(argument, number)]) text = fillPlaces arguments text := by
  induction text using induction_at_places number with
  | none text lacking =>
      exact fillPlaces_concat_of_lacking lacking
  | some before after lacking inductionHypothesis =>
      rw [fillPlaces_split fresh, fillPlaces_concat_split fresh lacking, inductionHypothesis, itself]

end Fresh

/-! ## One round over a filled text -/

theorem fillPlaces_single_of_lacking (lacking : countPlaces number text = 0) :
    fillPlaces [(argument, number)] text = text := by
  rw [← List.nil_append [(argument, number)], fillPlaces_concat_of_lacking lacking, fillPlaces_nil]

theorem fillPlaces_single_split (before after : List Char) :
    fillPlaces [(argument, number)] (before ++ (place number ++ after)) =
      fillPlaces [(argument, number)] before ++
        (argument.toList ++ fillPlaces [(argument, number)] after) := by
  simp [fillPlaces_append_place, filling]

theorem length_fillPlaces_single (argument : String) (number : Nat) (text : List Char) :
    (fillPlaces [(argument, number)] text).length +
        countPlaces number text * (place number).length =
      text.length + countPlaces number text * argument.toList.length := by
  have noOther : ∀ given ∈ ([] : List (String × Nat)), given.2 ≠ number := List.forall_mem_nil _
  have lengths := length_fillPlaces_concat noOther argument text
  rwa [fillPlaces_nil] at lengths

theorem length_fillPlaces_single_of_sameLength
    (sameLength : argument.toList.length = (place number).length) (text : List Char) :
    (fillPlaces [(argument, number)] text).length = text.length := by
  have lengths := length_fillPlaces_single argument number text
  rw [sameLength] at lengths
  omega

/-- Only an argument that is the place itself leaves a text with the place as it is. -/
theorem eq_place_or_lacking (sameLength : argument.toList.length = (place number).length)
    (unchanged : fillPlaces [(argument, number)] text = text) :
    argument.toList = place number ∨ countPlaces number text = 0 := by
  rcases countPlaces_eq_zero_or_split number text with lacking | ⟨before, after, rfl, _⟩
  · exact Or.inr lacking
  · left
    rw [fillPlaces_single_split] at unchanged
    have keepsLength := length_fillPlaces_single_of_sameLength sameLength before
    exact List.append_inj_left (List.append_inj unchanged keepsLength).2 sameLength

section Round

variable (fresh : ∀ given ∈ arguments, given.2 ≠ number)

include fresh

/-- Where all lengths stay the same, the texts can be compared piece by piece. -/
theorem eq_place_or_countPlaces_eq_of_sameLength
    (sameLength : argument.toList.length = (place number).length) (text : List Char)
    (equal : fillPlaces [(argument, number)] (fillPlaces arguments text) =
      fillPlaces (arguments ++ [(argument, number)]) text) :
    argument.toList = place number ∨
      countPlaces number (fillPlaces arguments text) = countPlaces number text := by
  induction text using induction_at_places number with
  | none text lacking =>
      rw [fillPlaces_concat_of_lacking lacking] at equal
      rw [lacking]
      exact eq_place_or_lacking sameLength equal
  | some before after lacking inductionHypothesis =>
      rw [fillPlaces_split fresh, fillPlaces_single_split,
        fillPlaces_concat_split fresh lacking] at equal
      have keepsLength := length_fillPlaces_single_of_sameLength sameLength
        (fillPlaces arguments before)
      obtain ⟨equalBefore, equalThere⟩ := List.append_inj equal keepsLength
      have equalAfter := List.append_cancel_left equalThere
      rcases eq_place_or_lacking sameLength equalBefore with itself | lackingStill
      · exact Or.inl itself
      · rcases inductionHypothesis equalAfter with itself | sameCount
        · exact Or.inl itself
        · right
          rw [fillPlaces_split fresh, countPlaces_split, countPlaces_split, lacking, lackingStill,
            sameCount]

/-- If no places have appeared, the next round finds those of the text alone. -/
theorem fillPlaces_single_of_countPlaces_eq (text : List Char)
    (sameCount : countPlaces number (fillPlaces arguments text) = countPlaces number text) :
    fillPlaces [(argument, number)] (fillPlaces arguments text) =
      fillPlaces (arguments ++ [(argument, number)]) text := by
  induction text using induction_at_places number with
  | none text lacking =>
      rw [fillPlaces_single_of_lacking (sameCount.trans lacking),
        fillPlaces_concat_of_lacking lacking]
  | some before after lacking inductionHypothesis =>
      rw [fillPlaces_split fresh, countPlaces_split, countPlaces_split, lacking] at sameCount
      have notFewer := countPlaces_le_countPlaces_fillPlaces fresh after
      have lackingStill : countPlaces number (fillPlaces arguments before) = 0 := by omega
      have sameCountAfter :
          countPlaces number (fillPlaces arguments after) = countPlaces number after := by
        omega
      rw [fillPlaces_split fresh, fillPlaces_single_split, fillPlaces_concat_split fresh lacking,
        fillPlaces_single_of_lacking lackingStill, inductionHypothesis sameCountAfter]

/-- A round over a text that is filled in part comes to the same as one pass with one argument more,
unless the filling has made places for this round. -/
theorem fillPlaces_single_fillPlaces_iff (text : List Char) :
    fillPlaces [(argument, number)] (fillPlaces arguments text) =
        fillPlaces (arguments ++ [(argument, number)]) text ↔
      argument.toList = place number ∨
        countPlaces number (fillPlaces arguments text) = countPlaces number text := by
  constructor
  · intro equal
    by_cases sameLength : argument.toList.length = (place number).length
    · exact eq_place_or_countPlaces_eq_of_sameLength fresh sameLength text equal
    · right
      have inRound := length_fillPlaces_single argument number (fillPlaces arguments text)
      have inPass := length_fillPlaces_concat fresh argument text
      rw [equal] at inRound
      by_contra different
      -- Each place that is filled changes the length by the same amount.
      apply sameLength
      obtain ⟨more, counted⟩ :=
        Nat.exists_eq_add_of_le (countPlaces_le_countPlaces_fillPlaces fresh text)
      rw [counted, Nat.add_mul, Nat.add_mul] at inRound
      have positive : 0 < more := by omega
      apply Nat.eq_of_mul_eq_mul_left positive
      omega
  · intro cause
    rcases cause with itself | sameCount
    · rw [fillPlaces_concat_of_eq_place fresh itself, ← List.nil_append [(argument, number)],
        fillPlaces_concat_of_eq_place (List.forall_mem_nil _) itself, fillPlaces_nil]
    · exact fillPlaces_single_of_countPlaces_eq fresh text sameCount

end Round

/-! ## All rounds -/

theorem replaceFrom_place (argument : String) (number skip : Nat) (text : List Char) :
    replaceFrom (place number) argument.toList skip text =
      fillPlacesFrom [(argument, number)] skip text := by
  induction text generalizing skip with
  | nil =>
      cases skip <;> rfl
  | cons c rest inductionHypothesis =>
      cases skip with
      | succ skip =>
          exact inductionHypothesis skip
      | zero =>
          rw [replaceFrom, fillPlacesFrom, List.find?_singleton]
          by_cases here : (place number).isPrefixOf (c :: rest)
          · rw [if_pos here, if_pos here, inductionHypothesis]
          · rw [if_neg here, if_neg here, inductionHypothesis]

theorem toList_fill_concat (template : String) (earlier : List String) (argument : String) :
    (fill template (earlier ++ [argument])).toList =
      fillPlaces [(argument, earlier.length)] (fill template earlier).toList := by
  rw [fill, fill, String.toList_ofList, String.toList_ofList, List.zipIdx_append, List.foldl_append]
  simp only [Nat.zero_add, List.zipIdx_singleton, List.foldl_cons, List.foldl_nil]
  exact replaceFrom_place argument earlier.length 0 _

theorem toList_fillAtOnce (template : String) (arguments : List String) :
    (fillAtOnce template arguments).toList = fillPlaces arguments.zipIdx template.toList :=
  String.toList_ofList

theorem fill_nil (template : String) : fill template [] = fillAtOnce template [] := by
  rw [fillAtOnce, List.zipIdx_nil, fillPlaces_nil]
  rfl

theorem ne_length_of_mem_zipIdx (earlier : List String) :
    ∀ given ∈ earlier.zipIdx, given.2 ≠ earlier.length := by
  rintro ⟨argument, number⟩ member
  have bound := (List.mem_zipIdx member).2.1
  omega

/-- After rounds that came to the same as one pass, the next one does exactly if it finds the places of
the template alone. -/
theorem fill_concat_eq_iff {template : String} {earlier : List String}
    (soFar : fill template earlier = fillAtOnce template earlier) :
    fill template (earlier ++ [argument]) = fillAtOnce template (earlier ++ [argument]) ↔
      argument.toList = place earlier.length ∨
        countPlaces earlier.length (fillAtOnce template earlier).toList =
          countPlaces earlier.length template.toList := by
  rw [← String.toList_inj, toList_fill_concat, soFar, toList_fillAtOnce, toList_fillAtOnce,
    List.zipIdx_append, Nat.zero_add]
  exact fillPlaces_single_fillPlaces_iff (ne_length_of_mem_zipIdx earlier) template.toList

/-- As long as no round finds more places than the template has, filling number by number is filling
at once. -/
theorem fill_eq_fillAtOnce_of_rounds {template : String} {arguments earlier : List String}
    (noneMade : ∀ earlier argument, earlier ++ [argument] <+: arguments →
      argument.toList = place earlier.length ∨
        countPlaces earlier.length (fillAtOnce template earlier).toList =
          countPlaces earlier.length template.toList)
    (isPrefix : earlier <+: arguments) :
    fill template earlier = fillAtOnce template earlier := by
  induction earlier using List.reverseRecOn with
  | nil =>
      exact fill_nil template
  | append_singleton earlier argument inductionHypothesis =>
      have soFar := inductionHypothesis ((List.prefix_append _ _).trans isPrefix)
      exact (fill_concat_eq_iff soFar).mpr (noneMade earlier argument isPrefix)

/-- With one argument there is no later round. -/
theorem fill_eq_fillAtOnce_of_length_le_one
    (template : String) {arguments : List String} (few : arguments.length ≤ 1) :
    fill template arguments = fillAtOnce template arguments := by
  cases arguments with
  | nil =>
      exact fill_nil template
  | cons argument rest =>
      obtain rfl : rest = [] := by simpa using few
      rw [← List.nil_append [argument]]
      apply (fill_concat_eq_iff (fill_nil template)).mpr
      right
      rw [toList_fillAtOnce, List.zipIdx_nil, fillPlaces_nil]

/-- Filling number by number gives what filling at once gives, for each number of arguments, exactly
if no round finds more places than the template has: an argument, maybe with the text around it, would
have spelled them. So one argument is always filled in right. -/
theorem fill_eq_fillAtOnce_iff (template : String) (arguments : List String) :
    ((∀ earlier, earlier <+: arguments → fill template earlier = fillAtOnce template earlier) ↔
      ∀ earlier argument, earlier ++ [argument] <+: arguments →
        argument.toList = place earlier.length ∨
          countPlaces earlier.length (fillAtOnce template earlier).toList =
            countPlaces earlier.length template.toList) ∧
    (arguments.length ≤ 1 → fill template arguments = fillAtOnce template arguments) := by
  refine ⟨⟨?_, ?_⟩, fill_eq_fillAtOnce_of_length_le_one template⟩
  · intro same earlier argument isPrefix
    have soFar := same earlier ((List.prefix_append _ _).trans isPrefix)
    exact (fill_concat_eq_iff soFar).mp (same (earlier ++ [argument]) isPrefix)
  · intro noneMade earlier isPrefix
    exact fill_eq_fillAtOnce_of_rounds noneMade isPrefix

/-- The first argument may be taken for the place of the second one. -/
theorem fill_ne_fillAtOnce :
    ¬ ∀ template arguments, fill template arguments = fillAtOnce template arguments := by
  intro equal
  have inRounds : fill "\x7b0\x7d and \x7b1\x7d" ["\x7b1\x7d", "b"] = "b and b" := by
    decide +kernel
  have atOnce : fillAtOnce "\x7b0\x7d and \x7b1\x7d" ["\x7b1\x7d", "b"] =
      "\x7b1\x7d and b" := by
    decide +kernel
  rw [equal, atOnce] at inRounds
  exact absurd inRounds (by decide)

/-! ## Arguments without braces -/

/-- A text in which every opening brace is that of a place. -/
inductive Tidy : List Char → Prop
  | empty : Tidy []
  | plain {c : Char} {rest : List Char} (notOpening : '\x7b' ≠ c) (tidy : Tidy rest) :
      Tidy (c :: rest)
  | place {rest : List Char} (number : Nat) (tidy : Tidy rest) : Tidy (place number ++ rest)

/-- Arguments without an opening brace fill a place of another number with no place at all. -/
theorem countPlaces_filling_append (fresh : ∀ given ∈ arguments, given.2 ≠ number)
    (plain : ∀ given ∈ arguments, '\x7b' ∉ given.1.toList) (other : Nat) (after : List Char) :
    countPlaces number (filling arguments other ++ after) =
      countPlaces number (place other ++ after) := by
  rw [filling]
  cases search : arguments.find? fun argument => argument.2 == other with
  | none =>
      rfl
  | some given =>
      have member := List.mem_of_find?_eq_some search
      have sameNumber : given.2 = other := by simpa using List.find?_some search
      have different : number ≠ other := by
        rw [← sameNumber]
        exact (fresh given member).symm
      rw [countPlaces_append_of_plain (plain given member), countPlaces_place_append,
        if_neg different, Nat.zero_add]

theorem countPlaces_fillPlaces_of_tidy (fresh : ∀ given ∈ arguments, given.2 ≠ number)
    (plain : ∀ given ∈ arguments, '\x7b' ∉ given.1.toList) (tidy : Tidy text) :
    countPlaces number (fillPlaces arguments text) = countPlaces number text := by
  induction tidy with
  | empty =>
      rfl
  | @plain c rest notOpening _ inductionHypothesis =>
      have single : '\x7b' ∉ [c] := by simpa using notOpening
      rw [← List.singleton_append, fillPlaces_append_of_plain single,
        countPlaces_append_of_plain single, countPlaces_append_of_plain single, inductionHypothesis]
  | place other _ inductionHypothesis =>
      rw [fillPlaces_place_append, countPlaces_filling_append fresh plain, countPlaces_place_append,
        countPlaces_place_append, inductionHypothesis]

/-- Where braces are for places alone, and the arguments have none, the rounds do not interfere. -/
theorem fill_eq_fillAtOnce_of_tidy {template : String} {arguments : List String}
    (tidy : Tidy template.toList) (plain : ∀ argument ∈ arguments, '\x7b' ∉ argument.toList) :
    fill template arguments = fillAtOnce template arguments := by
  apply fill_eq_fillAtOnce_of_rounds _ List.prefix_rfl
  intro earlier argument isPrefix
  right
  rw [toList_fillAtOnce]
  apply countPlaces_fillPlaces_of_tidy (ne_length_of_mem_zipIdx earlier) _ tidy
  intro given member
  apply plain
  exact isPrefix.subset (List.mem_append_left _ (List.fst_mem_of_mem_zipIdx member))

end NameLowering.Template

namespace NameLowering

/-- The message of a problem is the template of its rule with all places filled at once. -/
theorem Problem.message_eq (problem : Problem) (file : String) (start length : UInt32) :
    (problem.rule.report problem.arguments file start length).message =
      Template.fillAtOnce problem.rule.template problem.arguments := by
  have few : problem.arguments.length ≤ 1 := by
    cases problem <;> simp [Problem.arguments]
  exact Template.fill_eq_fillAtOnce_of_length_le_one problem.rule.template few

end NameLowering
