import Mathlib.Algebra.Group.Nat.Defs
import Mathlib.Order.Bounds.Basic
import NameLowering.Proofs.References.Recording

/-!
# Histories of the open scopes

Scopes are entered and left and symbols are mentioned, in any order. A history may try to leave when
no scope is open, which changes nothing. Whatever the history, a scope that is left is the last one
entered of those that are still open, and its record is made of the mentions between the two calls.
-/

namespace NameLowering

/-! ## Calls and answers -/

/-- What is done to the open scopes. -/
inductive ScopeCall where
  | enter (kind : ScopeKind) (node : NodeRef)
  | leave
  | mention (symbol : SymbolNumber) (node : NodeRef)
deriving DecidableEq, Repr

/-- What comes back: the number of a scope that was opened, or a scope that was closed, if there was
one. -/
inductive ScopeAnswer where
  | opened (id : Nat)
  | closed (scope : Option Scope)
  | noted
deriving DecidableEq, Repr

namespace ScopeCall

def isEnter : ScopeCall → Bool
  | enter .. => true
  | leave | mention .. => false

def mention? : ScopeCall → Option Mention
  | mention symbol node => some { symbol, node }
  | enter .. | leave => none

/-- The number of scopes that the calls open. -/
def entered (calls : List ScopeCall) : Nat :=
  calls.countP isEnter

def mentioned (calls : List ScopeCall) : List Mention :=
  calls.filterMap mention?

theorem entered_append (first second : List ScopeCall) :
    entered (first ++ second) = entered first + entered second :=
  List.countP_append

theorem entered_cons_enter (kind : ScopeKind) (node : NodeRef) (calls : List ScopeCall) :
    entered (.enter kind node :: calls) = entered calls + 1 :=
  List.countP_cons_of_pos rfl

theorem mentioned_append (first second : List ScopeCall) :
    mentioned (first ++ second) = mentioned first ++ mentioned second :=
  List.filterMap_append

end ScopeCall

namespace ScopeAnswer

def opened? : ScopeAnswer → Option Nat
  | opened id => some id
  | closed _ | noted => none

def closed? : ScopeAnswer → Option Scope
  | closed scope => scope
  | opened _ | noted => none

/-- The numbers of the scopes that were opened and not closed. -/
def openIds (answers : List ScopeAnswer) : Set Nat :=
  {id | id ∈ answers.filterMap opened? ∧ ∀ scope ∈ answers.filterMap closed?, scope.id ≠ id}

variable {answers : List ScopeAnswer} {id : Nat}

theorem mem_openIds_iff :
    id ∈ openIds answers ↔
      id ∈ answers.filterMap opened? ∧ ∀ scope ∈ answers.filterMap closed?, scope.id ≠ id :=
  Iff.rfl

theorem mem_openIds_opened_iff {new : Nat}
    (fresh : ∀ scope ∈ answers.filterMap closed?, scope.id ≠ new) :
    id ∈ openIds (answers ++ [.opened new]) ↔ id = new ∨ id ∈ openIds answers := by
  simp only [mem_openIds_iff, List.filterMap_append, List.mem_append]
  constructor
  · rintro ⟨wasOpened | isNew, notClosed⟩
    · exact Or.inr ⟨wasOpened, fun scope member => notClosed scope (Or.inl member)⟩
    · exact Or.inl (List.mem_singleton.mp isNew)
  · rintro (rfl | ⟨wasOpened, notClosed⟩)
    · refine ⟨Or.inr List.mem_cons_self, fun scope member => ?_⟩
      exact fresh scope (member.resolve_right List.not_mem_nil)
    · refine ⟨Or.inl wasOpened, fun scope member => ?_⟩
      exact notClosed scope (member.resolve_right List.not_mem_nil)

theorem mem_openIds_closed_iff {scope : Scope} :
    id ∈ openIds (answers ++ [.closed (some scope)]) ↔ id ∈ openIds answers ∧ scope.id ≠ id := by
  simp only [mem_openIds_iff, List.filterMap_append, List.mem_append]
  constructor
  · rintro ⟨wasOpened, notClosed⟩
    refine ⟨⟨wasOpened.resolve_right List.not_mem_nil, fun other member => ?_⟩, ?_⟩
    · exact notClosed other (Or.inl member)
    · exact notClosed scope (Or.inr List.mem_cons_self)
  · rintro ⟨⟨wasOpened, notClosed⟩, different⟩
    refine ⟨Or.inl wasOpened, ?_⟩
    rintro other (member | isLast)
    · exact notClosed other member
    · rwa [List.mem_singleton.mp isLast]

/-- An answer that tells of no scope leaves open what was open. -/
theorem openIds_concat_of_none {answer : ScopeAnswer} (opensNone : answer.opened? = none)
    (closesNone : answer.closed? = none) :
    openIds (answers ++ [answer]) = openIds answers := by
  have noneOpened : [answer].filterMap opened? = [] := List.filterMap_cons_none opensNone
  have noneClosed : [answer].filterMap closed? = [] := List.filterMap_cons_none closesNone
  rw [openIds, List.filterMap_append, List.filterMap_append, noneOpened, noneClosed,
    List.append_nil, List.append_nil]
  rfl

end ScopeAnswer

namespace OpenScopes

open ScopeCall ScopeAnswer

def serve (scopes : OpenScopes) : ScopeCall → ScopeAnswer × OpenScopes
  | .enter kind node => (.opened (scopes.enter kind node).1, (scopes.enter kind node).2)
  | .leave =>
    match scopes.leave? with
    | none => (.closed none, scopes)
    | some (scope, outside) => (.closed (some scope), outside)
  | .mention symbol node => (.noted, scopes.mention symbol node)

def serveAll (calls : List ScopeCall) (scopes : OpenScopes) : OpenScopes :=
  calls.foldl (fun scopes call => (scopes.serve call).2) scopes

def answers : List ScopeCall → OpenScopes → List ScopeAnswer
  | [], _ => []
  | call :: rest, scopes => (scopes.serve call).1 :: answers rest (scopes.serve call).2

variable {calls before : List ScopeCall} {scopes : OpenScopes} {scope : Scope} {place : Nat}

theorem serveAll_concat (before : List ScopeCall) (last : ScopeCall) (scopes : OpenScopes) :
    serveAll (before ++ [last]) scopes = ((serveAll before scopes).serve last).2 := by
  rw [serveAll, List.foldl_append]
  rfl

theorem answers_concat (before : List ScopeCall) (last : ScopeCall) (scopes : OpenScopes) :
    answers (before ++ [last]) scopes =
      answers before scopes ++ [((serveAll before scopes).serve last).1] := by
  induction before generalizing scopes with
  | nil =>
      rfl
  | cons call rest inductionHypothesis =>
      rw [List.cons_append, answers, inductionHypothesis]
      rfl

/-- A call is answered out of what the calls before it left behind. -/
theorem getElem?_answers (calls : List ScopeCall) (scopes : OpenScopes) (place : Nat) :
    (answers calls scopes)[place]? =
      calls[place]?.map fun call => ((serveAll (calls.take place) scopes).serve call).1 := by
  induction calls generalizing scopes place with
  | nil =>
      rfl
  | cons call rest inductionHypothesis =>
      cases place with
      | zero =>
          rfl
      | succ place =>
          exact inductionHypothesis (scopes.serve call).2 place

theorem getElem?_answers_append (before : List ScopeCall) (call : ScopeCall)
    (rest : List ScopeCall) (scopes : OpenScopes) :
    (answers (before ++ call :: rest) scopes)[before.length]? =
      some ((serveAll before scopes).serve call).1 := by
  rw [getElem?_answers, List.take_left, List.getElem?_append_right (Nat.le_refl _), Nat.sub_self]
  rfl

/-! ## What a history leaves behind -/

/-- The scope was entered in the course of the calls, and its mentions begin where the log stood. -/
structure EnteredIn (calls : List ScopeCall) (scope : OpenScope) (earlier inside : List ScopeCall) :
    Prop where
  split : calls = earlier ++ .enter scope.kind scope.node :: inside
  id : scope.id = entered earlier + 1
  start : scope.start = (mentioned earlier).length

/-- The open scopes are what the calls and the answers to them say. -/
structure Follows (calls : List ScopeCall) (answers : List ScopeAnswer) (scopes : OpenScopes) :
    Prop where
  opened : scopes.opened = entered calls
  log : scopes.log.toList = mentioned calls
  numbers : answers.filterMap opened? = List.range' 1 (entered calls)
  closed_le : ∀ scope ∈ answers.filterMap closed?, scope.id ≤ entered calls
  descending : scopes.stack.Pairwise fun inner outer => outer.id < inner.id
  isOpen_iff : ∀ id, id ∈ openIds answers ↔ ∃ scope ∈ scopes.stack, scope.id = id
  origin : ∀ scope ∈ scopes.stack, ∃ earlier inside, EnteredIn calls scope earlier inside

theorem EnteredIn.concat {scope : OpenScope} {earlier inside : List ScopeCall}
    (isEntered : EnteredIn calls scope earlier inside) (call : ScopeCall) :
    EnteredIn (calls ++ [call]) scope earlier (inside ++ [call]) where
  split := by rw [isEntered.split, List.append_assoc, List.cons_append]
  id := isEntered.id
  start := isEntered.start

theorem EnteredIn.id_le {scope : OpenScope} {earlier inside : List ScopeCall}
    (isEntered : EnteredIn calls scope earlier inside) :
    scope.id ≤ entered calls := by
  rw [isEntered.id, isEntered.split, entered_append]
  have own := entered_cons_enter scope.kind scope.node inside
  omega

namespace Follows

variable {answers : List ScopeAnswer}

theorem empty : Follows [] [] {} where
  opened := rfl
  log := rfl
  numbers := rfl
  closed_le _ member := absurd member List.not_mem_nil
  descending := List.Pairwise.nil
  isOpen_iff id := by
    constructor
    · rintro ⟨opened, _⟩
      exact absurd opened List.not_mem_nil
    · rintro ⟨scope, member, _⟩
      exact absurd member List.not_mem_nil
  origin _ member := absurd member List.not_mem_nil

theorem id_le (follows : Follows calls answers scopes) {scope : OpenScope}
    (member : scope ∈ scopes.stack) :
    scope.id ≤ entered calls := by
  obtain ⟨earlier, inside, isEntered⟩ := follows.origin scope member
  exact isEntered.id_le

theorem enter (follows : Follows calls answers scopes) (kind : ScopeKind) (node : NodeRef) :
    Follows (calls ++ [.enter kind node]) (answers ++ [.opened (scopes.enter kind node).1])
      (scopes.enter kind node).2 := by
  have grown : entered (calls ++ [.enter kind node]) = entered calls + 1 := by
    rw [entered_append, entered_cons_enter]
    rfl
  have number : (scopes.enter kind node).1 = entered calls + 1 :=
    congrArg (· + 1) follows.opened
  constructor
  case opened =>
    exact number.trans grown.symm
  case log =>
    rw [mentioned_append]
    exact follows.log.trans (List.append_nil _).symm
  case numbers =>
    rw [List.filterMap_append, follows.numbers, grown, List.range'_concat, number]
    simp [opened?, Nat.add_comm]
  case closed_le =>
    intro scope member
    rw [List.filterMap_append] at member
    have wasClosed : scope ∈ answers.filterMap closed? := by simpa [closed?] using member
    rw [grown]
    exact Nat.le_succ_of_le (follows.closed_le scope wasClosed)
  case descending =>
    refine List.pairwise_cons.mpr ⟨fun outer member => ?_, follows.descending⟩
    change outer.id < (scopes.enter kind node).1
    rw [number]
    exact Nat.lt_succ_of_le (follows.id_le member)
  case isOpen_iff =>
    intro id
    have fresh : ∀ scope ∈ answers.filterMap closed?, scope.id ≠ (scopes.enter kind node).1 := by
      intro scope member
      have before := follows.closed_le scope member
      omega
    rw [mem_openIds_opened_iff fresh, follows.isOpen_iff]
    constructor
    · rintro (rfl | ⟨scope, member, isId⟩)
      · exact ⟨_, List.mem_cons_self, rfl⟩
      · exact ⟨scope, List.mem_cons_of_mem _ member, isId⟩
    · rintro ⟨scope, member, isId⟩
      rcases List.mem_cons.mp member with rfl | wasOpen
      · exact Or.inl isId.symm
      · exact Or.inr ⟨scope, wasOpen, isId⟩
  case origin =>
    intro scope member
    rcases List.mem_cons.mp member with rfl | wasOpen
    · refine ⟨calls, [], rfl, number, ?_⟩
      rw [← follows.log, Array.length_toList]
    · obtain ⟨earlier, inside, isEntered⟩ := follows.origin scope wasOpen
      exact ⟨earlier, _, isEntered.concat _⟩

/-- A call that opens no scope leaves some of the scopes open. -/
theorem concat {call : ScopeCall} {answer : ScopeAnswer} {later : OpenScopes}
    (follows : Follows calls answers scopes) (entersNone : call.isEnter = false)
    (opensNone : answer.opened? = none) (opened : later.opened = scopes.opened)
    (log : later.log.toList = scopes.log.toList ++ [call].filterMap mention?)
    (closed_le : ∀ scope, answer.closed? = some scope → scope.id ≤ entered calls)
    (stack : later.stack.Sublist scopes.stack)
    (isOpen_iff : ∀ id, id ∈ openIds (answers ++ [answer]) ↔
      ∃ scope ∈ later.stack, scope.id = id) :
    Follows (calls ++ [call]) (answers ++ [answer]) later := by
  have same : entered (calls ++ [call]) = entered calls := by
    rw [entered_append, entered, entered, List.countP_singleton, entersNone]
    rfl
  constructor
  case opened =>
    rw [opened, follows.opened, same]
  case log =>
    rw [log, follows.log, mentioned_append]
    rfl
  case numbers =>
    rw [List.filterMap_append, follows.numbers, same, List.filterMap_cons_none opensNone]
    exact List.append_nil _
  case closed_le =>
    intro scope member
    rw [same]
    rw [List.filterMap_append] at member
    rcases List.mem_append.mp member with wasClosed | isLast
    · exact follows.closed_le scope wasClosed
    · obtain ⟨last, isAnswer, closes⟩ := List.mem_filterMap.mp isLast
      obtain rfl := List.mem_singleton.mp isAnswer
      exact closed_le scope closes
  case descending =>
    exact follows.descending.sublist stack
  case isOpen_iff =>
    exact isOpen_iff
  case origin =>
    intro scope member
    obtain ⟨earlier, inside, isEntered⟩ := follows.origin scope (stack.subset member)
    exact ⟨earlier, _, isEntered.concat call⟩

theorem mention (follows : Follows calls answers scopes) (symbol : SymbolNumber)
    (node : NodeRef) :
    Follows (calls ++ [.mention symbol node]) (answers ++ [.noted])
      (scopes.mention symbol node) := by
  refine follows.concat rfl rfl rfl Array.toList_push ?_ ?_ ?_
  · intro scope closes
    contradiction
  · exact List.Sublist.refl _
  · intro id
    rw [openIds_concat_of_none rfl rfl, follows.isOpen_iff]
    rfl

/-- Nothing changes if there is no scope to leave. -/
theorem leave_none (follows : Follows calls answers scopes) :
    Follows (calls ++ [.leave]) (answers ++ [.closed none]) scopes := by
  refine follows.concat rfl rfl rfl (List.append_nil _).symm ?_ ?_ ?_
  · intro scope closes
    contradiction
  · exact List.Sublist.refl _
  · intro id
    rw [openIds_concat_of_none rfl rfl, follows.isOpen_iff]

theorem leave {outside : OpenScopes} (follows : Follows calls answers scopes)
    (closes : scopes.leave? = some (scope, outside)) :
    Follows (calls ++ [.leave]) (answers ++ [.closed (some scope)]) outside := by
  obtain ⟨stack, opened, log⟩ := scopes
  cases stack with
  | nil =>
      contradiction
  | cons inner outer =>
      obtain ⟨rfl, rfl⟩ := Prod.mk.inj (Option.some.inj closes)
      have lower := (List.pairwise_cons.mp follows.descending).1
      refine follows.concat rfl rfl rfl (List.append_nil _).symm ?_ ?_ ?_
      · rintro scope isClosed
        obtain rfl := Option.some.inj isClosed
        exact follows.id_le List.mem_cons_self
      · exact List.sublist_cons_self inner outer
      · intro id
        rw [mem_openIds_closed_iff, follows.isOpen_iff]
        constructor
        · rintro ⟨⟨scope, member, isId⟩, notInner⟩
          rcases List.mem_cons.mp member with rfl | inOuter
          · exact absurd isId notInner
          · exact ⟨scope, inOuter, isId⟩
        · rintro ⟨scope, member, rfl⟩
          exact ⟨⟨scope, List.mem_cons_of_mem _ member, rfl⟩, Nat.ne_of_gt (lower scope member)⟩

theorem serve (follows : Follows calls answers scopes) (call : ScopeCall) :
    Follows (calls ++ [call]) (answers ++ [(scopes.serve call).1]) (scopes.serve call).2 := by
  cases call with
  | enter kind node =>
      exact follows.enter kind node
  | mention symbol node =>
      exact follows.mention symbol node
  | leave =>
      cases closes : scopes.leave? with
      | none =>
          simp only [OpenScopes.serve, closes]
          exact follows.leave_none
      | some closed =>
          simp only [OpenScopes.serve, closes]
          exact follows.leave closes

end Follows

theorem follows_serveAll (calls : List ScopeCall) :
    Follows calls (answers calls {}) (serveAll calls {}) := by
  induction calls using List.reverseRecOn with
  | nil =>
      exact .empty
  | append_singleton before last inductionHypothesis =>
      rw [answers_concat, serveAll_concat]
      exact inductionHypothesis.serve last

/-! ## Scopes that are left -/

/-- No scope can be left exactly if all that were opened are closed. -/
theorem openIds_eq_empty_of_leave? (closes : (serveAll before {}).leave? = none) :
    openIds (answers before {}) = ∅ := by
  have follows := follows_serveAll before
  cases isStack : (serveAll before {}).stack with
  | nil =>
      ext id
      rw [follows.isOpen_iff, isStack]
      simp
  | cons inner outer =>
      simp [leave?, isStack] at closes

/-- A scope that is left is the last one entered of those that are open, and its mentions are those
since it was entered. -/
theorem exists_enter_of_leave? {outside : OpenScopes}
    (closes : (serveAll before {}).leave? = some (scope, outside)) :
    IsGreatest (openIds (answers before {})) scope.id ∧
      ∃ earlier inside, before = earlier ++ .enter scope.kind scope.node :: inside ∧
        scope.id = entered earlier + 1 ∧ scope.mentions = mentioned inside := by
  have follows := follows_serveAll before
  cases isStack : (serveAll before {}).stack with
  | nil =>
      simp [leave?, isStack] at closes
  | cons inner outer =>
      rw [leave?, isStack] at closes
      obtain ⟨rfl, rfl⟩ := Prod.mk.inj (Option.some.inj closes)
      have isInner : inner ∈ (serveAll before {}).stack := isStack ▸ List.mem_cons_self
      obtain ⟨earlier, inside, isEntered⟩ := follows.origin inner isInner
      refine ⟨⟨?_, ?_⟩, earlier, inside, isEntered.split, isEntered.id, ?_⟩
      · exact (follows.isOpen_iff _).mpr ⟨inner, isInner, rfl⟩
      · intro id isOpen
        obtain ⟨other, member, rfl⟩ := (follows.isOpen_iff id).mp isOpen
        have descending := follows.descending
        rw [isStack] at member descending
        rcases List.mem_cons.mp member with rfl | inOuter
        · exact Nat.le_refl _
        · exact Nat.le_of_lt ((List.pairwise_cons.mp descending).1 other inOuter)
      · have log : (serveAll before {}).log.toList = mentioned earlier ++ mentioned inside := by
          rw [follows.log, isEntered.split, mentioned_append]
          rfl
        rw [Array.toList_extract, log, isEntered.start, ← Array.length_toList, log]
        simp

theorem exists_leave?_of_closed
    (closed : (answers calls {})[place]? = some (.closed (some scope))) :
    ∃ outside, (serveAll (calls.take place) {}).leave? = some (scope, outside) := by
  rw [getElem?_answers, Option.map_eq_some_iff] at closed
  obtain ⟨call, _, answered⟩ := closed
  cases call with
  | enter kind node | mention symbol node =>
      contradiction
  | leave =>
      cases closes : (serveAll (calls.take place) {}).leave? with
      | none =>
          simp [serve, closes] at answered
      | some result =>
          obtain ⟨other, outside⟩ := result
          simp only [serve, closes, ScopeAnswer.closed.injEq, Option.some.injEq] at answered
          exact ⟨outside, by rw [answered]⟩

/-- The mentions of an inner scope are a stretch of those of an outer one. -/
theorem mentioned_infix {outerCall innerCall : ScopeCall}
    {aroundOuter insideOuter aroundInner insideInner rest : List ScopeCall}
    (split : aroundOuter ++ outerCall :: insideOuter =
      aroundInner ++ innerCall :: insideInner ++ rest)
    (isEnter : outerCall.mention? = none) (inOrder : entered aroundOuter < entered aroundInner) :
    mentioned insideInner <:+: mentioned insideOuter := by
  rw [List.append_assoc] at split
  rcases List.append_eq_append_iff.mp split with ⟨more, isLonger, same⟩ | ⟨more, isShorter, _⟩
  · have whole : mentioned insideOuter = mentioned (outerCall :: insideOuter) := by
      rw [mentioned, mentioned, List.filterMap_cons_none isEnter]
    have inner : insideInner <:+: innerCall :: insideInner :=
      (List.suffix_cons innerCall insideInner).isInfix
    rw [whole, same, ← List.append_assoc]
    exact (inner.trans (List.infix_append more _ rest)).filterMap mention?
  · have counted := entered_append aroundInner more
    rw [← isShorter] at counted
    omega

/-- Of two scopes that are left one after the other, the first is inside the second if it was
entered later. Its references to a symbol are then a stretch of the references in the outer scope.
-/
theorem references_infix {first second : Nat} {inner outer : Scope} (inOrder : first < second)
    (innerClosed : (answers calls {})[first]? = some (.closed (some inner)))
    (outerClosed : (answers calls {})[second]? = some (.closed (some outer)))
    (nested : outer.id < inner.id) (symbol : SymbolNumber) :
    inner.references symbol <:+: outer.references symbol := by
  obtain ⟨_, innerCloses⟩ := exists_leave?_of_closed innerClosed
  obtain ⟨_, outerCloses⟩ := exists_leave?_of_closed outerClosed
  obtain ⟨_, aroundInner, insideInner, innerSplit, innerId, innerMentions⟩ :=
    exists_enter_of_leave? innerCloses
  obtain ⟨_, aroundOuter, insideOuter, outerSplit, outerId, outerMentions⟩ :=
    exists_enter_of_leave? outerCloses
  obtain ⟨rest, isLater⟩ := List.take_prefix_take_left (l := calls) (Nat.le_of_lt inOrder)
  rw [innerSplit, outerSplit] at isLater
  have mentions : inner.mentions <:+: outer.mentions := by
    rw [innerMentions, outerMentions]
    exact mentioned_infix isLater.symm rfl (by omega)
  exact (mentions.filter _).map _

/-! ## Every history -/

example :
    answers
        [.enter .file (.node 9), .mention ⟨2⟩ (.node 1), .enter .block (.node 8),
          .mention ⟨1⟩ (.node 2), .mention ⟨2⟩ (.node 3), .leave, .leave, .leave] {} =
      [.opened 1, .noted, .opened 2, .noted, .noted,
        .closed (some ⟨.block, 2, .node 8, [⟨⟨1⟩, .node 2⟩, ⟨⟨2⟩, .node 3⟩]⟩),
        .closed (some ⟨.file, 1, .node 9, [⟨⟨2⟩, .node 1⟩, ⟨⟨1⟩, .node 2⟩, ⟨⟨2⟩, .node 3⟩]⟩),
        .closed none] := by
  decide +kernel

end OpenScopes

end NameLowering
