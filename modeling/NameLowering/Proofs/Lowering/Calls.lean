import Mathlib.Data.Option.Basic
import NameLowering.Program.Build
import NameLowering.Proofs.Lowering.Stability

/-!
# Runs of calls

Names of a unit may be lowered in any order, each in any of the three ways and any number of times.
Every answer of such a run is the one that the state at the end of the run gives, so answers to the
same call agree, and the answers about one local variable fit together.
-/

namespace NameLowering

/-- A name to be lowered, and the way to lower it. -/
inductive LoweringCall where
  | reference (ref : NodeRef)
  | declaration (ref : NodeRef)
  | expression (ref : NodeRef)
deriving DecidableEq, Repr

def LoweringCall.ref : LoweringCall → NodeRef
  | reference ref | declaration ref | expression ref => ref

/-- What a name was lowered to, or why it was not. -/
inductive LoweringAnswer where
  | ident (result : Except LoweringError Lua.Ident)
  | expr (result : Except LoweringError Lua.Expr)
deriving DecidableEq

structure AnsweredCall where
  call : LoweringCall
  answer : LoweringAnswer
deriving DecidableEq

namespace Setting

def perform (setting : Setting) (call : LoweringCall) (state : UnitState) :
    LoweringAnswer × UnitState :=
  match call with
  | .reference ref => (setting.lowerVariable ref state).map .ident id
  | .declaration ref => (setting.lowerDeclared ref state).map .ident id
  | .expression ref => (setting.lowerExpression ref state).map .expr id

/-- The state after a run of calls. -/
def performAll (setting : Setting) : List LoweringCall → UnitState → UnitState
  | [], state => state
  | call :: rest, state => setting.performAll rest (setting.perform call state).2

/-- A run of calls with the answers. -/
def answers (setting : Setting) : List LoweringCall → UnitState → List AnsweredCall
  | [], _ => []
  | call :: rest, state =>
    { call, answer := (setting.perform call state).1 } ::
      setting.answers rest (setting.perform call state).2

/-! ## Single calls -/

def answerFor (setting : Setting) (call : LoweringCall) (name : SourceName) (state : UnitState) :
    LoweringAnswer :=
  match call with
  | .reference ref => .ident (.ok (setting.variableUsed ref name state).1)
  | .declaration ref => .ident (.ok (setting.variableFor ref name state).1)
  | .expression ref => .expr (.ok (setting.expressionFor ref name state).1)

def callEffect (setting : Setting) (call : LoweringCall) (name : SourceName) : Effect :=
  match call with
  | .reference ref => setting.useEffect ref name
  | .declaration ref => setting.variableEffect ref name
  | .expression ref => setting.expressionEffect ref name

variable {setting : Setting} {call : LoweringCall} {name : SourceName}
  {state later : UnitState}

theorem perform_of_name (held : setting.program.expectName call.ref = .ok name) :
    setting.perform call state =
      (setting.answerFor call name state,
        setting.apply call.ref (setting.callEffect call name) state) := by
  cases call with
  | reference ref =>
      simp only [LoweringCall.ref] at held
      simp [perform, lowerVariable, atName, held, answerFor, callEffect, variableUsed_snd,
        LoweringCall.ref]
  | declaration ref =>
      simp only [LoweringCall.ref] at held
      simp [perform, lowerDeclared, atName, held, answerFor, callEffect, variableFor_eq,
        LoweringCall.ref]
  | expression ref =>
      simp only [LoweringCall.ref] at held
      simp [perform, lowerExpression, atName, held, answerFor, callEffect, expressionFor_snd,
        LoweringCall.ref]

def refusal (call : LoweringCall) (error : LoweringError) : LoweringAnswer :=
  match call with
  | .reference _ | .declaration _ => .ident (.error error)
  | .expression _ => .expr (.error error)

theorem perform_of_error {error : LoweringError}
    (nameless : setting.program.expectName call.ref = .error error) :
    setting.perform call state = (refusal call error, state) := by
  cases call with
  | reference ref | declaration ref | expression ref =>
      simp only [LoweringCall.ref] at nameless
      simp [perform, lowerVariable, lowerDeclared, lowerExpression, atName, nameless, refusal]

theorem extends_perform (call : LoweringCall) :
    state.Extends (setting.perform call state).2 := by
  cases held : setting.program.expectName call.ref with
  | error error =>
      rw [perform_of_error held]
      exact UnitState.Extends.refl state
  | ok name =>
      rw [perform_of_name held]
      exact extends_apply _

theorem answerFor_stable
    (extension :
      (setting.apply call.ref (setting.callEffect call name) state).Extends later) :
    setting.answerFor call name later = setting.answerFor call name state := by
  cases call with
  | reference ref =>
      change (setting.apply ref (setting.useEffect ref name) state).Extends later at extension
      simp only [answerFor, variableUsed_stable extension]
  | declaration ref =>
      change (setting.apply ref (setting.variableEffect ref name) state).Extends later at extension
      simp only [answerFor, variableFor_stable extension]
  | expression ref =>
      change
        (setting.apply ref (setting.expressionEffect ref name) state).Extends later at extension
      simp only [answerFor, expressionFor_stable extension]

/-- Asked again at any later time, a call has the same answer. -/
theorem perform_stable
    (extension : (setting.perform call state).2.Extends later) :
    (setting.perform call later).1 = (setting.perform call state).1 := by
  cases held : setting.program.expectName call.ref with
  | error error =>
      rw [perform_of_error held, perform_of_error held]
  | ok name =>
      rw [perform_of_name held] at extension ⊢
      rw [perform_of_name held]
      exact answerFor_stable extension

/-! ## Runs -/

theorem extends_performAll (calls : List LoweringCall) (state : UnitState) :
    state.Extends (setting.performAll calls state) := by
  induction calls generalizing state with
  | nil =>
      exact UnitState.Extends.refl state
  | cons call rest inductionHypothesis =>
      exact (extends_perform call).trans (inductionHypothesis _)

/-- Every answer of a run was given at some moment of it. -/
theorem exists_moment_of_mem_answers
    {calls : List LoweringCall} {answered : AnsweredCall}
    (member : answered ∈ setting.answers calls state) :
    ∃ moment, answered.answer = (setting.perform answered.call moment).1 ∧
      (setting.perform answered.call moment).2.Extends (setting.performAll calls state) := by
  induction calls generalizing state with
  | nil =>
      simp [answers] at member
  | cons call rest inductionHypothesis =>
      rcases List.mem_cons.mp member with rfl | restMember
      · exact ⟨state, rfl, extends_performAll rest _⟩
      · exact inductionHypothesis restMember

/-- The state at the end of a run gives every answer of the run. -/
theorem answer_eq_perform_performAll
    {calls : List LoweringCall} {answered : AnsweredCall}
    (member : answered ∈ setting.answers calls state) :
    answered.answer = (setting.perform answered.call (setting.performAll calls state)).1 := by
  obtain ⟨moment, given, extension⟩ := exists_moment_of_mem_answers member
  rw [given, perform_stable extension]

end Setting

/-! ## Local variables -/

/-- A use and a declaration of one local variable: two names with one text that are bound to one
symbol, which is neither kept in a table nor a library global. -/
structure Program.SameLocal (program : Program) (declared used : NodeRef) : Prop where
  named : ∃ declaredName usedName,
    program.tree.name? declared = some declaredName ∧ program.tree.name? used = some usedName ∧
      declaredName.text = usedName.text ∧ usedName.keyword ≠ some .undefinedKeyword
  bound : ∃ symbol,
    program.symbolAt declared = some symbol ∧ program.symbolAt used = some symbol ∧
      program.symbols.exportScope? symbol = none ∧
      (program.symbols.get? symbol).any Symbol.isStandardLibrary = false

namespace Setting

variable {setting : Setting} {declared used : NodeRef} {declaredName usedName : SourceName}
  {state : UnitState}

/-- Names with one text that are bound to one symbol stand for the same variable. -/
theorem variableFor_agree {symbol : SymbolRef}
    (sameText : declaredName.text = usedName.text)
    (declaredBound : setting.program.symbolAt declared = some symbol)
    (usedBound : setting.program.symbolAt used = some symbol) :
    (setting.variableFor used usedName state).1.text =
        (setting.variableFor declared declaredName state).1.text ∧
      (setting.variableFor used usedName state).1.symbol =
        (setting.variableFor declared declaredName state).1.symbol := by
  have sameRequest :
      setting.variableRequest used usedName = setting.variableRequest declared declaredName := by
    simp only [variableRequest, escapes, declaredBound, usedBound, sameText]
  rw [variableFor_eq, variableFor_eq, sameRequest, declaredBound, usedBound]
  exact ⟨rfl, congrArg some (Numbering.fst_see_eq used declared)⟩

/-- The use of a local variable is that variable, unless the use cannot be lowered. -/
theorem expressionFor_of_sameLocal
    (same : setting.program.SameLocal declared used)
    (named : setting.program.tree.name? used = some usedName) :
    (setting.expressionFor used usedName state).1 =
      .ident (setting.variableUsed used usedName state).1 := by
  obtain ⟨_, _, _, usedNamed, _, notUndefined⟩ := same.named
  obtain ⟨symbol, _, usedBound, notExported, notLibrary⟩ := same.bound
  obtain rfl : usedName = _ := Option.some.inj (named.symm.trans usedNamed)
  have noScope : setting.program.exportScopeAt? used = none := by
    simp only [Program.exportScopeAt?, usedBound, Option.bind_some, notExported]
  have noReplacement : setting.program.libraryReplacement? used = none := by
    cases found : setting.program.symbols.get? symbol with
    | none =>
        simp [Program.libraryReplacement?, Program.boundSymbol?, usedBound, found]
    | some held =>
        rw [found, Option.any_some] at notLibrary
        simp [Program.libraryReplacement?, Program.boundSymbol?, usedBound, found, notLibrary,
          guard]
  rw [expressionFor_of_variable noScope notUndefined noReplacement]

/-- In a run of calls the same call always has the same answer, and a declaration of a local
variable and a use of it are lowered to variables of one text and one number, whichever comes
first, unless the use cannot be lowered. -/
theorem answers_agree (setting : Setting) (calls : List LoweringCall) (state : UnitState) :
    (∀ first ∈ setting.answers calls state, ∀ second ∈ setting.answers calls state,
      first.call = second.call → first.answer = second.answer) ∧
    (∀ first ∈ setting.answers calls state, ∀ second ∈ setting.answers calls state,
      ∀ declared used, first.call = .declaration declared → second.call = .expression used →
        setting.program.SameLocal declared used →
          ∃ ident expr, first.answer = .ident (.ok ident) ∧ second.answer = .expr (.ok expr) ∧
            (expr = .ident (.placeholder (some used)) ∨
              ∃ other, expr = .ident other ∧ other.text = ident.text ∧ other.symbol = ident.symbol)) := by
  constructor
  · intro first firstMember second secondMember sameCall
    rw [answer_eq_perform_performAll firstMember, answer_eq_perform_performAll secondMember,
      sameCall]
  · intro first firstMember second secondMember declared used firstCall secondCall same
    obtain ⟨declaredName, usedName, declaredNamed, usedNamed, sameText, _⟩ := same.named
    obtain ⟨symbol, declaredBound, usedBound, _⟩ := same.bound
    have firstAnswer := answer_eq_perform_performAll firstMember
    rw [firstCall, perform_of_name (Program.expectName_eq_ok_iff.mpr declaredNamed)] at firstAnswer
    have secondAnswer := answer_eq_perform_performAll secondMember
    rw [secondCall, perform_of_name (Program.expectName_eq_ok_iff.mpr usedNamed)] at secondAnswer
    refine ⟨_, _, firstAnswer, secondAnswer, ?_⟩
    rw [expressionFor_of_sameLocal same usedNamed]
    cases lowerable : (setting.program.useVerdict used).lowerable with
    | false =>
        rw [variableUsed_of_not_lowerable lowerable]
        exact Or.inl rfl
    | true =>
        rw [variableUsed_of_lowerable lowerable]
        exact Or.inr ⟨_, rfl, variableFor_agree sameText declaredBound usedBound⟩

end Setting

/-! ## A variable used before its declaration -/

/-- Two names spelt as a reserved word that are bound to one local variable. -/
def Program.usedBeforeDeclared : Program :=
  let (used, program) := Program.addIdentifier { fileName := "main.ts" } "end" 0
  let (declared, program) := program.addIdentifier "end" 4
  let (symbol, symbols) := program.symbols.add { name := "end", flags := .localVariable }
  (({ program with symbols }).bind used symbol).bind declared symbol

theorem Program.usedBeforeDeclared_sameLocal :
    Program.usedBeforeDeclared.SameLocal (.node 1) (.node 0) where
  named := ⟨{ text := "end" }, { text := "end" }, by rfl, by rfl, rfl, by decide⟩
  bound := ⟨⟨0⟩, by rfl, by rfl, by rfl, by rfl⟩

theorem Program.answers_usedBeforeDeclared :
    Setting.answers { program := .usedBeforeDeclared }
        [.expression (.node 0), .declaration (.node 1)] {} =
      [⟨.expression (.node 0), .expr (.ok (.ident
          { text := "____end", sourceName := some "end", symbol := some ⟨1⟩,
            source := some (.node 0) }))⟩,
        ⟨.declaration (.node 1), .ident (.ok
          { text := "____end", sourceName := some "end", symbol := some ⟨1⟩,
            source := some (.node 1) })⟩] := by
  decide +kernel

theorem Setting.answers_agree_usedBeforeDeclared :
    ∃ first ∈ Setting.answers { program := .usedBeforeDeclared }
        [.expression (.node 0), .declaration (.node 1)] {},
      first.call = .declaration (.node 1) ∧
        ∃ (ident : Lua.Ident) (expr : Lua.Expr), first.answer = .ident (.ok ident) ∧
          (expr = .ident (.placeholder (some (.node 0))) ∨
            ∃ other, expr = .ident other ∧
              other.text = ident.text ∧ other.symbol = ident.symbol) := by
  have agree := (Setting.answers_agree { program := .usedBeforeDeclared }
    [.expression (.node 0), .declaration (.node 1)] {}).2
  rw [Program.answers_usedBeforeDeclared] at agree ⊢
  obtain ⟨ident, expr, declared, _, fits⟩ :=
    agree _ (List.mem_cons_of_mem _ List.mem_cons_self) _ List.mem_cons_self _ _ rfl rfl
      Program.usedBeforeDeclared_sameLocal
  exact ⟨_, List.mem_cons_of_mem _ List.mem_cons_self, rfl, ident, expr, declared, fits⟩

end NameLowering
