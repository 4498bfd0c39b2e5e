import NameLowering.Proofs.Lowering.Effects
import NameLowering.Proofs.Tree.Callees

/-!
# Verdicts on uses

What is to be said of the use of a name follows from the extension that the name stands for, from
the calls around it and from the symbol that it is bound to. Where the climbs to callees and calls
find what the slots say, this is what the use is blamed for.
-/

namespace NameLowering

/-! ## What is due -/

/-- A name that nothing can stand for unless it is called, and is not called. -/
def Program.IsRefused (program : Program) (ref : NodeRef) : Prop :=
  (program.extensionAt? ref = some .multiFunction ∨
      program.extensionAt? ref = some .rangeFunction) ∧
    ¬ program.tree.IsCalled ref

open Classical in
/-- What is to be said of the use of a name. -/
noncomputable def Setting.problemsDue (setting : Setting) (ref : NodeRef) : List Problem :=
  let extension := setting.program.extensionAt? ref
  let called := setting.program.tree.IsCalled ref
  let iterated :=
    ∃ call, setting.program.tree.IsInnermostCall ref call ∧ setting.program.tree.IsIterated call
  if extension = some .multiFunction ∧ ¬ called then
    [.multiFunctionUse]
  else if extension = some .rangeFunction ∧ ¬ called then
    [.rangeFunctionUse]
  else
    (if extension.any Extension.isOperator ∧ ¬ called then [.operatorUse] else []) ++
      (if extension.any Extension.isTableAccess ∧ ¬ called then [.tableAccessUse] else []) ++
      (if setting.program.isForRangeAt ref ∧ ¬ iterated then
        [.forRangeCall "can be used only as an iterable in a for...of loop"]
      else
        []) ++
      match setting.program.boundSymbol? ref with
      | some symbol =>
        if symbol.isAmbient ∧ ¬ setting.target.accepts symbol.name then
          [.ambientName symbol.name]
        else
          []
      | none => []

/-! ## Verdicts -/

namespace Setting

variable {setting : Setting} {ref : NodeRef} {name : SourceName}

theorem nameProblems_eq :
    setting.nameProblems ref =
      match setting.program.boundSymbol? ref with
      | some symbol => symbol.nameProblems setting.target
      | none => [] := by
  unfold nameProblems Program.boundSymbol? symbolProblems
  cases setting.program.symbolAt ref <;> rfl

theorem useVerdict_of_called (called : setting.program.tree.isCallee ref = true) :
    setting.program.useVerdict ref =
      { problems := setting.program.forRangeProblems ref, lowerable := true } := by
  simp [Program.useVerdict, Program.bareExtension?, Tree.isBareUse, called]

theorem useVerdict_of_bare (bare : setting.program.tree.isCallee ref = false) :
    setting.program.useVerdict ref =
      let problems := ((setting.program.extensionAt? ref).bind Extension.bareUseProblem?).toList
      if (setting.program.extensionAt? ref).any Extension.isCalledOnly then
        { problems, lowerable := false }
      else
        { problems := problems ++ setting.program.forRangeProblems ref, lowerable := true } := by
  simp [Program.useVerdict, Program.bareExtension?, Tree.isBareUse, bare]

theorem lowerable_eq_false_iff
    (callee : setting.program.tree.isCallee ref = true ↔ setting.program.tree.IsCalled ref) :
    (setting.program.useVerdict ref).lowerable = false ↔ setting.program.IsRefused ref := by
  unfold Program.IsRefused
  rw [← callee]
  cases isCallee : setting.program.tree.isCallee ref with
  | true =>
      simp [useVerdict_of_called isCallee]
  | false =>
      rw [useVerdict_of_bare isCallee]
      cases setting.program.extensionAt? ref with
      | none =>
          simp
      | some extension =>
          cases extension <;> simp [Extension.isCalledOnly]

theorem useEffect_problems
    (callee : setting.program.tree.isCallee ref = true ↔ setting.program.tree.IsCalled ref)
    (iterated : setting.program.tree.isInIteratedCall ref = true ↔
      ∃ call, setting.program.tree.IsInnermostCall ref call ∧ setting.program.tree.IsIterated call) :
    (setting.useEffect ref name).problems = setting.problemsDue ref := by
  have ofSymbol :
      (setting.variableEffect ref name).problems =
        match setting.program.boundSymbol? ref with
        | some symbol =>
          if symbol.isAmbient ∧ ¬ setting.target.accepts symbol.name then
            [.ambientName symbol.name]
          else
            []
        | none => [] := by
    rw [variableEffect, nameProblems_eq]
    cases setting.program.boundSymbol? ref with
    | none => rfl
    | some symbol => simp [Symbol.nameProblems]
  have ofLoop :
      setting.program.forRangeProblems ref =
        if setting.program.isForRangeAt ref ∧
            ¬ setting.program.tree.isInIteratedCall ref = true then
          [.forRangeCall "can be used only as an iterable in a for...of loop"]
        else
          [] := by
    simp [Program.forRangeProblems]
  simp only [problemsDue, ← callee, ← iterated, ← ofSymbol]
  cases isCallee : setting.program.tree.isCallee ref with
  | true =>
      simp [useEffect, useVerdict_of_called isCallee, Effect.andThen, ofLoop]
  | false =>
      rw [useEffect, useVerdict_of_bare isCallee]
      cases setting.program.extensionAt? ref with
      | none =>
          simp [Effect.andThen, ofLoop]
      | some extension =>
          cases extension <;>
            simp [Effect.andThen, ofLoop, Extension.isCalledOnly, Extension.bareUseProblem?,
              Extension.isOperator, Extension.isTableAccess]

end Setting

end NameLowering
