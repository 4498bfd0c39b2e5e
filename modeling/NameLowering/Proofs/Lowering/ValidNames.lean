import NameLowering.Proofs.Lowering.Outcomes
import NameLowering.Proofs.Lowering.Reachable
import NameLowering.Proofs.Names.Validity
import NameLowering.Proofs.Walk.PlainNames

/-!
# Validity of emitted names

The variables in what the use of a name turns into have names that the target accepts. There is
one exception: a symbol that is marked as exported keeps its name, and if no container keeps a table
for it, the name comes out as that of a variable.
-/

namespace NameLowering

/-- The variables in an expression. -/
def Lua.Expr.idents : Lua.Expr → List Lua.Ident
  | ident name => [name]
  | index table key _ => table.idents ++ key.idents
  | binary left _ right => left.idents ++ right.idents
  | text _ | numeral _ | nil => []

namespace Setting

variable {setting : Setting} {ref : NodeRef} {name : SourceName} {state : UnitState}

/-! ## Fixed names -/

/-- What stands for a library global holds valid names only. -/
theorem accepts_of_replacement
    {value : Lua.Expr} (replacement : setting.program.libraryReplacement? ref = some value) :
    ∀ ident ∈ value.idents, setting.target.accepts ident.text = true := by
  have library : ∀ target : Target, target.accepts "math" = true ∧ target.accepts "_G" = true := by
    intro target
    cases target <;> decide
  rcases Program.forms_of_libraryReplacement? replacement with rfl | rfl | rfl
  · simp [Lua.Expr.idents]
  · simpa [Lua.Expr.idents] using (library setting.target).1
  · simpa [Lua.Expr.idents] using (library setting.target).2

theorem accepts_placeholderName (target : Target) :
    target.accepts Lua.placeholderName = true := by
  cases target <;> decide

theorem accepts_exportsTable (target : Target) : target.accepts Lua.exportsTable = true := by
  cases target <;> decide

/-! ## Kept names -/

/-- A variable keeps a name that the target does not accept: its symbol is marked as exported, but
there is no table for it to be a field of. -/
structure KeepsInvalid (setting : Setting) (ref : NodeRef) (name : SourceName) : Prop where
  exported :
    ∃ symbol, setting.program.boundSymbol? ref = some symbol ∧ symbol.isExported = true ∧
      symbol.isAmbient = false ∧ setting.target.accepts symbol.name = false
  homeless : setting.program.exportScopeAt? ref = none
  /-- Neither the undefined value nor a library global stands in for it. -/
  defined : name.keyword ≠ some .undefinedKeyword
  ordinary : setting.program.libraryReplacement? ref = none
  lowerable : (setting.program.useVerdict ref).lowerable = true

/-- A name that is not escaped is accepted, unless its symbol is marked as exported. -/
theorem accepts_of_kept
    (agree : setting.program.NamesAgree)
    (named : setting.program.tree.name? ref = some name)
    (kept : setting.escapes ref = false)
    (notExported : ∀ symbol, setting.program.boundSymbol? ref = some symbol →
      symbol.isExported = true → symbol.isAmbient = false →
        setting.target.accepts symbol.name = true) :
    setting.target.accepts name.text = true := by
  cases bound : setting.program.symbolAt ref with
  | none =>
      simp only [escapes, bound, escapesText, named, Option.any_some] at kept
      exact Target.accepts_of_safe kept
  | some symbol =>
      obtain ⟨held, found, sameName⟩ := agree ref name symbol named bound
      have isBound : setting.program.boundSymbol? ref = some held := by
        rw [Program.boundSymbol?, bound, Option.bind_some, found]
      simp only [escapes, bound, escapesSymbol, found, Option.any_some, Symbol.mustEscape] at kept
      rw [← sameName]
      cases ambient : held.isAmbient with
      | true =>
          simpa [ambient] using kept
      | false =>
          cases exported : held.isExported with
          | true =>
              exact notExported held isBound exported ambient
          | false =>
              refine Target.accepts_of_safe ?_
              simpa [ambient, exported] using kept

theorem accepts_variableFor
    (agree : setting.program.NamesAgree) (reachable : setting.Reachable state)
    (named : setting.program.tree.name? ref = some name)
    (notExported : ∀ symbol, setting.program.boundSymbol? ref = some symbol →
      symbol.isExported = true → symbol.isAmbient = false →
        setting.target.accepts symbol.name = true) :
    setting.target.accepts (setting.variableFor ref name state).1.text = true := by
  obtain ⟨requests, history⟩ := reachable.exists_history
  rw [variableFor_text, history]
  refine NameTable.accepts_serve requests _ fun kept => ?_
  rw [variableRequest_escapes] at kept
  rw [variableRequest_name]
  exact accepts_of_kept agree named kept notExported

/-- A name that is kept although the target does not accept it is emitted as it is written. -/
theorem variableFor_text_of_keepsInvalid
    (agree : setting.program.NamesAgree)
    (named : setting.program.tree.name? ref = some name)
    (keeps : setting.KeepsInvalid ref name) (state : UnitState) :
    (setting.variableFor ref name state).1.text = name.text ∧
      setting.target.accepts name.text = false := by
  obtain ⟨symbol, isBound, exported, ambient, refused⟩ := keeps.exported
  obtain ⟨bound, symbolBound, found⟩ := Option.bind_eq_some_iff.mp isBound
  obtain ⟨held, heldFound, sameName⟩ := agree ref name bound named symbolBound
  obtain rfl := Option.some.inj (found.symm.trans heldFound)
  have kept : (setting.variableRequest ref name).escapes setting.target = false := by
    rw [variableRequest_escapes]
    simp [escapes, symbolBound, escapesSymbol, found, Symbol.mustEscape, ambient, exported]
  rw [variableFor_text, NameTable.serve_of_kept kept, variableRequest_name, ← sameName]
  exact ⟨rfl, refused⟩

/-! ## Expressions -/

/-- The use of a name turns into an expression, and all variables in it have names that the target
accepts, except if the name is kept although it is not accepted. -/
theorem accepts_idents_iff
    (setting : Setting) (agree : setting.program.NamesAgree) (reachable : setting.Reachable state)
    (named : setting.program.tree.name? ref = some name) :
    ∃ value, (setting.lowerExpression ref state).1 = .ok value ∧
      ((∀ ident ∈ value.idents, setting.target.accepts ident.text = true) ↔
        ¬ setting.KeepsInvalid ref name) := by
  have expected : setting.program.expectName ref = .ok name :=
    Program.expectName_eq_ok_iff.mpr named
  refine ⟨(setting.expressionFor ref name state).1, ?_, ?_⟩
  · simp only [lowerExpression, atName, expected]
  · have outcome := setting.outcome_expressionFor ref name state
    generalize (setting.expressionFor ref name state).1 = value at outcome
    generalize setting.expressionEffect ref name = effect at outcome
    cases outcome with
    | undefined _ isUndefined =>
        exact iff_of_true (by simp [Lua.Expr.idents]) fun keeps => keeps.defined isUndefined
    | replaced _ _ replacement =>
        refine iff_of_true (accepts_of_replacement replacement) fun keeps => ?_
        rw [keeps.ordinary] at replacement
        contradiction
    | refused refused =>
        refine iff_of_true ?_ fun keeps => ?_
        · simpa [Lua.Expr.idents, Lua.Ident.placeholder]
            using accepts_placeholderName setting.target
        · rw [keeps.lowerable] at refused
          contradiction
    | plain notExported defined ordinary lowerable =>
        simp only [Lua.Expr.idents, List.forall_mem_singleton]
        constructor
        · intro accepted keeps
          obtain ⟨sameText, refused⟩ :=
            variableFor_text_of_keepsInvalid agree named keeps state
          rw [sameText, refused] at accepted
          contradiction
        · intro notKept
          refine accepts_variableFor agree reachable named fun symbol bound exported ambient => ?_
          by_contra refused
          refine notKept ⟨⟨symbol, bound, exported, ambient, ?_⟩, notExported, defined, ordinary,
            lowerable⟩
          simpa using refused
    | fileExport exported _ _ _ =>
        refine iff_of_true ?_ fun keeps => ?_
        · simpa [Lua.Expr.idents] using accepts_exportsTable setting.target
        · rw [keeps.homeless] at exported
          contradiction
    | memberExport exported _ _ _ _ =>
        refine iff_of_true ?_ fun keeps => ?_
        · obtain ⟨requests, history⟩ := reachable.exists_history
          simp only [Lua.Expr.idents, List.append_nil, List.forall_mem_singleton, containerIdent,
            apply, history, ← NameTable.serveAll_append]
          exact NameTable.accepts_serve_mangle _ _
        · rw [keeps.homeless] at exported
          contradiction

end Setting

/-! ## An export without a container -/

/-- A reference to a variable that is spelt as a reserved word and marked as exported, in a file
that is no module. -/
def Program.orphanExport : Program :=
  let (reference, program) := Program.addIdentifier { fileName := "main.ts" } "end" 0
  let (_, program) := program.addSourceFile [reference]
  let (symbol, symbols) :=
    program.symbols.add { name := "end", flags := SymbolFlags.localVariable.union .exported }
  { program with symbols }.bind reference symbol

theorem Program.orphanExport_namesAgree : Program.orphanExport.NamesAgree := by
  intro ref name symbol named bound
  match ref with
  | .absent => contradiction
  | .node 0 =>
      obtain rfl : symbol = ⟨0⟩ := (Option.some.inj bound).symm
      exact ⟨_, rfl, congrArg SourceName.text (Option.some.inj named)⟩
  | .node (index + 1) =>
      have unbound : Program.orphanExport.symbolAt (.node (index + 1)) = none := by
        rfl
      rw [unbound] at bound
      contradiction

/-- The variable comes out as a reserved word. -/
theorem Program.lowerExpression_orphanExport :
    (Setting.lowerExpression { program := .orphanExport } (.node 0) {}).1 =
      .ok (.ident
        { text := "end", sourceName := some "end", symbol := some ⟨1⟩
          source := some (.node 0) }) := by
  decide +kernel

theorem Setting.not_accepts_idents :
    ¬ ∀ (setting : Setting) (state : UnitState) (ref : NodeRef) (value : Lua.Expr),
      setting.program.NamesAgree → setting.Reachable state →
        (setting.lowerExpression ref state).1 = .ok value →
          ∀ ident ∈ value.idents, setting.target.accepts ident.text = true := by
  intro accepts
  have accepted := accepts { program := .orphanExport } {} (.node 0) _
    Program.orphanExport_namesAgree .fresh Program.lowerExpression_orphanExport _
    List.mem_cons_self
  exact absurd accepted (by decide)

/-- The name of the variable is one that is kept although it is not accepted. -/
theorem Setting.accepts_idents_iff_orphanExport :
    Program.orphanExport.NamesAgree ∧
      Setting.Reachable { program := .orphanExport } {} ∧
      Program.orphanExport.tree.name? (.node 0) = some { text := "end" } ∧
      Setting.KeepsInvalid { program := .orphanExport } (.node 0) { text := "end" } := by
  have named : Program.orphanExport.tree.name? (.node 0) = some { text := "end" } := rfl
  refine ⟨Program.orphanExport_namesAgree, .fresh, named, ?_⟩
  obtain ⟨value, lowered, exactly⟩ :=
    Setting.accepts_idents_iff { program := .orphanExport } Program.orphanExport_namesAgree
      .fresh named
  rw [Program.lowerExpression_orphanExport] at lowered
  obtain rfl := Except.ok.inj lowered
  by_contra notKept
  exact absurd (exactly.mpr notKept _ List.mem_cons_self) (by decide)

end NameLowering
