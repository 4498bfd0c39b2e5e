import NameLowering.Proofs.Lowering.Effects

/-!
# Stability of lowering

The tables of a unit only grow, and what they know decides how a name is lowered. So a name that is
lowered again, whatever was lowered in between, is lowered to the same; and the declaration and the
uses of a local variable agree on its output name and its number, whichever comes first.
-/

namespace NameLowering

/-! ## Growing states -/

/-- The later state knows the names and numbers that the earlier one does. -/
structure UnitState.Extends (earlier later : UnitState) : Prop where
  names : earlier.names.Extends later.names
  numbering : earlier.numbering.Extends later.numbering

theorem UnitState.Extends.refl (state : UnitState) : state.Extends state :=
  ⟨NameTable.Extends.refl _, fun _ _ known => known⟩

theorem UnitState.Extends.trans
    {first second third : UnitState} (early : first.Extends second)
    (late : second.Extends third) :
    first.Extends third :=
  ⟨early.names.trans late.names, fun _ _ known => late.numbering (early.numbering known)⟩

theorem UnitState.numbering_extends_trackAll
    (ref : NodeRef) (symbols : List SymbolRef) (state : UnitState) :
    state.numbering.Extends (state.trackAll ref symbols).numbering := by
  refine trackAll_invariant (fun later => state.numbering.Extends later.numbering) ?_ symbols
    fun _ _ known => known
  intro later symbol extension other number known
  exact Numbering.extends_see later.numbering symbol ref (extension known)

theorem UnitState.sighting?_trackAll
    {number : SymbolNumber} {sighting : Sighting} {state : UnitState}
    (known : state.numbering.sighting? number = some sighting)
    (ref : NodeRef) (symbols : List SymbolRef) :
    (state.trackAll ref symbols).numbering.sighting? number = some sighting := by
  refine trackAll_invariant (fun later => later.numbering.sighting? number = some sighting) ?_
    symbols known
  intro later symbol stillKnown
  exact Numbering.sighting?_see stillKnown symbol ref

namespace Setting

variable {setting : Setting} {ref : NodeRef} {name : SourceName} {state later : UnitState}

theorem extends_apply (effect : Effect) : state.Extends (setting.apply ref effect state) where
  names := NameTable.extends_serveAll effect.requests state.names
  numbering := state.numbering_extends_trackAll ref effect.tracked

/-- The later state knows what was added between the two. -/
theorem extends_of_apply_andThen {first second : Effect}
    (extension : (setting.apply ref (first.andThen second) state).Extends later) :
    (setting.apply ref first state).Extends later := by
  rw [apply_andThen] at extension
  exact (extends_apply second).trans extension

/-! ## Stable results -/

theorem serve_stable {target : Target} {request : NameRequest} {table laterTable : NameTable}
    (extension : (table.serve target request).2.Extends laterTable) :
    (laterTable.serve target request).1 = (table.serve target request).1 := by
  rw [NameTable.serve_eq_outputName] at extension ⊢
  rw [NameTable.serve_eq_outputName]
  exact NameTable.outputName_stable extension

theorem variableFor_stable
    (extension : (setting.apply ref (setting.variableEffect ref name) state).Extends later) :
    (setting.variableFor ref name later).1 = (setting.variableFor ref name state).1 := by
  have text :
      (later.names.serve setting.target (setting.variableRequest ref name)).1 =
        (state.names.serve setting.target (setting.variableRequest ref name)).1 :=
    serve_stable extension.names
  have numbering := extension.numbering
  rw [variableFor_eq, variableFor_eq, text]
  cases bound : setting.program.symbolAt ref with
  | none =>
      rfl
  | some symbol =>
      simp only [apply, variableEffect, bound, Option.toList_some] at numbering
      rw [Option.map_some, Option.map_some, Numbering.see_stable numbering]

theorem variableUsed_stable
    (extension : (setting.apply ref (setting.useEffect ref name) state).Extends later) :
    (setting.variableUsed ref name later).1 = (setting.variableUsed ref name state).1 := by
  cases lowerable : (setting.program.useVerdict ref).lowerable with
  | false =>
      rw [variableUsed_of_not_lowerable lowerable, variableUsed_of_not_lowerable lowerable]
  | true =>
      have known :
          (setting.apply ref (setting.variableEffect ref name) state).Extends later := by
        simp only [useEffect, lowerable, if_true] at extension
        exact ⟨extension.names, extension.numbering⟩
      rw [variableUsed_of_lowerable lowerable, variableUsed_of_lowerable lowerable]
      exact variableFor_stable known

theorem exportTable?_stable {scope : ExportScope}
    (extension : (setting.apply ref (setting.tableEffect scope) state).Extends later) :
    (setting.exportTable? scope ref later).map Prod.fst =
      (setting.exportTable? scope ref state).map Prod.fst := by
  cases kind : scope.kind with
  | sourceFile =>
      simp only [exportTable?, kind, Option.map_some]
  | namespaceDeclaration | enumDeclaration =>
      simp only [exportTable?, tableEffect, kind] at extension ⊢
      cases symbol : setting.program.symbols.get? scope.container with
      | none =>
          simp [containerVariable?, symbol]
      | some container =>
          rw [symbol] at extension
          have text :
              (later.names.serve setting.target (.mangle container.name)).1 =
                (state.names.serve setting.target (.mangle container.name)).1 :=
            serve_stable extension.names
          have number := Numbering.see_stable extension.numbering ref
          rw [containerVariable?_eq symbol, containerVariable?_eq symbol,
            Option.map_some, Option.map_some, text, number]

theorem exportAccess_stable {scope : ExportScope} {ident : Lua.Ident}
    (source : ident.source = some ref)
    (extension : (setting.apply ref (setting.tableEffect scope) state).Extends later) :
    (setting.exportAccess ident scope later).1 = (setting.exportAccess ident scope state).1 := by
  have sameTable := exportTable?_stable extension
  cases exportable : ident.exportable with
  | false =>
      rw [exportAccess_of_not_exportable exportable, exportAccess_of_not_exportable exportable]
  | true =>
      simp only [exportAccess, exportable, if_true, source, Option.getD_some]
      cases found : setting.exportTable? scope ref state with
      | none =>
          rw [found, Option.map_none, Option.map_eq_none_iff] at sameTable
          rw [sameTable]
      | some table =>
          rw [found, Option.map_some, Option.map_eq_some_iff] at sameTable
          obtain ⟨laterTable, laterFound, sameIdent⟩ := sameTable
          simp only [laterFound, sameIdent]

theorem expressionFor_stable
    (extension : (setting.apply ref (setting.expressionEffect ref name) state).Extends later) :
    (setting.expressionFor ref name later).1 = (setting.expressionFor ref name state).1 := by
  cases exported : setting.program.exportScopeAt? ref with
  | some scope =>
      cases lowerable : (setting.program.useVerdict ref).lowerable with
      | false =>
          rw [expressionFor_of_not_lowerable exported lowerable,
            expressionFor_of_not_lowerable exported lowerable]
      | true =>
          have effects : setting.expressionEffect ref name =
              (setting.useEffect ref name).andThen (setting.tableEffect scope) := by
            simp only [expressionEffect, exported, lowerable, if_true]
          rw [effects] at extension
          have sameVariable := variableUsed_stable (extends_of_apply_andThen extension)
          rw [variableUsed_of_lowerable lowerable, variableUsed_of_lowerable lowerable]
            at sameVariable
          have source :
              (setting.withSymbolName ref (setting.variableFor ref name state).1).source =
                some ref := by
            rw [withSymbolName_source, variableFor_eq]
          rw [expressionFor_of_exportScope exported lowerable,
            expressionFor_of_exportScope exported lowerable, sameVariable]
          rw [apply_andThen] at extension
          exact exportAccess_stable source (extension.trans (extends_apply _))
  | none =>
      by_cases undefinedName : name.keyword = some .undefinedKeyword
      · simp only [expressionFor, exported, undefinedName, if_true]
      · cases replacement : setting.program.libraryReplacement? ref with
        | some expression =>
            simp only [expressionFor, exported, undefinedName, replacement, if_false]
        | none =>
            simp only [expressionEffect, exported, undefinedName, replacement, if_false,
              Option.isSome_none, Bool.false_eq_true] at extension
            rw [expressionFor_of_variable exported undefinedName replacement,
              expressionFor_of_variable exported undefinedName replacement,
              variableUsed_stable extension]

end Setting

end NameLowering
