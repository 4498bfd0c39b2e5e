import NameLowering.Program.Build
import NameLowering.Proofs.Lowering.ValidNames
import NameLowering.Proofs.Walk.Balance
import NameLowering.Proofs.Walk.ScopeContents

/-!
# Numbers of symbols in a file

The symbols that the names of a file refer to are numbered from one in the order of first reference,
and the scope of the file lists all of them in that order. The numbers in what the names are lowered
to are among these.
-/

namespace NameLowering

/-! ## Numbers in lowered names -/

/-- The numbers of symbols in what a name was lowered to. -/
def Lowered.symbolNumbers : Lowered → List SymbolNumber
  | declaration ident => ident.symbol.toList
  | expression value => value.idents.filterMap Lua.Ident.symbol

namespace Program

/-- The symbols that the numbers in a lowered name are about: the container alone for a field of its
table, and otherwise all that the name refers to. -/
def symbolsShown (program : Program) (entry : LoweredName) : List SymbolRef :=
  match entry.lowered with
  | .expression (.index table key source) =>
    (program.containerReferred? entry.source (.index table key source)).toList
  | _ => program.symbolsReferred entry

end Program

namespace Setting

variable {setting : Setting} {ref root : NodeRef} {name : SourceName} {state : UnitState}
  {file : LoweredUnit}

/-- The numbers in an expression are those that a state has for the symbols shown. -/
theorem symbolNumbers_of_outcome
    {value : Lua.Expr} {effect : Effect} (outcome : Outcome setting ref name state value effect)
    (known : ∀ symbol ∈ effect.tracked, symbol ∈ state.numbering.symbols) :
    (Lowered.expression value).symbolNumbers =
      (setting.program.symbolsShown { source := ref, lowered := .expression value }).map
        fun symbol => (state.numbering.see symbol ref).1 := by
  have referred := symbolsReferred_of_outcome outcome
  cases outcome with
  | undefined notExported isUndefined =>
      rw [Program.symbolsShown, referred]
      rfl
  | replaced notExported defined replacement =>
      rcases Program.forms_of_libraryReplacement? replacement with rfl | rfl | rfl
      · rw [Program.symbolsShown, referred]
        rfl
      · simp [Program.symbolsShown, Program.containerReferred?, notExported,
          Lowered.symbolNumbers, Lua.Expr.idents]
      · rw [Program.symbolsShown, referred]
        rfl
  | refused refused =>
      rw [Program.symbolsShown, referred]
      simp [useEffect, refused, Lowered.symbolNumbers, Lua.Expr.idents, Lua.Ident.placeholder]
  | plain notExported defined ordinary lowerable =>
      rw [Program.symbolsShown, referred]
      cases bound : setting.program.symbolAt ref <;>
        simp [useEffect, lowerable, Effect.andThen, variableEffect, variableFor_eq, bound,
          Lowered.symbolNumbers, Lua.Expr.idents]
  | fileExport exported kind bound lowerable =>
      simp [Program.symbolsShown, Program.containerReferred?, exported, kind,
        Lowered.symbolNumbers, Lua.Expr.idents]
  | @memberExport scope symbol container exported kind bound held lowerable =>
      -- The member is tracked before its container, which has its number in the state already.
      have seen : scope.container ∈ state.numbering.symbols :=
        known scope.container (List.mem_append_right _ List.mem_cons_self)
      have number := Numbering.number?_of_mem seen
      have afterMember :
          (setting.apply ref (setting.useEffect ref name) state).numbering.number?
              scope.container =
            some ⟨state.numbering.symbols.idxOf scope.container + 1⟩ :=
        (extends_apply _).numbering number
      simp [Program.symbolsShown, Program.containerReferred?, exported, kind, containerIdent,
        Lowered.symbolNumbers, Lua.Expr.idents, Numbering.see_of_known number,
        Numbering.see_of_known afterMember]

/-- Only symbols are shown that the name refers to. -/
theorem symbolsShown_subset_of_outcome
    {value : Lua.Expr} {effect : Effect} (outcome : Outcome setting ref name state value effect) :
    setting.program.symbolsShown { source := ref, lowered := .expression value } ⊆
      effect.tracked := by
  have referred := symbolsReferred_of_outcome outcome
  cases outcome with
  | undefined | refused | plain =>
      rw [Program.symbolsShown, referred]
      exact List.Subset.refl _
  | replaced notExported defined replacement =>
      rcases Program.forms_of_libraryReplacement? replacement with rfl | rfl | rfl
      · rw [Program.symbolsShown, referred]
        exact List.Subset.refl _
      · simp [Program.symbolsShown, Program.containerReferred?, notExported]
      · rw [Program.symbolsShown, referred]
        exact List.Subset.refl _
  | fileExport exported kind bound lowerable =>
      simp [Program.symbolsShown, Program.containerReferred?, exported, kind]
  | memberExport exported kind bound held lowerable =>
      simp [Program.symbolsShown, Program.containerReferred?, exported, kind, Effect.andThen]

theorem symbolNumbers_of_entryFor
    {event : WalkEvent} {entry : LoweredName} (isEntry : setting.entryFor state event = some entry)
    (known : ∀ symbol ∈ (setting.effectFor event).tracked, symbol ∈ state.numbering.symbols) :
    entry.lowered.symbolNumbers =
      (setting.program.symbolsShown entry).map
        fun symbol => (state.numbering.see symbol entry.source).1 := by
  cases event with
  | declared ref name =>
      obtain rfl := Option.some.inj isEntry
      cases bound : setting.program.symbolAt ref <;>
        simp [Lowered.symbolNumbers, variableFor_eq, Program.symbolsShown,
          Program.symbolsReferred, bound]
  | used ref name =>
      obtain rfl := Option.some.inj isEntry
      exact symbolNumbers_of_outcome (setting.outcome_expressionFor ref name state) known
  | opened kind ref | closed =>
      contradiction

theorem symbolsShown_subset_of_entryFor
    {event : WalkEvent} {entry : LoweredName}
    (isEntry : setting.entryFor state event = some entry) :
    setting.program.symbolsShown entry ⊆ (setting.effectFor event).tracked := by
  cases event with
  | declared ref name =>
      obtain rfl := Option.some.inj isEntry
      exact List.Subset.refl _
  | used ref name =>
      obtain rfl := Option.some.inj isEntry
      exact symbolsShown_subset_of_outcome (setting.outcome_expressionFor ref name state)
  | opened kind ref | closed =>
      contradiction

/-! ## Files -/

/-- The scope of a file is closed last and holds all mentions. -/
theorem exists_push_fileScope
    {node : Node} {statements : List NodeRef}
    (held : setting.program.tree.node? root = some node) (shape : node.shape = .group statements)
    (lowered : setting.lowerFile root = .ok file) :
    ∃ closed : Array Scope,
      file.scopes =
        closed.push
          { kind := .file, id := 1, node := root, mentions := setting.program.mentionsIn file } := by
  obtain ⟨stops, _, found, _, _, scopes⟩ := exists_run_of_statements held shape lowered
  obtain ⟨_, whole, sameFound, names, _, _⟩ := eq_run_of_lowerFile lowered
  obtain rfl := Except.ok.inj (found.symm.trans sameFound)
  have outcome :
      Walk.run setting (Stop.enclosed .sourceFile root stops) {} =
        (Walk.run setting stops (Walk.atFile root)).leave :=
    Walk.run_enclosed_of_some rfl
  have log :
      (Walk.run setting stops (Walk.atFile root)).state.scopes.log.toList =
        setting.program.mentionsIn file := by
    have logged :=
      Walk.run_log (Stop.enclosed .sourceFile root stops) {}
        (UnitState.Extends.refl
          (Walk.run setting (Stop.enclosed .sourceFile root stops) {}).state)
    rw [mentionsIn_eq names]
    simpa [outcome, Walk.leave_state] using logged
  rw [Walk.fileScope, log] at scopes
  exact ⟨_, scopes⟩

/-- The numbers in a lowered name are those that the file has for the symbols shown. -/
theorem symbolNumbers_of_mem_names
    (lowered : setting.lowerFile root = .ok file) {entry : LoweredName}
    (member : entry ∈ file.names) :
    setting.program.symbolsShown entry ⊆ setting.program.symbolsReferred entry ∧
      entry.lowered.symbolNumbers =
        (setting.program.symbolsShown entry).map (setting.program.numberIn file) := by
  obtain ⟨_, stops, found, names, _, _⟩ := eq_run_of_lowerFile lowered
  have order := symbols_run_eq names
  have isName := member
  rw [← Array.mem_toList_iff, names, Walk.run_names] at isName
  obtain ⟨stop, _, isEntry⟩ := List.mem_filterMap.mp isName
  have referred := symbolsReferred_of_entryFor isEntry
  have known :
      ∀ symbol ∈ (setting.effectFor stop.event).tracked,
        symbol ∈ (Walk.run setting stops {}).state.numbering.symbols := by
    intro symbol tracked
    rw [← referred] at tracked
    rw [order, List.mem_eraseDups]
    exact List.mem_flatMap.mpr ⟨entry, Array.mem_toList_iff.mpr member, tracked⟩
  constructor
  · rw [referred]
    exact symbolsShown_subset_of_entryFor isEntry
  · rw [symbolNumbers_of_entryFor isEntry known]
    refine List.map_congr_left fun symbol _ => ?_
    rw [Numbering.fst_see, order, Program.numberIn]

/-- The symbols of a file are numbered from one. -/
theorem eraseDups_map_mentionsIn (program : Program) (file : LoweredUnit) :
    ((program.mentionsIn file).map Mention.symbol).eraseDups =
      (List.range' 1 (program.symbolsReferredIn file).eraseDups.length).map SymbolNumber.mk := by
  have numbers :
      (program.mentionsIn file).map Mention.symbol =
        (program.symbolsReferredIn file).map (program.numberIn file) := by
    simp [Program.mentionsIn, Program.symbolsReferredIn, List.map_flatMap, Function.comp_def]
  rw [numbers]
  exact eraseDups_map_place List.prefix_rfl

/-- The scope of a file is the last one, and its symbols are numbered from one in the order of first
reference. The names of the file show no other numbers, and one number for each symbol. -/
theorem lowerFile_numbers
    {node : Node} {statements : List NodeRef}
    (held : setting.program.tree.node? root = some node) (shape : node.shape = .group statements)
    (lowered : setting.lowerFile root = .ok file) :
    ∃ (closed : Array Scope) (fileScope : Scope),
      file.scopes = closed.push fileScope ∧ fileScope.kind = .file ∧ fileScope.node = root ∧
        let referred := setting.program.symbolsReferredIn file
        let numbers := fileScope.referencedSymbols.map Prod.fst
        numbers = (List.range' 1 referred.eraseDups.length).map SymbolNumber.mk ∧
          (∀ entry ∈ file.names,
            setting.program.symbolsShown entry ⊆ setting.program.symbolsReferred entry ∧
              entry.lowered.symbolNumbers =
                (setting.program.symbolsShown entry).map (setting.program.numberIn file) ∧
              entry.lowered.symbolNumbers ⊆ numbers) ∧
          ∀ first ∈ referred, ∀ second ∈ referred,
            setting.program.numberIn file first = setting.program.numberIn file second ↔
              first = second := by
  obtain ⟨closed, scopes⟩ := exists_push_fileScope held shape lowered
  refine ⟨closed, _, scopes, rfl, rfl, ?_⟩
  have numbers := eraseDups_map_mentionsIn setting.program file
  rw [Scope.map_fst_referencedSymbols]
  refine ⟨numbers, ?_, ?_⟩
  · intro entry member
    obtain ⟨shown, numbered⟩ := symbolNumbers_of_mem_names lowered member
    refine ⟨shown, numbered, ?_⟩
    intro number isNumber
    rw [numbered] at isNumber
    obtain ⟨symbol, isShown, rfl⟩ := List.mem_map.mp isNumber
    have referred : symbol ∈ setting.program.symbolsReferredIn file :=
      List.mem_flatMap.mpr ⟨entry, Array.mem_toList_iff.mpr member, shown isShown⟩
    have place := List.idxOf_lt_length_iff.mpr (List.mem_eraseDups.mpr referred)
    rw [numbers]
    exact List.mem_map.mpr ⟨_, List.mem_range'_1.mpr ⟨by omega, by omega⟩, rfl⟩
  · intro first isReferred second _
    simp only [Program.numberIn, SymbolNumber.mk.injEq, Nat.add_right_cancel_iff]
    exact List.idxOf_inj (List.mem_eraseDups.mpr isReferred)

/-- The namespace is the first of three symbols, and its number stands in the access to its field. -/
theorem lowerFile_numbers_functionInNamespace :
    Setting.lowerFile { program := .functionInNamespace } (.node 5) =
        .ok .functionInNamespace ∧
      ∃ (closed : Array Scope) (fileScope : Scope),
        LoweredUnit.functionInNamespace.scopes = closed.push fileScope ∧
          fileScope.referencedSymbols.map Prod.fst = [⟨1⟩, ⟨2⟩, ⟨3⟩] ∧
          LoweredUnit.functionInNamespace.names[2].lowered.symbolNumbers = [⟨1⟩] := by
  obtain ⟨node, held, shape⟩ :
      ∃ node, Program.functionInNamespace.tree.node? (.node 5) = some node ∧
        node.shape = .group [.node 4] :=
    ⟨_, rfl, rfl⟩
  obtain ⟨closed, fileScope, scopes, _, _, numbers, shown, _⟩ :=
    lowerFile_numbers held shape Program.lower_functionInNamespace
  refine ⟨Program.lower_functionInNamespace, closed, fileScope, scopes, ?_, ?_⟩
  · rw [numbers]
    decide +kernel
  · obtain ⟨_, ofSymbols, _⟩ :=
      shown LoweredUnit.functionInNamespace.names[2] (Array.getElem_mem _)
    rw [ofSymbols]
    decide +kernel

end Setting

end NameLowering
