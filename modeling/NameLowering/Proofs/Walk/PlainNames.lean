import NameLowering.Program.Build
import NameLowering.Proofs.Names.Overtaking
import NameLowering.Proofs.Walk.Entries

/-!
# Plain names of a file

Names that are written differently are emitted differently, with one exception. A name that is
ambient or exported is emitted as it is written, even if it carries the mark of escaped names, and
nothing reserves it before it comes up. If the escape of another name is assigned first, that may
be just this name.
-/

namespace NameLowering

/-! ## Plain names -/

/-- The variable that a name of a file is lowered to. What stands for a library global or for a
use that cannot be lowered is no variable, and neither is the field of a table. -/
def Program.plainVariable? (program : Program) (entry : LoweredName) : Option Lua.Ident :=
  match entry.lowered with
  | .declaration ident => some ident
  | .expression value =>
    if program.libraryReplacement? entry.source = some value then none
    else value.ident?.filter fun ident => !ident.isPlaceholder

/-- Names are bound to symbols of the same name. -/
def Program.NamesAgree (program : Program) : Prop :=
  ∀ ref name symbol, program.tree.name? ref = some name → program.symbolAt ref = some symbol →
    ∃ held, program.symbols.get? symbol = some held ∧ held.name = name.text

theorem Lua.Expr.eq_ident_of_ident? {value : Lua.Expr} {ident : Lua.Ident}
    (isIdent : value.ident? = some ident) :
    value = .ident ident := by
  cases value with
  | ident other => exact congrArg _ (Option.some.inj isIdent)
  | index table key source | text value | numeral spelling | nil | binary left operator right =>
      contradiction

namespace Setting

variable {setting : Setting} {ref : NodeRef} {name : SourceName} {state : UnitState}
  {ident : Lua.Ident}

theorem mem_requests_variableEffect :
    setting.variableRequest ref name ∈ (setting.variableEffect ref name).requests :=
  List.mem_singleton_self _

theorem mem_requests_useEffect (lowerable : (setting.program.useVerdict ref).lowerable = true) :
    setting.variableRequest ref name ∈ (setting.useEffect ref name).requests := by
  simp only [useEffect, lowerable, if_true]
  exact mem_requests_variableEffect

theorem withSymbolName_text (ident : Lua.Ident) :
    (setting.withSymbolName ref ident).text = ident.text := by
  unfold withSymbolName
  split
  · split <;> rfl
  · rfl

theorem variableFor_text :
    (setting.variableFor ref name state).1.text =
      (state.names.serve setting.target (setting.variableRequest ref name)).1 := by
  rw [variableFor_eq]

/-- An access that yields a variable found no table. -/
theorem exportAccess_eq_ident {scope : ExportScope} {variableIdent : Lua.Ident}
    (access : (setting.exportAccess variableIdent scope state).1 = .ident ident) :
    ident = variableIdent := by
  unfold exportAccess at access
  split at access
  · split at access
    · contradiction
    · exact (Lua.Expr.ident.inj access).symm
  · exact (Lua.Expr.ident.inj access).symm

/-- A use that yields a variable yields the variable for its name. -/
theorem text_of_expressionFor
    (notReplacement :
      setting.program.libraryReplacement? ref ≠ some (setting.expressionFor ref name state).1)
    (isIdent : (setting.expressionFor ref name state).1 = .ident ident)
    (notPlaceholder : ident.isPlaceholder = false) :
    ident.text = (state.names.serve setting.target (setting.variableRequest ref name)).1 ∧
      setting.variableRequest ref name ∈ (setting.expressionEffect ref name).requests := by
  cases exported : setting.program.exportScopeAt? ref with
  | some scope =>
      cases lowerable : (setting.program.useVerdict ref).lowerable with
      | false =>
          rw [expressionFor_of_not_lowerable exported lowerable] at isIdent
          obtain rfl := Lua.Expr.ident.inj isIdent
          contradiction
      | true =>
          rw [expressionFor_of_exportScope exported lowerable] at isIdent
          obtain rfl := exportAccess_eq_ident isIdent
          rw [withSymbolName_text, variableFor_text]
          refine ⟨rfl, ?_⟩
          simp only [expressionEffect, exported, lowerable, if_true]
          exact List.mem_append_left _ (mem_requests_useEffect lowerable)
  | none =>
      by_cases undefinedName : name.keyword = some .undefinedKeyword
      · simp [expressionFor, exported, undefinedName] at isIdent
      · cases replacement : setting.program.libraryReplacement? ref with
        | some expression =>
            refine absurd ?_ notReplacement
            simp [expressionFor, exported, undefinedName, replacement]
        | none =>
            rw [expressionFor_of_variable exported undefinedName replacement] at isIdent
            obtain rfl := Lua.Expr.ident.inj isIdent
            cases lowerable : (setting.program.useVerdict ref).lowerable with
            | false =>
                rw [variableUsed_of_not_lowerable lowerable] at notPlaceholder
                contradiction
            | true =>
                rw [variableUsed_of_lowerable lowerable, variableFor_text]
                refine ⟨rfl, ?_⟩
                simp only [expressionEffect, exported, undefinedName, replacement, if_false,
                  Option.isSome_none, Bool.false_eq_true]
                exact mem_requests_useEffect lowerable

/-- What a file asks of the name table, from its first name to its last. -/
def fileRequests (setting : Setting) (root : NodeRef) : List NameRequest :=
  match setting.program.itinerary Limits.treeDepth root with
  | .ok stops => stops.flatMap fun stop => setting.requestsFor stop.event
  | .error _ => []

def fileTable (setting : Setting) (root : NodeRef) : NameTable :=
  NameTable.serveAll setting.target (setting.fileRequests root) {}

/-- The output name of a plain name is the one that the table at the end of the file has for it. -/
theorem plain_of_mem_names
    {root : NodeRef} {file : LoweredUnit} (lowered : setting.lowerFile root = .ok file)
    {entry : LoweredName} (member : entry ∈ file.names)
    (plain : setting.program.plainVariable? entry = some ident) :
    ∃ name, setting.program.tree.name? entry.source = some name ∧
      setting.variableRequest entry.source name ∈ setting.fileRequests root ∧
      ident.text =
        ((setting.fileTable root).serve setting.target
          (setting.variableRequest entry.source name)).1 := by
  obtain ⟨stops, found, names⟩ := exists_run_of_lowerFile lowered
  have table : (Walk.run setting stops {}).state.names = setting.fileTable root := by
    rw [Walk.run_nameTable]
    simp only [fileTable, fileRequests, found]
  rw [← Array.mem_toList_iff, names, List.mem_filterMap] at member
  obtain ⟨stop, stopMember, entryFound⟩ := member
  have named := Program.isNamed_of_mem_itinerary found stop stopMember
  have requested {request : NameRequest} (asked : request ∈ setting.requestsFor stop.event) :
      request ∈ setting.fileRequests root := by
    simp only [fileRequests, found]
    exact List.mem_flatMap.mpr ⟨stop, stopMember, asked⟩
  cases event : stop.event with
  | declared ref name =>
      rw [event] at entryFound named requested
      obtain rfl := Option.some.inj entryFound
      obtain rfl := Option.some.inj plain
      rw [variableFor_text, table]
      exact ⟨name, named, requested mem_requests_variableEffect, rfl⟩
  | used ref name =>
      rw [event] at entryFound named requested
      obtain rfl := Option.some.inj entryFound
      simp only [Program.plainVariable?, Option.ite_none_left_eq_some,
        Option.filter_eq_some_iff] at plain
      obtain ⟨notReplacement, isIdent, notPlaceholder⟩ := plain
      obtain ⟨text, asked⟩ := text_of_expressionFor notReplacement
        (Lua.Expr.eq_ident_of_ident? isIdent) (by simpa using notPlaceholder)
      rw [text, table]
      exact ⟨name, named, requested asked, rfl⟩
  | opened kind ref =>
      simp [event, entryFor] at entryFound
  | closed =>
      simp [event, entryFor] at entryFound

/-! ## Overtaken names -/

/-- A plain name overtakes another: it is escaped, and the first free candidate when a name with
its text is first escaped is the text of the other one, which is emitted as it is written. -/
structure Overtakes
    (setting : Setting) (root escaped kept : NodeRef) (escapedName keptName : SourceName) :
    Prop where
  escapes : setting.escapes escaped = true
  keeps : setting.escapes kept = false
  /-- The kept name could be mistaken for an escape, and its symbol says that it has to stay. -/
  marked : Target.hasSafeMark keptName.text = true
  fixed : ∃ symbol, setting.program.boundSymbol? kept = some symbol ∧
    (symbol.isAmbient = true ∨ symbol.isExported = true)
  first :
    NameTable.Overtakes setting.target (setting.fileRequests root) escapedName.text keptName.text

variable {root : NodeRef} {keptName : SourceName}

theorem fixed_of_marked
    (agree : setting.program.NamesAgree) (named : setting.program.tree.name? ref = some keptName)
    (keeps : setting.escapes ref = false) (marked : Target.hasSafeMark keptName.text = true) :
    ∃ symbol, setting.program.boundSymbol? ref = some symbol ∧
      (symbol.isAmbient = true ∨ symbol.isExported = true) := by
  have mustEscape : setting.target.mustEscape keptName.text = true :=
    Target.mustEscape_of_hasSafeMark setting.target marked
  cases bound : setting.program.symbolAt ref with
  | none =>
      simp [escapes, bound, escapesText, named, mustEscape] at keeps
  | some symbol =>
      obtain ⟨held, found, sameName⟩ := agree ref keptName symbol named bound
      refine ⟨held, by simp only [Program.boundSymbol?, bound, Option.bind_some, found], ?_⟩
      simp only [escapes, bound, escapesSymbol, found, Option.any_some, Symbol.mustEscape,
        sameName, mustEscape, Bool.true_and] at keeps
      cases ambient : held.isAmbient with
      | true => exact Or.inl rfl
      | false => simpa [ambient] using keeps

/-- Under a checker that binds names to symbols of the same name, it is enough to look at the name
table. -/
theorem overtakes_iff
    {escaped kept : NodeRef} {escapedName : SourceName}
    (agree : setting.program.NamesAgree)
    (named : setting.program.tree.name? kept = some keptName) :
    setting.Overtakes root escaped kept escapedName keptName ↔
      setting.escapes escaped = true ∧ setting.escapes kept = false ∧
        NameTable.Overtakes setting.target (setting.fileRequests root) escapedName.text
          keptName.text := by
  constructor
  · intro overtakes
    exact ⟨overtakes.escapes, overtakes.keeps, overtakes.first⟩
  · rintro ⟨escapes, keeps, first⟩
    exact ⟨escapes, keeps, first.marked, fixed_of_marked agree named keeps first.marked, first⟩

/-- Plain names that are written differently are emitted alike exactly if one overtakes the
other. -/
theorem plain_texts_eq_iff
    {file : LoweredUnit} (lowered : setting.lowerFile root = .ok file)
    (agree : setting.program.NamesAgree)
    {first second : LoweredName} (firstMember : first ∈ file.names)
    (secondMember : second ∈ file.names) {firstIdent secondIdent : Lua.Ident}
    (firstPlain : setting.program.plainVariable? first = some firstIdent)
    (secondPlain : setting.program.plainVariable? second = some secondIdent)
    {firstName secondName : SourceName}
    (firstNamed : setting.program.tree.name? first.source = some firstName)
    (secondNamed : setting.program.tree.name? second.source = some secondName)
    (different : firstName.text ≠ secondName.text) :
    firstIdent.text = secondIdent.text ↔
      setting.Overtakes root first.source second.source firstName secondName ∨
        setting.Overtakes root second.source first.source secondName firstName := by
  obtain ⟨_, firstHeld, firstAsked, firstText⟩ :=
    plain_of_mem_names lowered firstMember firstPlain
  obtain ⟨_, secondHeld, secondAsked, secondText⟩ :=
    plain_of_mem_names lowered secondMember secondPlain
  obtain rfl := Option.some.inj (firstNamed.symm.trans firstHeld)
  obtain rfl := Option.some.inj (secondNamed.symm.trans secondHeld)
  have apart :
      (setting.variableRequest first.source firstName).name ≠
        (setting.variableRequest second.source secondName).name := by
    rwa [variableRequest_name, variableRequest_name]
  rw [firstText, secondText, overtakes_iff agree secondNamed, overtakes_iff agree firstNamed,
    fileTable, NameTable.serve_eq_iff firstAsked secondAsked apart]
  simp only [variableRequest_name, variableRequest_escapes]

end Setting

/-! ## A name that is overtaken -/

/-- A file with a variable whose name has to be escaped, and after it a variable that is declared
elsewhere under just the name that the escape yields. -/
def Program.escapeBeforeAmbient : Program :=
  let (escaped, program) := Program.addIdentifier { fileName := "main.ts" } "end" 0
  let (kept, program) := program.addIdentifier "____end" 4
  let (_, program) := program.addSourceFile [escaped, kept]
  let (plain, symbols) := program.symbols.add { name := "end", flags := .localVariable }
  let (declaredElsewhere, symbols) :=
    symbols.add { name := "____end", flags := SymbolFlags.localVariable.union .ambient }
  (({ program with symbols }).bind escaped plain).bind kept declaredElsewhere

def LoweredUnit.escapeBeforeAmbient : LoweredUnit where
  names := #[
    { source := .node 0
      lowered := .expression (.ident
        { text := "____end", sourceName := some "end", symbol := some ⟨1⟩
          source := some (.node 0) }) },
    { source := .node 1
      lowered := .expression (.ident
        { text := "____end", sourceName := some "____end", symbol := some ⟨2⟩
          source := some (.node 1) }) }]
  diagnostics := #[]
  scopes := #[
    { kind := .file, id := 1, node := .node 2
      mentions := [⟨⟨1⟩, .node 0⟩, ⟨⟨2⟩, .node 1⟩] }]

theorem Program.lower_escapeBeforeAmbient :
    Setting.lowerFile { program := .escapeBeforeAmbient } (.node 2) =
      .ok .escapeBeforeAmbient := by
  decide +kernel

theorem Program.escapeBeforeAmbient_namesAgree : Program.escapeBeforeAmbient.NamesAgree := by
  intro ref name symbol named bound
  match ref with
  | .absent => contradiction
  | .node 0 =>
      obtain rfl : symbol = ⟨0⟩ := (Option.some.inj bound).symm
      exact ⟨_, rfl, congrArg SourceName.text (Option.some.inj named)⟩
  | .node 1 =>
      obtain rfl : symbol = ⟨1⟩ := (Option.some.inj bound).symm
      exact ⟨_, rfl, congrArg SourceName.text (Option.some.inj named)⟩
  | .node (index + 2) =>
      have unbound : Program.escapeBeforeAmbient.symbolAt (.node (index + 2)) = none := by
        rfl
      rw [unbound] at bound
      contradiction

theorem Program.escapeBeforeAmbient_plain :
    Program.escapeBeforeAmbient.plainVariable? LoweredUnit.escapeBeforeAmbient.names[0] =
        some { text := "____end", sourceName := some "end", symbol := some ⟨1⟩,
               source := some (.node 0) } ∧
      Program.escapeBeforeAmbient.plainVariable? LoweredUnit.escapeBeforeAmbient.names[1] =
        some { text := "____end", sourceName := some "____end", symbol := some ⟨2⟩,
               source := some (.node 1) } := by
  decide +kernel

/-- Names that are written differently may be emitted alike. -/
theorem Setting.plain_texts_collide :
    ¬ ∀ (setting : Setting) (root : NodeRef) (file : LoweredUnit),
      setting.lowerFile root = .ok file → setting.program.NamesAgree →
        ∀ first ∈ file.names, ∀ second ∈ file.names, ∀ firstIdent secondIdent,
          setting.program.plainVariable? first = some firstIdent →
            setting.program.plainVariable? second = some secondIdent →
              ∀ firstName secondName,
                setting.program.tree.name? first.source = some firstName →
                  setting.program.tree.name? second.source = some secondName →
                    firstName.text ≠ secondName.text → firstIdent.text ≠ secondIdent.text := by
  intro apart
  obtain ⟨firstPlain, secondPlain⟩ := Program.escapeBeforeAmbient_plain
  exact apart { program := .escapeBeforeAmbient } (.node 2) .escapeBeforeAmbient
    Program.lower_escapeBeforeAmbient Program.escapeBeforeAmbient_namesAgree
    _ (Array.getElem_mem _) _ (Array.getElem_mem _) _ _ firstPlain secondPlain
    { text := "end" } { text := "____end" } rfl rfl (by decide) rfl

/-- The first of the two names overtakes the second. -/
theorem Setting.plain_texts_eq_iff_escapeBeforeAmbient :
    Setting.lowerFile { program := .escapeBeforeAmbient } (.node 2) =
        .ok .escapeBeforeAmbient ∧
      Setting.Overtakes { program := .escapeBeforeAmbient } (.node 2) (.node 0) (.node 1)
        { text := "end" } { text := "____end" } := by
  obtain ⟨firstPlain, secondPlain⟩ := Program.escapeBeforeAmbient_plain
  have firstNamed :
      Program.escapeBeforeAmbient.tree.name? (.node 0) = some { text := "end" } := rfl
  have secondNamed :
      Program.escapeBeforeAmbient.tree.name? (.node 1) = some { text := "____end" } := rfl
  have exactly := Setting.plain_texts_eq_iff Program.lower_escapeBeforeAmbient
    Program.escapeBeforeAmbient_namesAgree (Array.getElem_mem _) (Array.getElem_mem _)
    firstPlain secondPlain firstNamed secondNamed (by decide)
  refine ⟨Program.lower_escapeBeforeAmbient, ?_⟩
  rcases exactly.mp rfl with overtakes | backwards
  · exact overtakes
  · exact absurd backwards.keeps (by decide +kernel)

end NameLowering
