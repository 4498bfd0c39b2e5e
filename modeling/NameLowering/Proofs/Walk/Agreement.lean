import NameLowering.Proofs.Names.Targets
import NameLowering.Proofs.Tree.Agreement
import NameLowering.Proofs.Walk.Runs
import NameLowering.Proofs.Walk.Ways

/-!
# Programs that share a part

What a name is lowered to depends on what the program says of that name, and on how the target
spells it and the names of symbols. So two programs that say the same in some part that walks do
not leave have the same itineraries there, and walks along these do the same in both.
-/

namespace NameLowering

/-! ## Settings that agree at a name -/

/-- Two settings say the same of a name, as far as its lowering asks. Their targets need not be the
same, as long as they spell the name and the names of symbols alike. -/
structure Setting.AgreesAt (left right : Setting) (ref : NodeRef) (name : SourceName) : Prop where
  symbols : left.program.symbols = right.program.symbols
  bound : left.program.symbolAt ref = right.program.symbolAt ref
  leftName : left.program.tree.name? ref = some name
  rightName : right.program.tree.name? ref = some name
  verdict : left.program.useVerdict ref = right.program.useVerdict ref
  report : left.program.report ref = right.program.report ref
  spelling : left.target.SpellsLike right.target name.text
  symbolSpelling : ∀ symbol ∈ left.program.symbols.symbols,
    left.target.SpellsLike right.target symbol.name

/-- Two settings say the same of the name that an event lowers, if it lowers one. -/
def Setting.AgreesOn (left right : Setting) : WalkEvent → Prop
  | .declared ref name | .used ref name => left.AgreesAt right ref name
  | .opened .. | .closed => True

namespace Setting.AgreesAt

variable {left right : Setting} {ref : NodeRef} {name : SourceName}

theorem boundSymbol?_eq (agree : left.AgreesAt right ref name) :
    left.program.boundSymbol? ref = right.program.boundSymbol? ref := by
  rw [Program.boundSymbol?, Program.boundSymbol?, agree.bound, agree.symbols]

theorem exportScopeAt?_eq (agree : left.AgreesAt right ref name) :
    left.program.exportScopeAt? ref = right.program.exportScopeAt? ref := by
  rw [Program.exportScopeAt?, Program.exportScopeAt?, agree.bound, agree.symbols]

theorem libraryReplacement?_eq (agree : left.AgreesAt right ref name) :
    left.program.libraryReplacement? ref = right.program.libraryReplacement? ref := by
  rw [Program.libraryReplacement?, Program.libraryReplacement?, agree.boundSymbol?_eq,
    agree.leftName, agree.rightName]

/-- The settings spell the symbols alike that there are. -/
theorem spelling_of_symbol (agree : left.AgreesAt right ref name) {symbol : SymbolRef}
    {held : Symbol} (isSymbol : right.program.symbols.get? symbol = some held) :
    left.target.SpellsLike right.target held.name := by
  rw [← agree.symbols] at isSymbol
  exact agree.symbolSpelling held (Array.mem_of_getElem? isSymbol)

theorem escapesSymbol_eq (agree : left.AgreesAt right ref name) (symbol : SymbolRef) :
    left.escapesSymbol symbol = right.escapesSymbol symbol := by
  rw [escapesSymbol, escapesSymbol, agree.symbols]
  cases held : right.program.symbols.get? symbol with
  | none =>
      rfl
  | some found =>
      have alike := agree.spelling_of_symbol held
      simp only [Option.any_some, Symbol.mustEscape, alike.accepts_eq, alike.mustEscape_eq]

theorem symbolProblems_eq (agree : left.AgreesAt right ref name) (symbol : SymbolRef) :
    left.symbolProblems symbol = right.symbolProblems symbol := by
  rw [symbolProblems, symbolProblems, agree.symbols]
  cases held : right.program.symbols.get? symbol with
  | none =>
      rfl
  | some found =>
      simp only [Symbol.nameProblems, (agree.spelling_of_symbol held).accepts_eq]

theorem checkName_eq (agree : left.AgreesAt right ref name) :
    left.checkName ref = right.checkName ref := by
  have byText : left.escapesText ref = right.escapesText ref := by
    rw [escapesText, escapesText, agree.leftName, agree.rightName, Option.any_some,
      Option.any_some, agree.spelling.mustEscape_eq]
  funext state
  simp only [checkName, checkSymbol, agree.escapesSymbol_eq, agree.symbolProblems_eq, byText,
    Setting.report, agree.bound, agree.report]

theorem variableFor_eq (agree : left.AgreesAt right ref name) :
    left.variableFor ref name = right.variableFor ref name := by
  funext state
  simp only [variableFor, trackAt, agree.checkName_eq, agree.bound,
    NameTable.outputName_congr agree.spelling]

theorem variableUsed_eq (agree : left.AgreesAt right ref name) :
    left.variableUsed ref name = right.variableUsed ref name := by
  funext state
  simp only [variableUsed, Setting.report, agree.variableFor_eq, agree.verdict, agree.report]

theorem containerVariable?_eq (agree : left.AgreesAt right ref name) (container : SymbolRef) :
    left.containerVariable? container = right.containerVariable? container := by
  funext other state
  rw [containerVariable?, containerVariable?, agree.symbols]
  cases held : right.program.symbols.get? container with
  | none =>
      rfl
  | some symbol =>
      simp only [Option.bind_eq_bind, Option.bind_some,
        NameTable.mangle_congr (agree.spelling_of_symbol held)]

theorem exportAccess_eq (agree : left.AgreesAt right ref name) :
    left.exportAccess = right.exportAccess := by
  funext ident scope state
  simp only [exportAccess, exportTable?, agree.containerVariable?_eq]

theorem expressionFor_eq (agree : left.AgreesAt right ref name) :
    left.expressionFor ref name = right.expressionFor ref name := by
  funext state
  simp only [expressionFor, withSymbolName, agree.variableUsed_eq, agree.exportAccess_eq,
    agree.exportScopeAt?_eq, agree.boundSymbol?_eq, agree.libraryReplacement?_eq]

end Setting.AgreesAt

namespace Walk

variable {left right : Setting}

theorem step_congr
    (walk : Walk) {event : WalkEvent} (agree : left.AgreesOn right event) :
    walk.step left event = walk.step right event := by
  cases event with
  | declared ref name =>
      have same : left.variableFor ref name = right.variableFor ref name :=
        Setting.AgreesAt.variableFor_eq agree
      rw [step, same, ← step]
  | used ref name =>
      have same : left.expressionFor ref name = right.expressionFor ref name :=
        Setting.AgreesAt.expressionFor_eq agree
      rw [step, same, ← step]
  | opened kind ref | closed =>
      rw [step, step]

/-- A run does the same in two settings that agree at the names on its way. -/
theorem run_congr
    {stops : List Stop} (walk : Walk)
    (agree : ∀ stop ∈ stops, left.AgreesOn right stop.event) :
    run left stops walk = run right stops walk := by
  induction stops generalizing walk with
  | nil =>
      rw [run, run, List.foldl_nil, List.foldl_nil]
  | cons stop rest inductionHypothesis =>
      simp only [run, List.foldl_cons] at inductionHypothesis ⊢
      rw [step_congr walk (agree stop List.mem_cons_self)]
      exact inductionHypothesis _ fun later member =>
        agree later (List.mem_cons_of_mem stop member)

/-- Walks with the same itinerary do the same in two settings that agree at the names on it. -/
theorem visit_congr
    {levels : Nat} {ref : NodeRef} (walk : Walk)
    (same : left.program.itinerary levels ref = right.program.itinerary levels ref)
    (agree : ∀ stops, left.program.itinerary levels ref = .ok stops →
      ∀ stop ∈ stops, left.AgreesOn right stop.event) :
    visit left levels ref walk = visit right levels ref walk := by
  rw [visit_eq_run, visit_eq_run, ← same]
  cases found : left.program.itinerary levels ref with
  | error error =>
      rw [Except.map, Except.map]
  | ok stops =>
      rw [Except.map, Except.map, run_congr walk (agree stops found)]

end Walk

/-! ## Programs with a common part -/

/-- Two programs say the same in a part of their trees that walks do not leave, and climbs find the
same around it. -/
structure Program.Shares (left right : Program) (part : NodeRef → Prop) : Prop where
  fileName : left.fileName = right.fileName
  types : left.types = right.types
  symbols : left.symbols = right.symbols
  typeAt : ∀ ref, part ref → left.typeAt ref = right.typeAt ref
  symbolAt : ∀ ref, part ref → left.symbolAt ref = right.symbolAt ref
  contents : ∀ ref, part ref → left.tree.content? ref = right.tree.content? ref
  ambient : ∀ ref node bound parts, part ref → left.tree.node? ref = some node →
    node.shape = .declaration bound parts → left.isAmbientName bound = right.isAmbientName bound
  downward : ∀ ref node position child, part ref → left.tree.node? ref = some node →
    node.shape.slots[position]? = some child → left.enters node.shape position = true → part child
  around : ∃ region, left.tree.AlikeIn right.tree region ∧ ∀ ref, part ref → region ref

namespace Program.Shares

variable {left right : Program} {part : NodeRef → Prop} {ref : NodeRef}

theorem useVerdict_eq (shared : left.Shares right part) (inside : part ref) :
    left.useVerdict ref = right.useVerdict ref := by
  obtain ⟨region, alike, partOfRegion⟩ := shared.around
  have inRegion := partOfRegion ref inside
  have type := shared.typeAt ref inside
  have bare : left.bareExtension? ref = right.bareExtension? ref := by
    rw [bareExtension?, bareExtension?, alike.isBareUse_eq inRegion, extensionAt?, extensionAt?,
      type, shared.types]
  have isForRange : left.isForRangeAt ref = right.isForRangeAt ref := by
    simp only [isForRangeAt, annotationsAt, type, shared.types]
  have forRange : left.forRangeProblems ref = right.forRangeProblems ref := by
    rw [forRangeProblems, forRangeProblems, alike.isInIteratedCall_eq inRegion, isForRange]
  simp only [useVerdict, bare, forRange]

/-- The programs agree at the names of the common part. -/
theorem agreesAt (shared : left.Shares right part) (inside : part ref) {name : SourceName}
    (isName : left.tree.name? ref = some name) (target : Target) :
    Setting.AgreesAt { program := left, target } { program := right, target } ref name where
  symbols := shared.symbols
  bound := shared.symbolAt ref inside
  leftName := isName
  rightName := (Tree.name?_eq_of_content (shared.contents ref inside)).symm.trans isName
  verdict := shared.useVerdict_eq inside
  report := by
    funext problem
    rw [Program.report, Program.report, shared.fileName,
      Tree.span_eq_of_content (shared.contents ref inside) isName]
  spelling := .refl target _
  symbolSpelling _ _ := .refl target _

end Program.Shares

/-! ## Itineraries -/

theorem Stop.joinAll_congr
    {leftBelow rightBelow : NodeRef → Except LoweringError (List Stop)} {refs : List NodeRef}
    (same : ∀ ref ∈ refs, leftBelow ref = rightBelow ref) (position : Nat) :
    joinAll leftBelow position refs = joinAll rightBelow position refs := by
  induction refs generalizing position with
  | nil =>
      rfl
  | cons ref rest inductionHypothesis =>
      have later := inductionHypothesis
        (fun other member => same other (List.mem_cons_of_mem ref member)) (position + 1)
      rw [joinAll, joinAll, joinOne, joinOne, same ref List.mem_cons_self, later]

namespace Program

theorem expectName_eq_of_content
    {left right : Program} {ref : NodeRef}
    (same : left.tree.content? ref = right.tree.content? ref) :
    left.expectName ref = right.expectName ref := by
  unfold expectName
  cases held : left.tree.node? ref with
  | none =>
      rw [Tree.node?_eq_none_of_content same held]
  | some node =>
      obtain ⟨other, otherHeld, content⟩ := Tree.exists_node_of_content same held
      have kind : other.kind = node.kind := congrArg NodeContent.kind content
      have shape : other.shape = node.shape := congrArg NodeContent.shape content
      simp only [otherHeld, kind, shape]

end Program

namespace Program.Shares

variable {left right : Program} {part : NodeRef → Prop} {ref : NodeRef}

theorem nameStops_eq
    (shared : left.Shares right part) {bound : NodeRef} (inside : part bound)
    {leftBelow rightBelow : NodeRef → Except LoweringError (List Stop)}
    (same : leftBelow bound = rightBelow bound) :
    left.nameStops leftBelow bound = right.nameStops rightBelow bound := by
  have kind := Tree.kind?_eq_of_content (shared.contents bound inside)
  have name := expectName_eq_of_content (shared.contents bound inside)
  rw [nameStops, nameStops, kind, name, Stop.joinOne, Stop.joinOne, same]

/-- Walks in the common part have the same stops in both programs. -/
theorem itinerary_eq (shared : left.Shares right part) (levels : Nat) (inside : part ref) :
    left.itinerary levels ref = right.itinerary levels ref := by
  induction levels generalizing ref with
  | zero =>
      rfl
  | succ levels inductionHypothesis =>
      have content := shared.contents ref inside
      rw [itinerary, itinerary]
      cases held : left.tree.node? ref with
      | none =>
          rw [Tree.node?_eq_none_of_content content held]
      | some node =>
          obtain ⟨other, otherHeld, same⟩ := Tree.exists_node_of_content content held
          have kind : other.kind = node.kind := congrArg NodeContent.kind same
          have shape : other.shape = node.shape := congrArg NodeContent.shape same
          have below (child : NodeRef) (position : Nat)
              (slot : node.shape.slots[position]? = some child)
              (entered : left.enters node.shape position = true) :
              left.itinerary levels child = right.itinerary levels child :=
            inductionHypothesis (shared.downward ref node position child inside held slot entered)
          simp only [otherHeld, kind, shape]
          cases nodeShape : node.shape with
          | identifier name =>
              rfl
          | member object key =>
              have atObject := below object 0 (by rw [nodeShape]; rfl) (by rw [nodeShape]; rfl)
              simp only [Stop.joinOne, atObject]
          | declaration bound parts =>
              have sameAmbient := shared.ambient ref node bound parts inside held nodeShape
              simp only [← sameAmbient]
              cases ambient : left.isAmbientName bound with
              | true =>
                  rfl
              | false =>
                  have entered (position : Nat) : left.enters node.shape position = true := by
                    simp [nodeShape, enters, ambient]
                  have nameSlot : node.shape.slots[0]? = some bound := by rw [nodeShape]; rfl
                  have boundInside :=
                    shared.downward ref node 0 bound inside held nameSlot (entered 0)
                  have atName :=
                    shared.nameStops_eq boundInside (below bound 0 nameSlot (entered 0))
                  have atParts :
                      Stop.joinAll (left.itinerary levels) 1 parts =
                        Stop.joinAll (right.itinerary levels) 1 parts := by
                    refine Stop.joinAll_congr (fun part isPart => ?_) 1
                    obtain ⟨index, atIndex⟩ := List.getElem?_of_mem isPart
                    exact below part (index + 1) (by rw [nodeShape]; exact atIndex) (entered _)
                  rw [atName, atParts]
          | call callee arguments | forOf initializer iterable body | group parts | token =>
              have container : node.shape.isContainer = true := by rw [nodeShape]; rfl
              have children :
                  Stop.joinAll (left.itinerary levels) 0 node.shape.children =
                    Stop.joinAll (right.itinerary levels) 0 node.shape.children := by
                refine Stop.joinAll_congr (fun child isChild => ?_) 0
                obtain ⟨position, slot⟩ := List.getElem?_of_mem (List.mem_of_mem_filter isChild)
                exact below child position slot (enters_of_container container position)
              rw [nodeShape] at children
              simp only [children]

/-- A walk that starts in the common part stays there. -/
theorem agreesOn_of_mem_itinerary
    (shared : left.Shares right part) {levels : Nat} {stops : List Stop} (inside : part ref)
    (found : left.itinerary levels ref = .ok stops) (target : Target) :
    ∀ stop ∈ stops,
      Setting.AgreesOn { program := left, target } { program := right, target } stop.event := by
  have used (_ : Nat) (ref : NodeRef) (node : Node) (name : SourceName) (inside : part ref)
      (held : left.tree.node? ref = some node) (shape : node.shape = .identifier name) :
      Setting.AgreesAt { program := left, target } { program := right, target } ref name :=
    shared.agreesAt inside (by rw [Tree.name?, held, Option.bind_some, shape]; rfl) target
  have declared (_ : Nat) (ref : NodeRef) (node : Node) (bound : NodeRef) (parts : List NodeRef)
      (name : SourceName) (inside : part ref) (held : left.tree.node? ref = some node)
      (shape : node.shape = .declaration bound parts) (notAmbient : left.isAmbientName bound = false)
      (_ : left.tree.kind? bound = some .identifier) (expected : left.expectName bound = .ok name) :
      Setting.AgreesAt { program := left, target } { program := right, target } bound name := by
    have boundInside : part bound :=
      shared.downward ref node 0 bound inside held (by rw [shape]; rfl)
        (by simp [shape, enters, notAmbient])
    exact shared.agreesAt boundInside (expectName_eq_ok_iff.mp expected) target
  have onward {ref child : NodeRef} {node : Node} (inside : part ref)
      (held : left.tree.node? ref = some node) (visits : left.Visits node.shape child) :
      part child := by
    obtain ⟨position, slot, entered⟩ := exists_slot_of_visits visits
    exact shared.downward ref node position child inside held slot entered
  exact forall_mem_itinerary (fun _ _ => trivial) trivial used declared
    (fun _ _ _ _ inside held visits => onward inside held visits) inside found

/-- Walks over nodes of the common part do the same in both programs. -/
theorem run_joinAll_eq
    (shared : left.Shares right part) {levels position : Nat} {refs : List NodeRef}
    {stops : List Stop} (inside : ∀ ref ∈ refs, part ref)
    (joined : Stop.joinAll (left.itinerary levels) position refs = .ok stops) (target : Target)
    (walk : Walk) :
    Walk.run (Setting.mk left target) stops walk = Walk.run (Setting.mk right target) stops walk := by
  have agree (ref : NodeRef) (isRef : ref ∈ refs) (stops : List Stop)
      (found : left.itinerary levels ref = .ok stops) (stop : Stop) (member : stop ∈ stops) :
      Setting.AgreesOn { program := left, target } { program := right, target } stop.event :=
    shared.agreesOn_of_mem_itinerary (inside ref isRef) found target stop member
  exact Walk.run_congr walk (Stop.forall_mem_joinAll agree joined)

/-- Walks from a node of the common part do the same in both programs. -/
theorem visit_eq (shared : left.Shares right part) (inside : part ref) (target : Target)
    (levels : Nat) (walk : Walk) :
    Walk.visit (Setting.mk left target) levels ref walk =
      Walk.visit (Setting.mk right target) levels ref walk :=
  Walk.visit_congr walk (shared.itinerary_eq levels inside) fun _ found =>
    shared.agreesOn_of_mem_itinerary inside found target

/-- A file of the common part is lowered alike in both programs. -/
theorem lowerFile_eq (shared : left.Shares right part) (inside : part ref) (target : Target) :
    (Setting.mk left target).lowerFile ref = (Setting.mk right target).lowerFile ref := by
  have kind := Tree.kind?_eq_of_content (shared.contents ref inside)
  simp only [Setting.lowerFile, kind, shared.visit_eq inside]

end Program.Shares

end NameLowering
