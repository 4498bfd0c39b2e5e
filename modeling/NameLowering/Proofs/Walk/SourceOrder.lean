import NameLowering.Program.Build
import NameLowering.Proofs.Walk.Coverage
import NameLowering.Proofs.Walk.Entries

/-!
# Names in source order

In a tree no name is lost, none is lowered twice, and the names come in the order of the source.
Only what the walk leaves out is missing: keys of member accesses, ambient declarations, and what
lies too deep.
-/

namespace NameLowering

def LoweredUnit.sources (file : LoweredUnit) : List NodeRef :=
  file.names.toList.map LoweredName.source

/-- A name that occurs once is found. -/
theorem LoweredUnit.get?_of_mem
    {file : LoweredUnit} (nodup : file.sources.Nodup) {entry : LoweredName}
    (member : entry ∈ file.names) :
    file.get? entry.source = some entry.lowered := by
  have listMember : entry ∈ file.names.toList := Array.mem_toList_iff.mpr member
  have found : file.names.toList.find? (·.source == entry.source) = some entry := by
    cases search : file.names.toList.find? (·.source == entry.source) with
    | none =>
        exact absurd (List.find?_eq_none.mp search entry listMember) (by simp)
    | some other =>
        have sameSource : other.source = entry.source := by
          simpa using List.find?_some search
        exact congrArg some
          (List.inj_on_of_nodup_map nodup (List.mem_of_find?_eq_some search) listMember sameSource)
  rw [get?, ← Array.find?_toList, found]
  rfl

namespace Program.IsTree

variable {program : Program} {root : NodeRef} {stops : List Stop}

/-- The places of a tree's itinerary are in pre-order. -/
theorem precedes_places
    (charts : Stop.Charts stops (program.InReach Limits.treeDepth root)) :
    ((Stop.places stops).map Place.ref).Pairwise (program.Precedes root) := by
  rw [List.pairwise_map]
  refine charts.ordered.imp_of_mem fun firstMember secondMember before => ?_
  obtain ⟨_, firstDepth, _, firstReached⟩ := (charts.covers _).mp firstMember
  obtain ⟨_, secondDepth, _, secondReached⟩ := (charts.covers _).mp secondMember
  exact ⟨_, firstDepth, _, secondDepth, firstReached, secondReached, before⟩

theorem ne_of_precedes
    (isTree : program.IsTree root) {first second : NodeRef} (present : first.isPresent = true)
    (precedes : program.Precedes root first second) :
    first ≠ second := by
  rintro rfl
  obtain ⟨_, _, _, _, firstReached, secondReached, before⟩ := precedes
  obtain ⟨rfl, _⟩ := isTree.way_unique present firstReached secondReached
  exact List.lt_irrefl _ before

end Program.IsTree

namespace Setting

variable {setting : Setting} {root : NodeRef}

/-- The entries of a run are about the names at its places. -/
theorem sources_of_entries (stops : List Stop) (state : UnitState) :
    (stops.filterMap fun stop => setting.entryFor state stop.event).map LoweredName.source =
      (Stop.places stops).map Place.ref := by
  rw [Stop.places, List.map_filterMap, List.map_filterMap]
  refine congrArg (fun source => List.filterMap source stops) (funext fun stop => ?_)
  rw [entryFor_source, Stop.place?, Option.map_map]
  exact Option.map_id'.symm

theorem lowered_of_fits
    {event : WalkEvent} {state : UnitState} {entry : LoweredName}
    (fits : setting.program.Fits event) (isEntry : setting.entryFor state event = some entry) :
    (setting.program.IsDeclaredName entry.source ∧
        ∃ ident, entry.lowered = .declaration ident) ∨
      (¬ setting.program.IsDeclaredName entry.source ∧
        ∃ value, entry.lowered = .expression value) := by
  cases event with
  | declared ref name =>
      obtain rfl := Option.some.inj isEntry
      exact Or.inl ⟨fits, _, rfl⟩
  | used ref name =>
      obtain rfl := Option.some.inj isEntry
      exact Or.inr ⟨fits, _, rfl⟩
  | opened kind ref | closed =>
      contradiction

/-- All names of a tree are lowered, each once, in pre-order, declarations as such and uses as
expressions, and each is found under its node. -/
theorem lowerFile_in_source_order
    (setting : Setting) (isTree : setting.program.IsTree root) :
    ∃ file, setting.lowerFile root = .ok file ∧
      (∀ ref, ref ∈ file.sources ↔
        (setting.program.tree.name? ref).isSome = true ∧
          ∃ path, ∃ depth < Limits.treeDepth, setting.program.Reaches root path depth ref) ∧
      file.sources.Nodup ∧
      file.sources.Pairwise (setting.program.Precedes root) ∧
      (∀ entry ∈ file.names,
        (setting.program.IsDeclaredName entry.source ∧
            ∃ ident, entry.lowered = .declaration ident) ∨
          (¬ setting.program.IsDeclaredName entry.source ∧
            ∃ value, entry.lowered = .expression value)) ∧
      ∀ entry ∈ file.names, file.get? entry.source = some entry.lowered := by
  obtain ⟨rootNode, rootHeld, _⟩ := Option.map_eq_some_iff.mp isTree.isFile
  obtain ⟨stops, found, charts⟩ := isTree.charted Limits.treeDepth root rootNode rootHeld
  obtain ⟨file, lowered⟩ : ∃ file, setting.lowerFile root = .ok file :=
    ⟨_, by rw [lowerFile_eq_run isTree.isFile, found]; rfl⟩
  obtain ⟨sameStops, sameFound, names⟩ := exists_run_of_lowerFile lowered
  obtain rfl := Except.ok.inj (found.symm.trans sameFound)
  have sources : file.sources = (Stop.places stops).map Place.ref := by
    rw [LoweredUnit.sources, names]
    exact sources_of_entries stops _
  have covers (ref : NodeRef) :
      ref ∈ file.sources ↔
        (setting.program.tree.name? ref).isSome = true ∧
          ∃ path, ∃ depth < Limits.treeDepth,
            setting.program.Reaches root path depth ref := by
    rw [sources, List.mem_map]
    constructor
    · rintro ⟨place, member, rfl⟩
      obtain ⟨named, depth, bound, reaches⟩ := (charts.covers place).mp member
      exact ⟨named, place.path, depth, bound, reaches⟩
    · rintro ⟨named, path, depth, bound, reaches⟩
      exact ⟨⟨path, ref⟩, (charts.covers _).mpr ⟨named, depth, bound, reaches⟩, rfl⟩
  have ordered : file.sources.Pairwise (setting.program.Precedes root) := by
    rw [sources]
    exact Program.IsTree.precedes_places charts
  have nodup : file.sources.Nodup := by
    refine ordered.imp_of_mem fun firstMember _ precedes => ?_
    obtain ⟨name, named⟩ := Option.isSome_iff_exists.mp ((covers _).mp firstMember).1
    obtain ⟨node, held, _⟩ := Option.bind_eq_some_iff.mp named
    exact isTree.ne_of_precedes (Tree.isPresent_of_node? held) precedes
  refine ⟨file, lowered, covers, nodup, ordered, ?_, fun entry => LoweredUnit.get?_of_mem nodup⟩
  intro entry member
  rw [← Array.mem_toList_iff, names, List.mem_filterMap] at member
  obtain ⟨stop, stopMember, isEntry⟩ := member
  exact lowered_of_fits (isTree.fits_of_mem_itinerary found stop stopMember) isEntry

end Setting

/-! ## A file with a key and an ambient declaration -/

/-- A declaration that reads a member of an object, and an ambient declaration. -/
def Program.keyAndAmbient : Program :=
  let (name, program) := Program.addIdentifier { fileName := "main.ts" } "total" 0
  let (object, program) := program.addIdentifier "list" 8
  let (key, program) := program.addIdentifier "length" 13
  let (value, program) := program.addMember object key
  let (declaration, program) := program.addDeclaration .variableDeclaration name [value]
  let (ambientName, program) := program.addIdentifier "print" 20
  let (ambient, program) := program.addDeclaration .variableDeclaration ambientName []
  let (_, program) := program.addSourceFile [declaration, ambient]
  let (symbol, symbols) :=
    program.symbols.add { name := "print", flags := SymbolFlags.localVariable.union .ambient }
  { program with symbols }.bind ambientName symbol

theorem Program.keyAndAmbient_isTree : Program.keyAndAmbient.IsTree (.node 7) where
  filled := by decide +kernel
  exist := by decide +kernel
  unshared := by decide +kernel
  identifiers := by decide +kernel
  isFile := by decide +kernel
  isRoot := by decide +kernel

/-- The key and the ambient declaration are left out. -/
theorem Setting.lowerFile_in_source_order_keyAndAmbient :
    Program.keyAndAmbient.IsTree (.node 7) ∧
      ∃ file, Setting.lowerFile { program := .keyAndAmbient } (.node 7) = .ok file ∧
        file.sources = [.node 0, .node 1] ∧
        Program.keyAndAmbient.Precedes (.node 7) (.node 0) (.node 1) := by
  have run :
      (Setting.lowerFile { program := .keyAndAmbient } (.node 7)).map LoweredUnit.sources =
        .ok [.node 0, .node 1] := by
    decide +kernel
  obtain ⟨file, lowered, _, _, ordered, _⟩ :=
    Setting.lowerFile_in_source_order { program := .keyAndAmbient } Program.keyAndAmbient_isTree
  rw [lowered] at run
  have sources : file.sources = [.node 0, .node 1] := Except.ok.inj run
  rw [sources] at ordered
  exact ⟨Program.keyAndAmbient_isTree, file, lowered, sources,
    List.rel_of_pairwise_cons ordered List.mem_cons_self⟩

end NameLowering
