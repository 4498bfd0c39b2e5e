import Mathlib.Data.List.Pairwise
import NameLowering.Program.Build
import NameLowering.Proofs.Walk.Coverage
import NameLowering.Proofs.Walk.Nesting

/-!
# The order of scopes

In a tree every node within reach that stands for a scope has one. The scopes come in post-order,
with that of the file last, and their numbers count them in pre-order, except that what is in the
name of a declaration is counted before the declaration.
-/

namespace NameLowering

open Classical in
/-- The scopes that are opened before another one, going by their nodes. -/
noncomputable def Tree.openedBefore (tree : Tree) (scopes : List Scope) (scope : Scope) :
    List Scope :=
  scopes.filter fun other => tree.OpensBefore other.node scope.node

/-! ## Numbers as places -/

theorem length_filter_lt_range' (bound count : Nat) (inside : bound ≤ count) :
    ((List.range' 1 count).filter (· < bound + 1)).length = bound := by
  have split : List.range' 1 count = List.range' 1 bound ++ List.range' (1 + bound) (count - bound) := by
    rw [List.range'_append_1]
    congr 1
    omega
  have allBelow : (List.range' 1 bound).filter (· < bound + 1) = List.range' 1 bound := by
    refine List.filter_eq_self.mpr fun number member => ?_
    have bounds := List.mem_range'_1.mp member
    simp only [decide_eq_true_eq]
    omega
  have noneBelow : (List.range' (1 + bound) (count - bound)).filter (· < bound + 1) = [] := by
    refine List.filter_eq_nil_iff.mpr fun number member => ?_
    have bounds := List.mem_range'_1.mp member
    simp only [decide_eq_true_eq]
    omega
  rw [split, List.filter_append, allBelow, noneBelow, List.append_nil, List.length_range']

namespace Program.Nested

variable {program : Program} {opened : Nat} {region : NodeRef → Prop} {scopes : List Scope}
  {scope other : Scope}

theorem ids_nodup (nested : program.Nested opened region scopes) :
    (scopes.map Scope.id).Nodup :=
  nested.ids.nodup_iff.mpr List.nodup_range'

/-- A scope has a smaller number than another one just if it is opened before. -/
theorem opensBefore_iff (unshared : program.tree.Unshared) (acyclic : program.tree.Acyclic)
    (nested : program.Nested opened region scopes) (isOther : other ∈ scopes)
    (isScope : scope ∈ scopes) :
    program.tree.OpensBefore other.node scope.node ↔ other.id < scope.id := by
  let Agree (one two : Scope) : Prop :=
    (program.tree.OpensBefore one.node two.node ↔ one.id < two.id) ∧
      (program.tree.OpensBefore two.node one.node ↔ two.id < one.id)
  have symmetric : Std.Symm Agree := ⟨fun one two agree => ⟨agree.2, agree.1⟩⟩
  have reflexive (one : Scope) (_ : one ∈ scopes) : Agree one one := by
    have notBefore : ¬ program.tree.OpensBefore one.node one.node :=
      Tree.OpensBefore.irrefl unshared acyclic
    exact ⟨iff_of_false notBefore (Nat.lt_irrefl _), iff_of_false notBefore (Nat.lt_irrefl _)⟩
  have different : scopes.Pairwise fun first second => first.id ≠ second.id :=
    List.pairwise_map.mp nested.ids_nodup
  have agree : scopes.Pairwise Agree := by
    refine (nested.ordered.and different).imp fun ⟨⟨closesBefore, encloses⟩, notSame⟩ => ?_
    constructor
    · rw [closesBefore.opensBefore_iff_not unshared acyclic, ← encloses]
      omega
    · rw [closesBefore.opensBefore_iff unshared acyclic, encloses]
  exact (agree.forall_of_forall reflexive isOther isScope).1

/-- The number of a scope is its place among all in the order of opening. -/
theorem id_eq (unshared : program.tree.Unshared) (acyclic : program.tree.Acyclic)
    (nested : program.Nested 0 region scopes) (member : scope ∈ scopes) :
    scope.id = (program.tree.openedBefore scopes scope).length + 1 := by
  have bounds := nested.id_bounds member
  have sameScopes :
      program.tree.openedBefore scopes scope = scopes.filter fun other => other.id < scope.id := by
    refine List.filter_congr fun other isOther => ?_
    simp only [nested.opensBefore_iff unshared acyclic isOther member]
  have sameIds :
      (scopes.filter fun other => other.id < scope.id).map Scope.id =
        (scopes.map Scope.id).filter (· < scope.id) := by
    rw [List.filter_map]
    rfl
  have sameLength :
      (program.tree.openedBefore scopes scope).length =
        ((List.range' 1 scopes.length).filter (· < scope.id)).length := by
    rw [sameScopes, ← List.length_map Scope.id, sameIds]
    exact (nested.ids.filter _).length_eq
  obtain ⟨place, place_eq⟩ : ∃ place, scope.id = place + 1 := ⟨scope.id - 1, by omega⟩
  rw [sameLength, place_eq, length_filter_lt_range' place scopes.length (by omega)]

end Program.Nested

/-! ## Files -/

namespace Setting

variable {setting : Setting} {root : NodeRef} {file : LoweredUnit}

theorem exists_lowerFile_of_isForest
    (isForest : setting.program.IsForest)
    (isFile : setting.program.tree.kind? root = some .sourceFile) :
    ∃ file, setting.lowerFile root = .ok file := by
  obtain ⟨node, held, _⟩ := Option.map_eq_some_iff.mp isFile
  obtain ⟨stops, found, _⟩ := isForest.charted Limits.treeDepth root node held
  exact ⟨_, by rw [lowerFile_eq_run isFile, found]; rfl⟩

/-- The scopes of a file are those that a walk from its node opens, nested as their nodes are. -/
theorem nested_scopes
    (unshared : setting.program.tree.Unshared) (acyclic : setting.program.tree.Acyclic)
    (lowered : setting.lowerFile root = .ok file) :
    setting.program.Nested 0 (setting.program.OpensWithin Limits.treeDepth root)
      file.scopes.toList := by
  obtain ⟨_, stops, found, _, _, scopes⟩ := eq_run_of_lowerFile lowered
  obtain ⟨closed, allClosed, _, nested⟩ :=
    nests_itinerary unshared acyclic Limits.treeDepth root stops found {}
  rw [scopes, allClosed]
  exact nested

/-- A file has one scope for each node that a walk comes to and that stands for a scope. The scopes
come in the order of closing, that of the file last, and their numbers are their places in the order
of opening. One that was closed later and opened earlier than another one encloses it, and none else
does. -/
theorem lowerFile_scope_order
    (setting : Setting) {root : NodeRef} {node : Node} {statements : List NodeRef}
    (unshared : setting.program.tree.Unshared) (acyclic : setting.program.tree.Acyclic)
    (held : setting.program.tree.node? root = some node) (kind : node.kind = .sourceFile)
    (shape : node.shape = .group statements) :
    (setting.program.IsForest → ∃ file, setting.lowerFile root = .ok file) ∧
      ∀ file, setting.lowerFile root = .ok file →
        (∀ kind ref,
          (∃ scope ∈ file.scopes, scope.kind = kind ∧ scope.node = ref) ↔
            setting.program.scopeAt? ref = some kind ∧
              ∃ path, ∃ depth < Limits.treeDepth,
                setting.program.Reaches root path depth ref) ∧
        (file.scopes.toList.map Scope.node).Nodup ∧
        (file.scopes.toList.map Scope.id).Perm (List.range' 1 file.scopes.size) ∧
        (∀ scope ∈ file.scopes,
          scope.id =
            (setting.program.tree.openedBefore file.scopes.toList scope).length + 1) ∧
        (∃ (inner : Array Scope) (fileScope : Scope),
          file.scopes = inner.push fileScope ∧ fileScope.kind = .file ∧ fileScope.node = root) ∧
        file.scopes.toList.Pairwise fun first second =>
          setting.program.tree.ClosesBefore first.node second.node ∧
            (setting.program.tree.Encloses second.node first.node ↔ second.id < first.id) ∧
            ¬ setting.program.tree.Encloses first.node second.node := by
  have isFile : setting.program.tree.kind? root = some .sourceFile := by
    rw [Tree.kind?, held, Option.map_some, kind]
  refine ⟨fun isForest => exists_lowerFile_of_isForest isForest isFile, fun file lowered => ?_⟩
  have nested := nested_scopes unshared acyclic lowered
  obtain ⟨_, _, _, _, _, fileLast⟩ := exists_run_of_statements held shape lowered
  refine ⟨?_, ?_, nested.ids, ?_, ⟨_, _, fileLast, rfl, rfl⟩, ?_⟩
  · intro kind ref
    constructor
    · rintro ⟨scope, member, rfl, rfl⟩
      have inFile := Array.mem_toList_iff.mpr member
      exact ⟨nested.kinds scope inFile, (nested.region_node inFile).2⟩
    · rintro ⟨opens, reached⟩
      have inRegion : setting.program.OpensWithin Limits.treeDepth root ref :=
        ⟨Option.isSome_iff_exists.mpr ⟨kind, opens⟩, reached⟩
      obtain ⟨scope, inFile, rfl⟩ := List.mem_map.mp ((nested.nodes ref).mpr inRegion)
      have sameKind := (nested.kinds scope inFile).symm.trans opens
      exact ⟨scope, Array.mem_toList_iff.mp inFile, Option.some.inj sameKind, rfl⟩
  · exact List.pairwise_map.mpr
      (nested.ordered.imp fun ordered => ordered.1.ne unshared acyclic)
  · intro scope member
    exact nested.id_eq unshared acyclic (Array.mem_toList_iff.mpr member)
  · refine nested.ordered.imp fun ordered => ?_
    obtain ⟨closesBefore, encloses⟩ := ordered
    exact ⟨closesBefore, encloses.symm, fun around =>
      closesBefore.not_below unshared acyclic around.1⟩

end Setting

/-! ## A function in the name of another one -/

/-- The declaration of a function with a function in the place of its name. -/
def Program.functionInName : Program :=
  let (inner, program) := Program.addGroup { fileName := "main.ts" } .arrowFunction []
  let (declared, program) := program.addDeclaration .functionDeclaration inner []
  (program.addSourceFile [declared]).2

def LoweredUnit.functionInName : LoweredUnit where
  names := #[]
  diagnostics := #[]
  scopes := #[
    { kind := .function, id := 2, node := .node 0, mentions := [] },
    { kind := .function, id := 3, node := .node 1, mentions := [] },
    { kind := .file, id := 1, node := .node 2, mentions := [] }]

theorem Program.lower_functionInName :
    Setting.lowerFile { program := .functionInName } (.node 2) = .ok .functionInName := by
  decide +kernel

theorem Program.functionInName_isRootedAt : Program.functionInName.tree.IsRootedAt (.node 2) where
  grown := Tree.Grown.of_orphans (by decide +kernel) (by decide +kernel)
  unshared := by
    unfold Tree.Unshared
    decide +kernel
  isRoot := by decide +kernel

/-- The declaration is above the function in the place of its name, but opens its scope later. -/
theorem Setting.scope_order_not_preorder :
    Program.functionInName.tree.IsRootedAt (.node 2) ∧
      Setting.lowerFile { program := .functionInName } (.node 2) = .ok .functionInName ∧
      ¬ ∀ outer ∈ LoweredUnit.functionInName.scopes, ∀ inner ∈ LoweredUnit.functionInName.scopes,
        outer.node ≠ inner.node →
          Program.functionInName.tree.Below outer.node inner.node → outer.id < inner.id := by
  refine ⟨Program.functionInName_isRootedAt, Program.lower_functionInName, ?_⟩
  intro preorder
  have below : Program.functionInName.tree.Below (.node 1) (.node 0) := by
    obtain ⟨node, held, shape⟩ :
        ∃ node, Program.functionInName.tree.node? (.node 1) = some node ∧
          node.shape = .declaration (.node 0) [] :=
      ⟨_, rfl, rfl⟩
    exact Tree.Below.of_child held (by rw [shape]; decide)
  have smaller :=
    preorder LoweredUnit.functionInName.scopes[1] (Array.getElem_mem _)
      LoweredUnit.functionInName.scopes[0] (Array.getElem_mem _) (by decide) below
  exact absurd smaller (by decide)

/-- The file encloses the function in the place of a name, which the declaration does not. -/
theorem Setting.lowerFile_scope_order_functionInName :
    Setting.lowerFile { program := .functionInName } (.node 2) = .ok .functionInName ∧
      Program.functionInName.tree.Encloses (.node 2) (.node 0) ∧
      ¬ Program.functionInName.tree.Encloses (.node 1) (.node 0) := by
  have rooted := Program.functionInName_isRootedAt
  obtain ⟨node, held, kind, shape⟩ :
      ∃ node, Program.functionInName.tree.node? (.node 2) = some node ∧
        node.kind = .sourceFile ∧ node.shape = .group [.node 1] :=
    ⟨_, rfl, rfl, rfl⟩
  obtain ⟨_, ofFile⟩ :=
    Setting.lowerFile_scope_order { program := .functionInName } rooted.unshared
      rooted.grown.acyclic held kind shape
  obtain ⟨_, _, _, _, _, ordered⟩ := ofFile _ Program.lower_functionInName
  have afterFirst := (List.pairwise_cons.mp ordered).1
  obtain ⟨_, declaration, _⟩ :=
    afterFirst LoweredUnit.functionInName.scopes[1] List.mem_cons_self
  obtain ⟨_, file, _⟩ :=
    afterFirst LoweredUnit.functionInName.scopes[2]
      (List.mem_cons_of_mem _ List.mem_cons_self)
  exact ⟨Program.lower_functionInName, file.mpr (by decide),
    fun encloses => absurd (declaration.mp encloses) (by decide)⟩

end NameLowering
