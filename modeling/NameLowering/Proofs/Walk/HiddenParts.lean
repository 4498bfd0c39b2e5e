import NameLowering.Program.Build
import NameLowering.Proofs.Tree.Growth
import NameLowering.Proofs.Walk.Agreement

/-!
# Hidden parts

A walk passes over the keys of member accesses and over ambient declarations, and no climb from
a name outside looks into them. So two programs that differ only in there are lowered alike,
whatever is in there.
-/

namespace NameLowering

namespace Program

/-! ## Hidden nodes -/

/-- A slot that walks pass over in two programs: the key of a member access, or any slot of
a declaration whose name stands for the same ambient symbol in both. -/
def HidesSlot (left right : Program) (shape : NodeShape) (position : Nat) : Prop :=
  match shape with
  | .member .. => position = 1
  | .declaration bound _ =>
    left.isAmbientName bound = true ∧ left.symbolAt bound = right.symbolAt bound
  | _ => False

/-- What is in such a slot of a tree, or below it. -/
inductive Hidden (left right : Program) (tree : Tree) : NodeRef → Prop
  | slot
      {holder child : NodeRef} {node : Node} {position : Nat}
      (held : tree.node? holder = some node) (slot : node.shape.slots[position]? = some child)
      (present : child.isPresent = true) (hides : left.HidesSlot right node.shape position) :
      Hidden left right tree child
  | deeper
      {parent child : NodeRef} {node : Node} (above : Hidden left right tree parent)
      (held : tree.node? parent = some node) (isChild : child ∈ node.shape.children) :
      Hidden left right tree child

/-- What is hidden in neither of two programs. -/
structure Visible (left right : Program) (ref : NodeRef) : Prop where
  inLeft : ¬ left.Hidden right left.tree ref
  inRight : ¬ left.Hidden right right.tree ref

/-- Two programs say the same of all that is hidden in neither. Of the spans of nodes, only those of
names have to be the same. -/
structure AlikeOutside (left right : Program) : Prop where
  fileName : left.fileName = right.fileName
  types : left.types = right.types
  symbols : left.symbols = right.symbols
  contents : ∀ ref, left.Visible right ref → left.tree.content? ref = right.tree.content? ref
  typeAt : ∀ ref, left.Visible right ref → left.typeAt ref = right.typeAt ref
  symbolAt : ∀ ref, left.Visible right ref → left.symbolAt ref = right.symbolAt ref

/-- A walk from a root comes to a slot, filled or not. -/
inductive Walked (program : Program) (root : NodeRef) : NodeRef → Prop
  | root : Walked program root root
  | slot
      {parent child : NodeRef} {node : Node} {position : Nat} (above : Walked program root parent)
      (held : program.tree.node? parent = some node)
      (slot : node.shape.slots[position]? = some child)
      (entered : program.enters node.shape position = true) :
      Walked program root child

variable {left right : Program} {tree : Tree} {root ref child : NodeRef} {node : Node}
  {position : Nat}

theorem not_hidesSlot_of_enters (entered : left.enters node.shape position = true) :
    ¬ left.HidesSlot right node.shape position := by
  intro hides
  cases shape : node.shape with
  | member object key =>
      simp only [shape, enters, HidesSlot, beq_iff_eq] at entered hides
      omega
  | declaration bound parts =>
      simp only [shape, enters, HidesSlot, Bool.not_eq_true'] at entered hides
      rw [entered] at hides
      exact Bool.false_ne_true hides.1
  | identifier _ | call _ _ | forOf _ _ _ | group _ | token =>
      simp only [shape, HidesSlot] at hides

namespace Hidden

theorem isPresent (hidden : left.Hidden right tree ref) : ref.isPresent = true := by
  cases hidden with
  | slot _ _ present _ => exact present
  | deeper _ _ isChild => exact NodeShape.isPresent_of_mem_children isChild

/-- What is hidden is the child of some node. -/
theorem exists_parent (hidden : left.Hidden right tree ref) :
    ∃ node ∈ tree.nodes, ref ∈ node.shape.children := by
  cases hidden with
  | slot held slot present _ =>
      exact ⟨_, Tree.mem_nodes_of_node? held, NodeShape.mem_children_of_slot slot present⟩
  | deeper _ held isChild =>
      exact ⟨_, Tree.mem_nodes_of_node? held, isChild⟩

/-- Of the slots of a node that is not hidden, only those that walks pass over hide anything. -/
theorem hidesSlot (hidden : left.Hidden right tree child) (unshared : tree.Unshared)
    (held : tree.node? ref = some node) (slot : node.shape.slots[position]? = some child)
    (outside : ¬ left.Hidden right tree ref) :
    left.HidesSlot right node.shape position := by
  have present := hidden.isPresent
  cases hidden with
  | slot otherHeld otherSlot _ hides =>
      obtain ⟨rfl, rfl⟩ := unshared.slot_unique held otherHeld slot otherSlot present
      obtain rfl := Option.some.inj (held.symm.trans otherHeld)
      exact hides
  | deeper above otherHeld isChild =>
      have isOwn := NodeShape.mem_children_of_slot slot present
      obtain rfl := unshared.parent_unique held otherHeld isOwn isChild
      exact absurd above outside

end Hidden

end Program

/-- A built tree without shared children, with a node that is no child. -/
structure Tree.IsBuiltAt (tree : Tree) (root : NodeRef) : Prop where
  built : tree.Built
  unshared : tree.Unshared
  isRoot : ∀ node ∈ tree.nodes, root ∉ node.shape.children

namespace Program.AlikeOutside

variable {left right : Program} {root ref child : NodeRef} {node : Node} {position : Nat}
  (alike : left.AlikeOutside right) (leftBuilt : left.tree.IsBuiltAt root)
  (rightBuilt : right.tree.IsBuiltAt root)

section

include alike leftBuilt rightBuilt

/-! ## What a walk comes to -/

/-- The slots of a visible node are visible, but for those that walks pass over. -/
theorem visible_of_slot (visible : left.Visible right ref) (held : left.tree.node? ref = some node)
    (slot : node.shape.slots[position]? = some child)
    (shown : ¬ left.HidesSlot right node.shape position) :
    left.Visible right child where
  inLeft hidden := shown (hidden.hidesSlot leftBuilt.unshared held slot visible.inLeft)
  inRight hidden := by
    obtain ⟨other, otherHeld, same⟩ :=
      Tree.exists_node_of_content (alike.contents ref visible) held
    have shape : other.shape = node.shape := congrArg NodeContent.shape same
    rw [← shape] at slot shown
    exact shown (hidden.hidesSlot rightBuilt.unshared otherHeld slot visible.inRight)

/-- A walk comes to nothing that is hidden. -/
theorem visible_of_walked (walked : left.Walked root ref) : left.Visible right ref := by
  induction walked with
  | root =>
      constructor
      · intro hidden
        obtain ⟨node, isNode, isChild⟩ := hidden.exists_parent
        exact leftBuilt.isRoot node isNode isChild
      · intro hidden
        obtain ⟨node, isNode, isChild⟩ := hidden.exists_parent
        exact rightBuilt.isRoot node isNode isChild
  | slot _ held slot entered inductionHypothesis =>
      exact alike.visible_of_slot leftBuilt rightBuilt inductionHypothesis held slot
        (not_hidesSlot_of_enters entered)

/-- The programs agree on which declarations are ambient, as far as walks come. -/
theorem isAmbientName_eq (visible : left.Visible right ref)
    (held : left.tree.node? ref = some node) {bound : NodeRef} {parts : List NodeRef}
    (shape : node.shape = .declaration bound parts) :
    left.isAmbientName bound = right.isAmbientName bound := by
  have sameSymbol : left.symbolAt bound = right.symbolAt bound := by
    by_cases hides : left.HidesSlot right node.shape 0
    · rw [shape] at hides
      exact hides.2
    · have nameSlot : node.shape.slots[0]? = some bound := by rw [shape]; rfl
      exact alike.symbolAt bound
        (alike.visible_of_slot leftBuilt rightBuilt visible held nameSlot hides)
  rw [isAmbientName, isAmbientName, boundSymbol?, boundSymbol?, sameSymbol, alike.symbols]

/-- What a walk comes to has the same parent in both programs, and the walk was there before. -/
theorem parent_of_walked (walked : left.Walked root ref) :
    left.tree.parent ref = right.tree.parent ref ∧
      (left.tree.parent ref = .absent ∨ left.Walked root (left.tree.parent ref)) := by
  cases walked with
  | root =>
      have orphan {tree : Tree} (isBuilt : tree.IsBuiltAt root) : tree.parent root = .absent :=
        isBuilt.built.parent_eq_absent fun _ node held isChild =>
          absurd isChild (isBuilt.isRoot node (Tree.mem_nodes_of_node? held))
      exact ⟨(orphan leftBuilt).trans (orphan rightBuilt).symm, Or.inl (orphan leftBuilt)⟩
  | @slot parent _ node position above held slot entered =>
      cases ref with
      | absent =>
          exact ⟨rfl, Or.inl rfl⟩
      | node index =>
          have visible := alike.visible_of_walked leftBuilt rightBuilt above
          obtain ⟨other, otherHeld, same⟩ :=
            Tree.exists_node_of_content (alike.contents parent visible) held
          have shape : other.shape = node.shape := congrArg NodeContent.shape same
          have isChild : .node index ∈ node.shape.children :=
            NodeShape.mem_children_of_slot slot rfl
          have atLeft := leftBuilt.built.parent_eq leftBuilt.unshared held isChild
          rw [← shape] at isChild
          have atRight := rightBuilt.built.parent_eq rightBuilt.unshared otherHeld isChild
          refine ⟨atLeft.trans atRight.symm, ?_⟩
          rw [atLeft]
          split
          · exact Or.inr above
          · exact Or.inl rfl

/-- The programs share all that a walk comes to, and climbs from there do not leave it. -/
theorem shares : left.Shares right (left.Walked root) where
  fileName := alike.fileName
  types := alike.types
  symbols := alike.symbols
  typeAt ref walked := alike.typeAt ref (alike.visible_of_walked leftBuilt rightBuilt walked)
  symbolAt ref walked := alike.symbolAt ref (alike.visible_of_walked leftBuilt rightBuilt walked)
  contents ref walked := alike.contents ref (alike.visible_of_walked leftBuilt rightBuilt walked)
  ambient _ _ _ _ walked held shape :=
    alike.isAmbientName_eq leftBuilt rightBuilt
      (alike.visible_of_walked leftBuilt rightBuilt walked) held shape
  downward _ _ _ _ walked held slot entered := .slot walked held slot entered
  around := by
    refine ⟨fun ref => ref = .absent ∨ left.Walked root ref, ⟨?_, ?_⟩, fun _ => Or.inr⟩
    · rintro ref (rfl | walked)
      · exact .missing rfl rfl
      · exact .of_content
          (alike.contents ref (alike.visible_of_walked leftBuilt rightBuilt walked))
          (alike.parent_of_walked leftBuilt rightBuilt walked).1
    · rintro ref (rfl | walked)
      · exact Or.inl rfl
      · exact (alike.parent_of_walked leftBuilt rightBuilt walked).2

end

end Program.AlikeOutside

/-! ## Files -/

/-- Programs that differ only in what is hidden in one of them are lowered alike, or cannot be
lowered for the same reason. Hidden parts may misuse extensions, need other names, open scopes or
lead nowhere. -/
theorem Setting.lowerFile_eq_of_alikeOutside
    {left right : Program} {root : NodeRef} (leftBuilt : left.tree.IsBuiltAt root)
    (rightBuilt : right.tree.IsBuiltAt root) (alike : left.AlikeOutside right) (target : Target) :
    Setting.lowerFile { program := left, target } root =
      Setting.lowerFile { program := right, target } root :=
  (alike.shares leftBuilt rightBuilt).lowerFile_eq .root target

/-! ## An ambient function and the member of an object -/

/-- An ambient function with some part, which may have a loose end, and a member access with some
key. -/
def Program.printAndMember (part : NodeKind) (loose : NodeRef) (key : String) : Program :=
  let (ambientName, program) := Program.addIdentifier { fileName := "main.ts" } "print" 0
  let (inside, program) := program.addIdentifier key 6
  let (body, program) := program.addGroup part [inside, loose]
  let (ambient, program) := program.addDeclaration .functionDeclaration ambientName [body]
  let (object, program) := program.addIdentifier "list" 20
  let (name, program) := program.addIdentifier key 25
  let (access, program) := program.addMember object name
  let (_, program) := program.addSourceFile [ambient, access]
  let (symbol, symbols) :=
    program.symbols.add { name := "print", flags := SymbolFlags.localVariable.union .ambient }
  { program with symbols }.bind ambientName symbol

theorem Program.typeAt_printAndMember (part : NodeKind) (loose : NodeRef) (key : String) :
    (printAndMember part loose key).typeAt = fun _ => none :=
  rfl

theorem Program.symbolAt_printAndMember (part : NodeKind) (loose : NodeRef) (key : String) :
    (printAndMember part loose key).symbolAt =
      fun ref => if ref = .node 0 then some ⟨0⟩ else none :=
  rfl

/-- The function has a parameter. -/
def Program.tameParts : Program := printAndMember .parameter .absent "length"

/-- The function has a block that holds a node that does not exist, and the key is reserved. -/
def Program.wildParts : Program := printAndMember .block (.node 9) "end"

theorem Program.tameParts_isBuiltAt : Program.tameParts.tree.IsBuiltAt (.node 7) where
  built := Tree.Built.of_orphans (by decide +kernel)
  unshared := by
    unfold Tree.Unshared
    decide +kernel
  isRoot := by decide +kernel

theorem Program.wildParts_isBuiltAt : Program.wildParts.tree.IsBuiltAt (.node 7) where
  built := Tree.Built.of_orphans (by decide +kernel)
  unshared := by
    unfold Tree.Unshared
    decide +kernel
  isRoot := by decide +kernel

theorem Program.tameParts_alikeOutside : Program.tameParts.AlikeOutside .wildParts where
  fileName := by decide +kernel
  types := by decide +kernel
  symbols := by decide +kernel
  typeAt ref _ := by rw [tameParts, wildParts, typeAt_printAndMember, typeAt_printAndMember]
  symbolAt ref _ := by
    rw [tameParts, wildParts, symbolAt_printAndMember, symbolAt_printAndMember]
  contents := by
    obtain ⟨function, functionHeld, isFunction⟩ :
        ∃ node, Program.tameParts.tree.node? (.node 3) = some node ∧
          node.shape = .declaration (.node 0) [.node 2] :=
      ⟨_, rfl, rfl⟩
    obtain ⟨body, bodyHeld, isBody⟩ :
        ∃ node, Program.tameParts.tree.node? (.node 2) = some node ∧
          node.shape = .group [.node 1, .absent] :=
      ⟨_, rfl, rfl⟩
    obtain ⟨access, accessHeld, isAccess⟩ :
        ∃ node, Program.tameParts.tree.node? (.node 6) = some node ∧
          node.shape = .member (.node 4) (.node 5) :=
      ⟨_, rfl, rfl⟩
    have nameSlot : function.shape.slots[0]? = some (.node 0) := by rw [isFunction]; rfl
    have bodySlot : function.shape.slots[1]? = some (.node 2) := by rw [isFunction]; rfl
    have keySlot : access.shape.slots[1]? = some (.node 5) := by rw [isAccess]; rfl
    have isAmbient : Program.tameParts.isAmbientName (.node 0) = true := by decide +kernel
    have ambient (position : Nat) :
        Program.tameParts.HidesSlot .wildParts function.shape position := by
      rw [isFunction]
      exact ⟨isAmbient, by decide +kernel⟩
    have isKey : Program.tameParts.HidesSlot .wildParts access.shape 1 := by
      rw [isAccess]
      rfl
    have inBody : .node 1 ∈ body.shape.children := by
      rw [isBody]
      exact List.mem_cons_self
    have atBody : Program.tameParts.Hidden .wildParts Program.tameParts.tree (.node 2) :=
      .slot functionHeld bodySlot rfl (ambient 1)
    intro ref visible
    match ref with
    | .node 0 => exact absurd (.slot functionHeld nameSlot rfl (ambient 0)) visible.inLeft
    | .node 1 => exact absurd (.deeper atBody bodyHeld inBody) visible.inLeft
    | .node 2 => exact absurd atBody visible.inLeft
    | .node 5 => exact absurd (.slot accessHeld keySlot rfl isKey) visible.inLeft
    | .absent | .node 3 | .node 4 | .node 6 | .node 7 => decide +kernel
    | .node (index + 8) =>
        have size : Program.tameParts.tree.nodes.size = 8 := by decide +kernel
        have otherSize : Program.wildParts.tree.nodes.size = 8 := by decide +kernel
        simp [Tree.content?, Tree.node?, size, otherSize]

def LoweredUnit.printAndMember : LoweredUnit where
  names := #[
    { source := .node 4
      lowered := .expression (.ident
        { text := "list", sourceName := some "list", source := some (.node 4) }) }]
  diagnostics := #[]
  scopes := #[{ kind := .file, id := 1, node := .node 7, mentions := [] }]

/-- The object is lowered, whatever is in the function and whichever member is accessed. -/
theorem Setting.lowerFile_eq_of_alikeOutside_printAndMember :
    Program.tameParts.tree.IsBuiltAt (.node 7) ∧ Program.wildParts.tree.IsBuiltAt (.node 7) ∧
      Program.tameParts.AlikeOutside .wildParts ∧
      Setting.lowerFile { program := .tameParts } (.node 7) = .ok .printAndMember ∧
      Setting.lowerFile { program := .wildParts } (.node 7) = .ok .printAndMember := by
  have same :=
    Setting.lowerFile_eq_of_alikeOutside Program.tameParts_isBuiltAt Program.wildParts_isBuiltAt
      Program.tameParts_alikeOutside .universal
  have lowered :
      Setting.lowerFile { program := .tameParts } (.node 7) = .ok .printAndMember := by
    decide +kernel
  exact ⟨Program.tameParts_isBuiltAt, Program.wildParts_isBuiltAt,
    Program.tameParts_alikeOutside, lowered, same.symm.trans lowered⟩

end NameLowering
