import NameLowering.Proofs.Walk.Charts

/-!
# Itineraries of trees

The itinerary from a node of a tree exists, and its chart is what ways from the node lead to within
the number of levels. It lowers the names of declarations as such, and all others as uses.
-/

namespace NameLowering.Program

variable {program : Program} {root ref : NodeRef} {node : Node} {levels : Nat} {place : Place}

/-! ## Names within reach -/

/-- A walk from a node over a number of levels comes to a name. -/
def InReach (program : Program) (levels : Nat) (ref : NodeRef) (place : Place) : Prop :=
  (program.tree.name? place.ref).isSome = true ∧
    ∃ depth < levels, program.Reaches ref place.path depth place.ref

theorem inReach_of_name {name : SourceName}
    (held : program.tree.node? ref = some node) (isName : node.shape = .identifier name) :
    program.InReach (levels + 1) ref place ↔ place = { path := [], ref } := by
  constructor
  · rintro ⟨_, depth, _, reaches⟩
    obtain ⟨path, target⟩ := place
    cases reaches with
    | here => rfl
    | inside otherHeld slot =>
        obtain rfl := Option.some.inj (held.symm.trans otherHeld)
        simp [isName, NodeShape.slots] at slot
  · rintro rfl
    refine ⟨?_, 0, Nat.succ_pos levels, .here ref⟩
    simp [Tree.name?, held, isName, NodeShape.name?]

/-- What is within reach of a node that is no name is within reach of one of its children. -/
theorem inReach_of_nameless
    (held : program.tree.node? ref = some node) (nameless : node.shape.name? = none) :
    program.InReach (levels + 1) ref place ↔
      ∃ position child below,
        node.shape.slots[position]? = some child ∧ program.enters node.shape position = true ∧
          program.InReach (levels + 1 - program.descent node.shape position) child below ∧
          place = below.under position := by
  constructor
  · rintro ⟨named, depth, bound, reaches⟩
    obtain ⟨path, target⟩ := place
    cases reaches with
    | here =>
        simp [Tree.name?, held, nameless] at named
    | @inside _ child _ _ position rest below otherHeld slot entered reaches =>
        obtain rfl := Option.some.inj (held.symm.trans otherHeld)
        exact ⟨position, child, ⟨rest, target⟩, slot, entered,
          ⟨named, below, by omega, reaches⟩, rfl⟩
  · rintro ⟨position, child, below, slot, entered, ⟨named, depth, bound, reaches⟩, rfl⟩
    exact ⟨named, _, by omega, .inside held slot entered reaches⟩

theorem not_inReach_absent : ¬ program.InReach levels .absent place := by
  rintro ⟨named, depth, _, reaches⟩
  obtain ⟨path, target⟩ := place
  cases reaches with
  | here => simp [Tree.name?, Tree.node?] at named
  | inside held => simp [Tree.node?] at held

/-! ## The itinerary of a tree -/

/-- The itinerary from every node is complete and in source order. -/
def Charted (program : Program) (levels : Nat) : Prop :=
  ∀ ref node, program.tree.node? ref = some node →
    ∃ stops, program.itinerary levels ref = .ok stops ∧
      Stop.Charts stops (program.InReach levels ref)

namespace IsForest

/-- The name of a declaration has the chart of what is within reach in its slot. -/
theorem exists_charts_nameStops
    (isForest : program.IsForest) (charted : program.Charted levels) {bound : NodeRef}
    (parts : List NodeRef)
    (exist : bound.isPresent = true → ∃ boundNode, program.tree.node? bound = some boundNode) :
    ∃ stops, program.nameStops (program.itinerary levels) bound = .ok stops ∧
      Stop.Charts stops fun place => ∃ below,
        program.InReach (levels + 1 - program.descent (.declaration bound parts) 0) bound below ∧
          place = below.under 0 := by
  by_cases isName : program.tree.kind? bound = some .identifier
  · obtain ⟨boundNode, boundHeld, _⟩ := Option.map_eq_some_iff.mp isName
    obtain ⟨name, shape⟩ := (isForest.isName_iff boundHeld).mp isName
    have expected : program.expectName bound = .ok name := by
      simp only [expectName, boundHeld, shape, NodeShape.name?]
    have charts :
        Stop.Charts [{ path := [0], event := .declared bound name }]
          (· = { path := [0], ref := bound }) :=
      Stop.Charts.singleton rfl
    refine ⟨_, ?_, charts.congr fun place => ?_⟩
    · simp only [nameStops, isName, if_true, expected]
      rfl
    · simp only [descent, isName, if_true, Nat.sub_zero, inReach_of_name boundHeld shape]
      constructor
      · rintro rfl
        exact ⟨_, rfl, rfl⟩
      · rintro ⟨_, rfl, rfl⟩
        rfl
  · have oneLevel : levels + 1 - program.descent (.declaration bound parts) 0 = levels := by
      simp [descent, isName]
    rw [oneLevel]
    cases present : bound.isPresent with
    | true =>
        obtain ⟨boundNode, boundHeld⟩ := exist present
        obtain ⟨stops, found, charts⟩ := charted bound boundNode boundHeld
        refine ⟨_, ?_, charts.under 0⟩
        simp only [nameStops, isName, if_false, present, if_true]
        exact Stop.joinOne_eq_ok_iff.mpr ⟨stops, found, rfl⟩
    | false =>
        obtain rfl : bound = .absent := by
          cases bound with
          | absent => rfl
          | node index => contradiction
        refine ⟨[], by simp [nameStops, isName, present], Stop.Charts.nil.congr fun place => ?_⟩
        simp [not_inReach_absent]

theorem exists_charts_declaration
    (isForest : program.IsForest) (charted : program.Charted levels)
    (held : program.tree.node? ref = some node) {bound : NodeRef} {parts : List NodeRef}
    (shape : node.shape = .declaration bound parts) :
    ∃ stops, program.itinerary (levels + 1) ref = .ok stops ∧
      Stop.Charts stops (program.InReach (levels + 1) ref) := by
  have nameless : node.shape.name? = none := by simp [shape, NodeShape.name?]
  by_cases ambient : program.isAmbientName bound = true
  · refine ⟨[], by simp only [itinerary, held, shape, ambient, if_true], ?_⟩
    refine Stop.Charts.nil.congr fun place => ?_
    rw [inReach_of_nameless held nameless]
    simp [shape, enters, ambient]
  · have exist (present : bound.isPresent = true) :
        ∃ boundNode, program.tree.node? bound = some boundNode := by
      refine isForest.node?_of_child held ?_
      simp [shape, NodeShape.children, NodeShape.slots, present]
    obtain ⟨atName, nameFound, nameCharts⟩ := isForest.exists_charts_nameStops charted parts exist
    obtain ⟨inside, insideFound, insideCharts⟩ :=
      Stop.exists_charts_joinAll 1 fun part (isPart : part ∈ parts) => by
        obtain ⟨partNode, partHeld⟩ := isForest.node?_of_required held
          (by rw [shape]; exact isPart) (by rw [shape]; exact List.mem_cons_of_mem _ isPart)
        exact charted part partNode partHeld
    -- The slot of the name is before the slots of the parts.
    have apart (first second : Place)
        (firstInside : ∃ below, program.InReach
          (levels + 1 - program.descent (.declaration bound parts) 0) bound below ∧
            first = below.under 0)
        (secondInside : ∃ index part below, parts[index]? = some part ∧
          program.InReach levels part below ∧ second = below.under (1 + index)) :
        first.path < second.path := by
      obtain ⟨firstBelow, _, rfl⟩ := firstInside
      obtain ⟨index, _, secondBelow, _, _, rfl⟩ := secondInside
      exact List.cons_lt_cons_iff.mpr (Or.inl (by omega))
    refine ⟨_, ?_,
      (nameCharts.append (insideCharts.enclosed node.kind ref) apart).congr fun place => ?_⟩
    · simp only [itinerary, held, shape, ambient, if_false, Bool.false_eq_true]
      exact Stop.append_eq_ok_iff.mpr ⟨atName, _, nameFound, by rw [insideFound]; rfl, rfl⟩
    · rw [inReach_of_nameless held nameless]
      simp only [shape, NodeShape.slots, enters, ambient, Bool.not_false, true_and]
      constructor
      · rintro (⟨below, reach, rfl⟩ | ⟨index, part, below, slot, reach, rfl⟩)
        · exact ⟨0, bound, below, rfl, reach, rfl⟩
        · exact ⟨index + 1, part, below, slot, reach, by rw [Nat.add_comm]⟩
      · rintro ⟨position, child, below, slot, reach, rfl⟩
        cases position with
        | zero =>
            obtain rfl := Option.some.inj slot
            exact Or.inl ⟨below, reach, rfl⟩
        | succ index =>
            exact Or.inr ⟨index, child, below, slot, reach, by rw [Nat.add_comm]⟩

theorem exists_charts_member
    (isForest : program.IsForest) (charted : program.Charted levels)
    (held : program.tree.node? ref = some node) {object key : NodeRef}
    (shape : node.shape = .member object key) :
    ∃ stops, program.itinerary (levels + 1) ref = .ok stops ∧
      Stop.Charts stops (program.InReach (levels + 1) ref) := by
  obtain ⟨objectNode, objectHeld⟩ := isForest.node?_of_required held
    (by rw [shape]; exact List.mem_cons_self) (by rw [shape]; exact List.mem_cons_self)
  obtain ⟨stops, found, charts⟩ := charted object objectNode objectHeld
  refine ⟨_, ?_, (charts.under 0).congr fun place => ?_⟩
  · simp only [itinerary, held, shape]
    exact Stop.joinOne_eq_ok_iff.mpr ⟨stops, found, rfl⟩
  · rw [inReach_of_nameless held (by simp [shape, NodeShape.name?])]
    simp only [shape, NodeShape.slots, enters, beq_iff_eq, descent, Nat.add_sub_cancel]
    constructor
    · rintro ⟨below, inside, rfl⟩
      exact ⟨0, object, below, rfl, rfl, inside, rfl⟩
    · rintro ⟨position, child, below, slot, rfl, inside, rfl⟩
      obtain rfl := Option.some.inj slot
      exact ⟨below, inside, rfl⟩

theorem charted (isForest : program.IsForest) (levels : Nat) : program.Charted levels := by
  induction levels with
  | zero =>
      intro ref node held
      refine ⟨[], rfl, Stop.Charts.nil.congr fun place => ?_⟩
      simp [InReach]
  | succ levels inductionHypothesis =>
      intro ref node held
      cases shape : node.shape with
      | identifier name =>
          have charts :
              Stop.Charts [{ event := .used ref name }] (· = { path := [], ref }) :=
            Stop.Charts.singleton rfl
          refine ⟨_, by simp only [itinerary, held, shape], charts.congr fun place => ?_⟩
          exact (inReach_of_name held shape).symm
      | member object key =>
          exact isForest.exists_charts_member inductionHypothesis held shape
      | declaration bound parts =>
          exact isForest.exists_charts_declaration inductionHypothesis held shape
      | call callee arguments | forOf initializer iterable body | group parts | token =>
          have children : node.shape.children = node.shape.slots := by
            refine List.filter_eq_self.mpr fun child isSlot => ?_
            refine isForest.filled node (Tree.mem_nodes_of_node? held) child ?_
            rw [shape] at isSlot ⊢
            exact isSlot
          obtain ⟨stops, found, charts⟩ :=
            Stop.exists_charts_joinAll 0 fun child (isChild : child ∈ node.shape.children) => by
              obtain ⟨childNode, childHeld⟩ := isForest.node?_of_child held isChild
              exact inductionHypothesis child childNode childHeld
          rw [shape] at found
          refine ⟨_, by simp only [itinerary, held, shape, found]; rfl,
            (charts.enclosed node.kind ref).congr fun place => ?_⟩
          rw [inReach_of_nameless held (by simp [shape, NodeShape.name?]), children]
          simp only [shape, enters, descent, Nat.zero_add, Nat.add_sub_cancel, true_and]

/-! ## Declarations and uses -/

/-- A node that a walk visits is not the name of a declaration: that name it only looks at. -/
theorem not_isDeclaredName_of_visits
    (isForest : program.IsForest) (held : program.tree.node? ref = some node) {child : NodeRef}
    (visits : program.Visits node.shape child) :
    ¬ program.IsDeclaredName child := by
  rintro ⟨isName, declaration, other, parts, otherHeld, otherShape⟩
  obtain ⟨childNode, childHeld, _⟩ := Option.map_eq_some_iff.mp isName
  have present : child.isPresent = true := Tree.isPresent_of_node? childHeld
  have nameSlot : other.shape.slots[0]? = some child := by rw [otherShape]; rfl
  -- The child would have to be in the first slot of a declaration and nowhere else.
  have alone {position : Nat} (slot : node.shape.slots[position]? = some child) :
      node.shape = .declaration child parts ∧ position = 0 := by
    obtain ⟨rfl, rfl⟩ := isForest.unshared.slot_unique held otherHeld slot nameSlot present
    obtain rfl := Option.some.inj (held.symm.trans otherHeld)
    exact ⟨otherShape, rfl⟩
  cases shape : node.shape with
  | member object key =>
      rw [shape] at visits
      obtain rfl : child = object := visits
      have slot : node.shape.slots[0]? = some child := by rw [shape]; rfl
      have same := (alone slot).1
      rw [shape] at same
      contradiction
  | declaration bound ownParts =>
      rw [shape] at visits
      rcases visits.2 with ⟨rfl, isNoName⟩ | isPart
      · exact isNoName isName
      · obtain ⟨index, atIndex⟩ := List.getElem?_of_mem isPart
        have slot : node.shape.slots[index + 1]? = some child := by rw [shape]; exact atIndex
        exact absurd (alone slot).2 (Nat.succ_ne_zero index)
  | identifier name | call callee arguments | forOf initializer iterable body | group parts
  | token =>
      have isChild : child ∈ node.shape.children := by rw [shape] at visits ⊢; exact visits
      obtain ⟨index, slot⟩ := List.getElem?_of_mem (List.mem_of_mem_filter isChild)
      have same := (alone slot).1
      rw [shape] at same
      contradiction

end IsForest

/-- Names of declarations are lowered as such, and all others as uses. -/
def Fits (program : Program) : WalkEvent → Prop
  | .declared ref _ => program.IsDeclaredName ref
  | .used ref _ => ¬ program.IsDeclaredName ref
  | .opened .. | .closed => True

theorem IsForest.fits_of_mem_itinerary
    (isForest : program.IsForest) (isFile : program.tree.kind? root = some .sourceFile)
    {stops : List Stop}
    (found : program.itinerary levels root = .ok stops) :
    ∀ stop ∈ stops, program.Fits stop.event := by
  have rootIsNoName : ¬ program.IsDeclaredName root := by
    rintro ⟨isName, _⟩
    rw [isFile] at isName
    contradiction
  have declared (_ : Nat) (ref : NodeRef) (node : Node) (bound : NodeRef) (parts : List NodeRef)
      (name : SourceName) (_ : ¬ program.IsDeclaredName ref)
      (held : program.tree.node? ref = some node)
      (shape : node.shape = .declaration bound parts)
      (_ : program.isAmbientName bound = false)
      (isName : program.tree.kind? bound = some .identifier)
      (_ : program.expectName bound = .ok name) : program.Fits (.declared bound name) :=
    ⟨isName, ref, node, parts, held, shape⟩
  exact forall_mem_itinerary (fun _ _ => trivial) trivial
    (fun _ _ _ _ notDeclared _ _ => notDeclared) declared
    (fun _ _ _ _ _ held visits => isForest.not_isDeclaredName_of_visits held visits)
    rootIsNoName found

namespace IsTree

theorem charted (isTree : program.IsTree root) (levels : Nat) : program.Charted levels :=
  isTree.isForest.charted levels

theorem fits_of_mem_itinerary
    (isTree : program.IsTree root) {stops : List Stop}
    (found : program.itinerary levels root = .ok stops) :
    ∀ stop ∈ stops, program.Fits stop.event :=
  isTree.isForest.fits_of_mem_itinerary isTree.isFile found

end IsTree

end NameLowering.Program
