import NameLowering.Proofs.Tree.Orders
import NameLowering.Proofs.Walk.Balance
import NameLowering.Proofs.Walk.Ways

/-!
# Nesting of scopes

A walk opens one scope at every node within reach that stands for a scope, and closes it after all
that is below the node. The numbers of the scopes, which tell in what order they were opened, and
the order in which they were closed tell together which scope is around which.
-/

namespace NameLowering

namespace Program

/-! ## Nodes that stand for scopes -/

/-- The scope that a walk opens at a node, if it comes to the node and opens one. -/
def scopeAt? (program : Program) (ref : NodeRef) : Option ScopeKind :=
  match program.tree.node? ref with
  | none => none
  | some node =>
    match node.shape with
    | .identifier _ | .member .. => none
    | .declaration bound _ =>
      if program.isAmbientName bound then none else node.kind.scopeKind?
    | _ => node.kind.scopeKind?

/-- A walk from a node over a number of levels comes to another node and opens a scope there. -/
def OpensWithin (program : Program) (levels : Nat) (ref target : NodeRef) : Prop :=
  (program.scopeAt? target).isSome = true ∧
    ∃ path, ∃ depth < levels, program.Reaches ref path depth target

variable {program : Program} {ref target : NodeRef} {node : Node} {levels : Nat}

theorem isPresent_of_scopeAt? (opens : (program.scopeAt? target).isSome = true) :
    target.isPresent = true := by
  cases target with
  | absent => contradiction
  | node index => rfl

theorem not_opensWithin_zero : ¬ program.OpensWithin 0 ref target := by
  rintro ⟨_, _, depth, bound, _⟩
  omega

theorem not_opensWithin_absent : ¬ program.OpensWithin levels .absent target := by
  rintro ⟨opens, path, depth, _, reaches⟩
  cases reaches with
  | here => contradiction
  | inside held => contradiction

/-- A scope is opened at the node itself, or within reach of a slot that the walk enters. -/
theorem opensWithin_iff (held : program.tree.node? ref = some node) :
    program.OpensWithin (levels + 1) ref target ↔
      (target = ref ∧ (program.scopeAt? ref).isSome = true) ∨
        ∃ position child,
          node.shape.slots[position]? = some child ∧ program.enters node.shape position = true ∧
            program.OpensWithin (levels + 1 - program.descent node.shape position) child
              target := by
  constructor
  · rintro ⟨opens, path, depth, bound, reaches⟩
    cases reaches with
    | here =>
        exact Or.inl ⟨rfl, opens⟩
    | @inside _ child _ _ position rest below otherHeld slot entered reaches =>
        obtain rfl := Option.some.inj (held.symm.trans otherHeld)
        exact Or.inr ⟨position, child, slot, entered, opens, rest, below, by omega, reaches⟩
  · rintro (⟨rfl, opens⟩ | ⟨position, child, slot, entered, opens, path, depth, bound, reaches⟩)
    · exact ⟨opens, [], 0, Nat.succ_pos levels, .here target⟩
    · exact ⟨opens, _, _, by omega, .inside held slot entered reaches⟩

theorem below_of_reaches {path : List Nat} {depth : Nat} (present : target.isPresent = true)
    (reaches : program.Reaches ref path depth target) :
    program.tree.Below ref target := by
  induction reaches with
  | here ref =>
      exact Tree.Below.refl _ ref
  | inside held slot _ _ inductionHypothesis =>
      have below := inductionHypothesis present
      have isChild := NodeShape.mem_children_of_slot slot (below.isPresent_iff.mpr present)
      exact (Tree.Below.of_child held isChild).trans below

/-- Where scopes are opened is below where the walk starts. -/
theorem OpensWithin.below (opensWithin : program.OpensWithin levels ref target) :
    program.tree.Below ref target := by
  obtain ⟨opens, path, depth, _, reaches⟩ := opensWithin
  exact below_of_reaches (isPresent_of_scopeAt? opens) reaches

theorem opensWithin_identifier {name : SourceName} (held : program.tree.node? ref = some node)
    (shape : node.shape = .identifier name) :
    ¬ program.OpensWithin levels ref target := by
  cases levels with
  | zero =>
      exact not_opensWithin_zero
  | succ levels =>
      rw [opensWithin_iff held]
      simp [scopeAt?, held, shape, NodeShape.slots]

theorem opensWithin_member {object key : NodeRef} (held : program.tree.node? ref = some node)
    (shape : node.shape = .member object key) :
    program.OpensWithin (levels + 1) ref target ↔ program.OpensWithin levels object target := by
  rw [opensWithin_iff held]
  simp [scopeAt?, held, shape, NodeShape.slots, enters, descent]

theorem opensWithin_ambient {bound : NodeRef} {parts : List NodeRef}
    (held : program.tree.node? ref = some node) (shape : node.shape = .declaration bound parts)
    (ambient : program.isAmbientName bound = true) :
    ¬ program.OpensWithin (levels + 1) ref target := by
  rw [opensWithin_iff held]
  simp [scopeAt?, held, shape, enters, ambient]

/-- In a declaration, scopes are opened in the slot of the name, in the parts, or for the declaration
itself. -/
theorem opensWithin_declaration {bound : NodeRef} {parts : List NodeRef}
    (held : program.tree.node? ref = some node) (shape : node.shape = .declaration bound parts)
    (notAmbient : program.isAmbientName bound = false) :
    program.OpensWithin (levels + 1) ref target ↔
      program.OpensWithin (levels + 1 - program.descent node.shape 0) bound target ∨
        (∃ part ∈ parts, program.OpensWithin levels part target) ∨
        (target = ref ∧ (program.scopeAt? ref).isSome = true) := by
  have entered (position : Nat) : program.enters node.shape position = true := by
    simp [shape, enters, notAmbient]
  have descent (index : Nat) : program.descent node.shape (index + 1) = 1 := by
    simp [shape, descent]
  rw [opensWithin_iff held]
  constructor
  · rintro (own | ⟨position, child, slot, _, within⟩)
    · exact Or.inr (Or.inr own)
    · cases position with
      | zero =>
          rw [shape] at slot
          obtain rfl := Option.some.inj slot
          exact Or.inl within
      | succ index =>
          rw [descent] at within
          rw [shape] at slot
          exact Or.inr (Or.inl ⟨child, List.mem_of_getElem? slot, within⟩)
  · rintro (atName | ⟨part, isPart, within⟩ | own)
    · exact Or.inr ⟨0, bound, by rw [shape]; rfl, entered 0, atName⟩
    · obtain ⟨index, atIndex⟩ := List.getElem?_of_mem isPart
      have slot : node.shape.slots[index + 1]? = some part := by rw [shape]; exact atIndex
      exact Or.inr ⟨index + 1, part, slot, entered _, by rw [descent]; exact within⟩
    · exact Or.inl own

theorem scopeAt?_of_container (held : program.tree.node? ref = some node)
    (container : node.shape.isContainer = true) :
    program.scopeAt? ref = node.kind.scopeKind? := by
  simp only [scopeAt?, held]
  cases shape : node.shape with
  | identifier name | member object key | declaration bound parts =>
      rw [shape] at container
      contradiction
  | call callee arguments | forOf initializer iterable body | group parts | token =>
      rfl

/-- In any other node, scopes are opened in the children or for the node itself. -/
theorem opensWithin_container (held : program.tree.node? ref = some node)
    (container : node.shape.isContainer = true) :
    program.OpensWithin (levels + 1) ref target ↔
      (∃ child ∈ node.shape.children, program.OpensWithin levels child target) ∨
        (target = ref ∧ (program.scopeAt? ref).isSome = true) := by
  obtain ⟨entered, descent⟩ :
      (∀ position, program.enters node.shape position = true) ∧
        ∀ position, program.descent node.shape position = 1 := by
    cases shape : node.shape with
    | identifier name | member object key | declaration bound parts =>
        rw [shape] at container
        contradiction
    | call callee arguments | forOf initializer iterable body | group parts | token =>
        exact ⟨fun _ => rfl, fun _ => rfl⟩
  rw [opensWithin_iff held]
  constructor
  · rintro (own | ⟨position, child, slot, _, within⟩)
    · exact Or.inr own
    · rw [descent] at within
      have present : child.isPresent = true :=
        within.below.isPresent_iff.mpr (isPresent_of_scopeAt? within.1)
      exact Or.inl ⟨child, NodeShape.mem_children_of_slot slot present, within⟩
  · rintro (⟨child, isChild, within⟩ | own)
    · obtain ⟨position, slot⟩ := List.getElem?_of_mem (List.mem_of_mem_filter isChild)
      exact Or.inr ⟨position, child, slot, entered position, by rw [descent]; exact within⟩
    · exact Or.inl own

/-! ## Nested scopes -/

/-- Scopes that were closed one after the other, after a number of scopes had been opened before
them. -/
structure Nested (program : Program) (opened : Nat) (region : NodeRef → Prop)
    (scopes : List Scope) : Prop where
  nodes : ∀ ref, ref ∈ scopes.map Scope.node ↔ region ref
  kinds : ∀ scope ∈ scopes, program.scopeAt? scope.node = some scope.kind
  ids : (scopes.map Scope.id).Perm (List.range' (opened + 1) scopes.length)
  /-- Scopes are closed in post-order, and one that was opened earlier is around the other one. -/
  ordered : scopes.Pairwise fun first second =>
    program.tree.ClosesBefore first.node second.node ∧
      (second.id < first.id ↔ program.tree.Encloses second.node first.node)

namespace Nested

variable {opened : Nat} {region earlierRegion laterRegion sameRegion : NodeRef → Prop}
  {scopes earlier later : List Scope}

theorem congr (nested : program.Nested opened region scopes)
    (same : ∀ ref, region ref ↔ sameRegion ref) :
    program.Nested opened sameRegion scopes where
  nodes ref := (nested.nodes ref).trans (same ref)
  kinds := nested.kinds
  ids := nested.ids
  ordered := nested.ordered

theorem nil : program.Nested opened (fun _ => False) [] where
  nodes ref := by simp
  kinds scope member := absurd member List.not_mem_nil
  ids := List.Perm.refl _
  ordered := List.Pairwise.nil

theorem region_node (nested : program.Nested opened region scopes) {scope : Scope}
    (member : scope ∈ scopes) :
    region scope.node :=
  (nested.nodes scope.node).mp (List.mem_map_of_mem member)

theorem id_bounds (nested : program.Nested opened region scopes) {scope : Scope}
    (member : scope ∈ scopes) :
    opened < scope.id ∧ scope.id ≤ opened + scopes.length := by
  have isId := nested.ids.mem_iff.mp (List.mem_map_of_mem member)
  have bounds := List.mem_range'_1.mp isId
  omega

/-- Scopes that are closed before any of the others is opened. -/
theorem append (first : program.Nested opened earlierRegion earlier)
    (second : program.Nested (opened + earlier.length) laterRegion later)
    (apart : ∀ one other, earlierRegion one → laterRegion other →
      program.tree.ClosesBefore one other ∧ ¬ program.tree.Encloses other one) :
    program.Nested opened (fun ref => earlierRegion ref ∨ laterRegion ref)
      (earlier ++ later) where
  nodes ref := by
    rw [List.map_append, List.mem_append, first.nodes, second.nodes]
  kinds scope member := by
    rcases List.mem_append.mp member with inEarlier | inLater
    · exact first.kinds scope inEarlier
    · exact second.kinds scope inLater
  ids := by
    have range :
        List.range' (opened + 1) (earlier ++ later).length =
          List.range' (opened + 1) earlier.length ++
            List.range' (opened + earlier.length + 1) later.length := by
      rw [List.length_append, ← List.range'_append_1, Nat.add_right_comm]
    rw [List.map_append, range]
    exact first.ids.append second.ids
  ordered := by
    refine List.pairwise_append.mpr ⟨first.ordered, second.ordered, ?_⟩
    intro one isOne other isOther
    obtain ⟨closesBefore, notAround⟩ := apart _ _ (first.region_node isOne) (second.region_node isOther)
    refine ⟨closesBefore, ?_⟩
    have oneBounds := first.id_bounds isOne
    have otherBounds := second.id_bounds isOther
    constructor
    · intro openedEarlier
      omega
    · intro around
      exact absurd around notAround

/-- Scopes that are all inside another one. -/
theorem enclosed {own : Scope} (inside : program.Nested (opened + 1) region scopes)
    (id : own.id = opened + 1) (kind : program.scopeAt? own.node = some own.kind)
    (around : ∀ ref, region ref → program.tree.Encloses own.node ref ∧ ref ≠ own.node) :
    program.Nested opened (fun ref => region ref ∨ ref = own.node) (scopes ++ [own]) where
  nodes ref := by
    rw [List.map_append, List.mem_append, inside.nodes]
    simp
  kinds scope member := by
    rcases List.mem_append.mp member with within | isOwn
    · exact inside.kinds scope within
    · obtain rfl := List.mem_singleton.mp isOwn
      exact kind
  ids := by
    have range :
        List.range' (opened + 1) (scopes ++ [own]).length =
          (opened + 1) :: List.range' (opened + 1 + 1) scopes.length := by
      rw [List.length_append, List.length_singleton, List.range'_succ]
    rw [List.map_append, List.map_singleton, id, range]
    exact (List.perm_append_singleton _ _).trans (inside.ids.cons _)
  ordered := by
    refine List.pairwise_append.mpr ⟨inside.ordered, List.pairwise_singleton _ _, ?_⟩
    intro scope within other isOwn
    obtain rfl := List.mem_singleton.mp isOwn
    obtain ⟨encloses, different⟩ := around _ (inside.region_node within)
    have bounds := inside.id_bounds within
    refine ⟨Or.inl ⟨encloses.1, different⟩, ?_⟩
    constructor
    · exact fun _ => encloses
    · intro _
      omega

end Nested

end Program

/-! ## Runs that nest scopes -/

namespace Setting

/-- A run closes nested scopes, and has opened as many. -/
def Nests (setting : Setting) (stops : List Stop) (region : NodeRef → Prop) : Prop :=
  ∀ walk : Walk, ∃ scopes : List Scope,
    (Walk.run setting stops walk).closed.toList = walk.closed.toList ++ scopes ∧
      (Walk.run setting stops walk).state.scopes.opened =
        walk.state.scopes.opened + scopes.length ∧
      setting.program.Nested walk.state.scopes.opened region scopes

variable {setting : Setting} {stops earlier later : List Stop}
  {region earlierRegion laterRegion sameRegion : NodeRef → Prop}

namespace Nests

theorem congr (nests : setting.Nests stops region) (same : ∀ ref, region ref ↔ sameRegion ref) :
    setting.Nests stops sameRegion := by
  intro walk
  obtain ⟨scopes, closed, opened, nested⟩ := nests walk
  exact ⟨scopes, closed, opened, nested.congr same⟩

theorem nil : setting.Nests [] fun _ => False :=
  fun _ => ⟨[], (List.append_nil _).symm, rfl, .nil⟩

theorem name {stop : Stop} {ref : NodeRef} (source : stop.event.source? = some ref) :
    setting.Nests [stop] fun _ => False := by
  intro walk
  refine ⟨[], ?_, Walk.step_opened walk source, .nil⟩
  rw [List.append_nil]
  exact congrArg Array.toList (Walk.step_closed walk source)

theorem under (position : Nat) (nests : setting.Nests stops region) :
    setting.Nests (stops.map (Stop.under position)) region := by
  intro walk
  rw [Walk.run_under]
  exact nests walk

theorem append (first : setting.Nests earlier earlierRegion)
    (second : setting.Nests later laterRegion)
    (apart : ∀ one other, earlierRegion one → laterRegion other →
      setting.program.tree.ClosesBefore one other ∧
        ¬ setting.program.tree.Encloses other one) :
    setting.Nests (earlier ++ later) fun ref => earlierRegion ref ∨ laterRegion ref := by
  intro walk
  obtain ⟨firstScopes, firstClosed, firstOpened, firstNested⟩ := first walk
  obtain ⟨secondScopes, secondClosed, secondOpened, secondNested⟩ :=
    second (Walk.run setting earlier walk)
  rw [firstOpened] at secondNested
  refine ⟨firstScopes ++ secondScopes, ?_, ?_, firstNested.append secondNested apart⟩
  · rw [Walk.run_append, secondClosed, firstClosed, List.append_assoc]
  · rw [Walk.run_append, secondOpened, firstOpened, List.length_append, Nat.add_assoc]

theorem enclosed {opener : NodeRef} {kind : NodeKind} (nests : setting.Nests stops region)
    (balanced : Stop.Balanced stops)
    (opens : setting.program.scopeAt? opener = kind.scopeKind?)
    (around : ∀ ref, region ref → setting.program.tree.Encloses opener ref ∧ ref ≠ opener) :
    setting.Nests (Stop.enclosed kind opener stops) fun ref =>
      region ref ∨ (ref = opener ∧ (setting.program.scopeAt? opener).isSome = true) := by
  cases scope : kind.scopeKind? with
  | none =>
      rw [scope] at opens
      simp only [Stop.enclosed, scope]
      exact nests.congr fun ref => by simp [opens]
  | some scopeKind =>
      rw [scope] at opens
      intro walk
      obtain ⟨scopes, closed, opened, nested⟩ := nests (walk.enter scopeKind opener)
      have isOpen :
          (Walk.run setting stops (walk.enter scopeKind opener)).state.scopes.stack =
            { kind := scopeKind, id := walk.state.scopes.opened + 1, node := opener
              start := walk.state.scopes.log.size } :: walk.state.scopes.stack :=
        Walk.stack_run balanced (walk.enter scopeKind opener)
      obtain ⟨own, ownClosed, ownKind, ownId, ownNode⟩ :
          ∃ own : Scope, (Walk.run setting stops (walk.enter scopeKind opener)).leave.closed =
              (Walk.run setting stops (walk.enter scopeKind opener)).closed.push own ∧
            own.kind = scopeKind ∧ own.id = walk.state.scopes.opened + 1 ∧ own.node = opener :=
        ⟨_, Walk.leave_closed isOpen, rfl, rfl, rfl⟩
      have ownOpens : setting.program.scopeAt? own.node = some own.kind := by
        rw [ownNode, ownKind, opens]
      rw [← ownNode] at around
      refine ⟨scopes ++ [own], ?_, ?_, (nested.enclosed ownId ownOpens around).congr fun ref => ?_⟩
      · rw [Walk.run_enclosed_of_some scope, ownClosed, Array.toList_push, closed,
          List.append_assoc]
        rfl
      · rw [Walk.run_enclosed_of_some scope, Walk.leave_state, List.length_append,
          List.length_singleton]
        change (Walk.run setting stops _).state.scopes.opened = _
        rw [opened]
        simp only [Walk.enter, OpenScopes.enter]
        omega
      · rw [ownNode, opens]
        simp

theorem joinOne
    {stopsBelow : NodeRef → Except LoweringError (List Stop)} {position : Nat} {ref : NodeRef}
    (nests : ∀ stops, stopsBelow ref = .ok stops → setting.Nests stops region)
    (joined : Stop.joinOne stopsBelow position ref = .ok stops) :
    setting.Nests stops region := by
  obtain ⟨below, found, rfl⟩ := Stop.joinOne_eq_ok_iff.mp joined
  exact (nests below found).under position

/-- Runs below nodes of a list, each of which is to the left of those after it. -/
theorem joinAll
    {stopsBelow : NodeRef → Except LoweringError (List Stop)}
    {regionOf : NodeRef → NodeRef → Prop} {position : Nat} {refs : List NodeRef}
    (nests : ∀ ref ∈ refs, ∀ stops, stopsBelow ref = .ok stops →
      setting.Nests stops (regionOf ref))
    (apart : refs.Pairwise fun first second => ∀ one other, regionOf first one →
      regionOf second other → setting.program.tree.ClosesBefore one other ∧
        ¬ setting.program.tree.Encloses other one)
    (joined : Stop.joinAll stopsBelow position refs = .ok stops) :
    setting.Nests stops fun node => ∃ ref ∈ refs, regionOf ref node :=
  Stop.joinAll_regions nil (fun position _ _ => under position) (fun _ _ _ _ => append) nests apart
    joined

end Nests

/-! ## The itinerary of a tree -/

section Itineraries

variable {levels : Nat} {ref : NodeRef} {node : Node}

/-- What is opened in the slots of a node, the one after the other, is closed in this order. -/
theorem closesBefore_of_slots
    (unshared : setting.program.tree.Unshared) (acyclic : setting.program.tree.Acyclic)
    (held : setting.program.tree.node? ref = some node) {first second one other : NodeRef}
    {firstLevels secondLevels : Nat} (inOrder : [first, second].Sublist node.shape.slots)
    (inFirst : setting.program.OpensWithin firstLevels first one)
    (inSecond : setting.program.OpensWithin secondLevels second other) :
    setting.program.tree.ClosesBefore one other ∧
      ¬ setting.program.tree.Encloses other one := by
  have firstPresent : first.isPresent = true :=
    inFirst.below.isPresent_iff.mpr (Program.isPresent_of_scopeAt? inFirst.1)
  have secondPresent : second.isPresent = true :=
    inSecond.below.isPresent_iff.mpr (Program.isPresent_of_scopeAt? inSecond.1)
  have children : [first, second].Sublist node.shape.children := by
    have filtered := inOrder.filter NodeRef.isPresent
    rwa [List.filter_eq_self.mpr (by simp [firstPresent, secondPresent])] at filtered
  have leftOf : setting.program.tree.LeftOf one other :=
    ⟨ref, node, first, second, held, children, inFirst.below, inSecond.below⟩
  exact ⟨Or.inr leftOf, fun encloses => (leftOf.not_below unshared acyclic).2 encloses.1⟩

theorem nests_nameStops
    {bound : NodeRef} (parts : List NodeRef)
    (nests : ∀ stops, setting.program.itinerary levels bound = .ok stops →
      setting.Nests stops (setting.program.OpensWithin levels bound))
    (named : setting.program.NameStops levels bound stops) :
    setting.Nests stops
      (setting.program.OpensWithin
        (levels + 1 - setting.program.descent (.declaration bound parts) 0) bound) := by
  cases named with
  | identifier isName held shape =>
      refine (Nests.name rfl).congr fun target => ?_
      simp [Program.opensWithin_identifier held shape]
  | other noName present joined =>
      have oneLevel :
          levels + 1 - setting.program.descent (.declaration bound parts) 0 = levels := by
        simp [Program.descent, noName]
      rw [oneLevel]
      exact Nests.joinOne nests joined
  | absent =>
      exact Nests.nil.congr fun target => by simp [Program.not_opensWithin_absent]

/-- A node opens its scope around what is opened in some of its slots, none of which is the one for
a name that it declares. -/
theorem nests_enclosed
    (unshared : setting.program.tree.Unshared) (acyclic : setting.program.tree.Acyclic)
    (nests : ∀ child stops, setting.program.itinerary levels child = .ok stops →
      setting.Nests stops (setting.program.OpensWithin levels child))
    (held : setting.program.tree.node? ref = some node)
    (opens : setting.program.scopeAt? ref = node.kind.scopeKind?)
    {position : Nat} {refs : List NodeRef} (slots : refs.Sublist node.shape.slots)
    (unnamed : ∀ bound parts, node.shape = .declaration bound parts →
      ∀ child ∈ refs, child.isPresent = true → child ≠ bound)
    (joined : Stop.joinAll (setting.program.itinerary levels) position refs = .ok stops) :
    setting.Nests (Stop.enclosed node.kind ref stops) fun target =>
      (∃ child ∈ refs, setting.program.OpensWithin levels child target) ∨
        (target = ref ∧ (setting.program.scopeAt? ref).isSome = true) := by
  have balanced : Stop.Balanced stops :=
    Stop.balanced_joinAll (fun _ _ => Program.balanced_itinerary) joined
  have apart :
      refs.Pairwise fun first second => ∀ one other,
        setting.program.OpensWithin levels first one →
          setting.program.OpensWithin levels second other →
            setting.program.tree.ClosesBefore one other ∧
              ¬ setting.program.tree.Encloses other one := by
    refine List.pairwise_iff_forall_sublist.mpr fun inOrder one other inFirst inSecond => ?_
    exact closesBefore_of_slots unshared acyclic held (inOrder.trans slots) inFirst inSecond
  refine (Nests.joinAll (fun child _ => nests child) apart joined).enclosed balanced opens ?_
  rintro target ⟨child, member, within⟩
  have present : child.isPresent = true :=
    within.below.isPresent_iff.mpr (Program.isPresent_of_scopeAt? within.1)
  have isChild : child ∈ node.shape.children :=
    List.mem_filter.mpr ⟨slots.subset member, present⟩
  constructor
  · exact unshared.encloses_of_child acyclic held isChild within.below
      fun bound parts shape => unnamed bound parts shape child member present
  · rintro rfl
    exact acyclic target node child held isChild within.below

theorem nests_declaration
    (unshared : setting.program.tree.Unshared) (acyclic : setting.program.tree.Acyclic)
    (nests : ∀ child stops, setting.program.itinerary levels child = .ok stops →
      setting.Nests stops (setting.program.OpensWithin levels child))
    (held : setting.program.tree.node? ref = some node) {bound : NodeRef} {parts : List NodeRef}
    (shape : node.shape = .declaration bound parts)
    (notAmbient : setting.program.isAmbientName bound = false) {atName inside : List Stop}
    (named : setting.program.NameStops levels bound atName)
    (joined : Stop.joinAll (setting.program.itinerary levels) 1 parts = .ok inside) :
    setting.Nests (atName ++ Stop.enclosed node.kind ref inside)
      (setting.program.OpensWithin (levels + 1) ref) := by
  have slots : node.shape.slots = bound :: parts := by
    rw [shape]
    rfl
  have children : (bound :: parts).filter NodeRef.isPresent = node.shape.children := by
    rw [NodeShape.children, slots]
  have opens : setting.program.scopeAt? ref = node.kind.scopeKind? := by
    simp [Program.scopeAt?, held, shape, notAmbient]
  have unnamed (other : NodeRef) (otherParts : List NodeRef)
      (otherShape : node.shape = .declaration other otherParts) (part : NodeRef)
      (isPart : part ∈ parts) (present : part.isPresent = true) : part ≠ other := by
    obtain ⟨rfl, _⟩ := NodeShape.declaration.inj (shape.symm.trans otherShape)
    rintro rfl
    have nodup := unshared.children_nodup held
    rw [← children, List.filter_cons_of_pos present] at nodup
    exact (List.nodup_cons.mp nodup).1 (List.mem_filter.mpr ⟨isPart, present⟩)
  have nameNests := nests_nameStops parts (nests bound) named
  have insideNests :=
    nests_enclosed unshared acyclic nests held opens
      (by rw [slots]; exact List.sublist_cons_self bound parts) unnamed joined
  refine (nameNests.append insideNests ?_).congr fun target => ?_
  · rintro one other inName (⟨part, isPart, inPart⟩ | ⟨rfl, _⟩)
    · have inOrder : [bound, part].Sublist node.shape.slots := by
        rw [slots]
        exact (List.singleton_sublist.mpr isPart).cons_cons bound
      exact closesBefore_of_slots unshared acyclic held inOrder inName inPart
    · -- The declaration itself is opened and closed after what is in its name.
      have present : bound.isPresent = true :=
        inName.below.isPresent_iff.mpr (Program.isPresent_of_scopeAt? inName.1)
      have isChild : bound ∈ node.shape.children := by
        rw [← children]
        exact List.mem_filter.mpr ⟨List.mem_cons_self, present⟩
      have isInName : setting.program.tree.InName other one :=
        ⟨node, bound, parts, held, shape, isChild, inName.below⟩
      exact ⟨Or.inl ⟨isInName.below, isInName.ne acyclic⟩, isInName.not_encloses⟩
  · rw [Program.opensWithin_declaration held shape notAmbient, shape]

/-- What a walk from a node closes are the scopes within reach, nested as their nodes are. -/
theorem nests_itinerary
    (unshared : setting.program.tree.Unshared) (acyclic : setting.program.tree.Acyclic)
    (levels : Nat) (ref : NodeRef) (stops : List Stop)
    (found : setting.program.itinerary levels ref = .ok stops) :
    setting.Nests stops (setting.program.OpensWithin levels ref) := by
  induction levels generalizing ref stops with
  | zero =>
      obtain rfl := Except.ok.inj found
      exact Nests.nil.congr fun target => by simp [Program.not_opensWithin_zero]
  | succ levels inductionHypothesis =>
      cases Program.stopsFrom_of_itinerary found with
      | identifier held shape =>
          exact (Nests.name rfl).congr fun target => by
            simp [Program.opensWithin_identifier held shape]
      | member held shape joined =>
          exact (Nests.joinOne (inductionHypothesis _) joined).congr fun target =>
            (Program.opensWithin_member held shape).symm
      | ambient held shape ambient =>
          exact Nests.nil.congr fun target => by
            simp [Program.opensWithin_ambient held shape ambient]
      | declaration held shape notAmbient named joined =>
          exact nests_declaration unshared acyclic inductionHypothesis held shape notAmbient named
            joined
      | @container node _ held container joined =>
          have unnamed (bound : NodeRef) (parts : List NodeRef)
              (shape : node.shape = .declaration bound parts) (child : NodeRef)
              (_ : child ∈ node.shape.children) (_ : child.isPresent = true) : child ≠ bound := by
            rw [shape] at container
            contradiction
          exact (nests_enclosed unshared acyclic inductionHypothesis held
            (Program.scopeAt?_of_container held container) List.filter_sublist unnamed
            joined).congr fun target => (Program.opensWithin_container held container).symm

end Itineraries

end Setting

end NameLowering
