import NameLowering.Lowering.Walk
import NameLowering.Proofs.Lowering.Effects

/-!
# The itinerary of a walk

Which names a walk comes to, and in which order, depends on the program alone. The itinerary of a
walk lists its stops: the names that it lowers, and the scopes that it opens and closes.
-/

namespace NameLowering

/-! ## Stops -/

/-- What a walk does in one place. -/
inductive WalkEvent where
  | declared (ref : NodeRef) (name : SourceName)
  | used (ref : NodeRef) (name : SourceName)
  | opened (kind : ScopeKind) (ref : NodeRef)
  | closed
deriving DecidableEq, Repr

def WalkEvent.source? : WalkEvent → Option NodeRef
  | declared ref _ | used ref _ => some ref
  | opened .. | closed => none

/-- Something that a walk does, and where: the way there, as the places of the children that it
leads through. -/
structure Stop where
  path : List Nat := []
  event : WalkEvent
deriving DecidableEq, Repr

namespace Stop

/-- A stop below the child at a position, as seen from the parent. -/
def under (position : Nat) (stop : Stop) : Stop :=
  { stop with path := position :: stop.path }

/-- The stops inside the scope that nodes of a kind open, if they open one. -/
def enclosed (kind : NodeKind) (ref : NodeRef) (stops : List Stop) : List Stop :=
  match kind.scopeKind? with
  | none => stops
  | some scope => { event := .opened scope ref } :: stops ++ [{ event := .closed }]

def joinOne (stopsBelow : NodeRef → Except LoweringError (List Stop)) (position : Nat)
    (ref : NodeRef) : Except LoweringError (List Stop) :=
  (stopsBelow ref).map fun stops => stops.map (under position)

/-- The stops below several children, the first of which is at a given position. -/
def joinAll (stopsBelow : NodeRef → Except LoweringError (List Stop)) :
    (position : Nat) → List NodeRef → Except LoweringError (List Stop)
  | _, [] => .ok []
  | position, ref :: rest => do
    let first ← joinOne stopsBelow position ref
    let later ← joinAll stopsBelow (position + 1) rest
    return first ++ later

end Stop

def Program.nameStops (program : Program)
    (stopsBelow : NodeRef → Except LoweringError (List Stop)) (bound : NodeRef) :
    Except LoweringError (List Stop) :=
  if program.tree.kind? bound = some .identifier then
    (program.expectName bound).map fun name => [{ path := [0], event := .declared bound name }]
  else if bound.isPresent then
    Stop.joinOne stopsBelow 0 bound
  else
    .ok []

/-- The stops of a walk from a node down to a number of levels. -/
def Program.itinerary (program : Program) :
    (levels : Nat) → NodeRef → Except LoweringError (List Stop)
  | 0, _ => .ok []
  | levels + 1, ref =>
    match program.tree.node? ref with
    | none => .error (.missingNode ref)
    | some node =>
      match node.shape with
      | .identifier name => .ok [{ event := .used ref name }]
      | .member object _ => Stop.joinOne (program.itinerary levels) 0 object
      | .declaration bound parts =>
        if program.isAmbientName bound then
          .ok []
        else do
          let atName ← program.nameStops (program.itinerary levels) bound
          let inside ←
            (Stop.joinAll (program.itinerary levels) 1 parts).map (Stop.enclosed node.kind ref)
          return atName ++ inside
      | shape =>
        (Stop.joinAll (program.itinerary levels) 0 shape.children).map
          (Stop.enclosed node.kind ref)

/-! ## Events on an itinerary -/

namespace Stop

variable {stopsBelow : NodeRef → Except LoweringError (List Stop)} {position : Nat}
  {stops : List Stop} {stop : Stop} {property : WalkEvent → Prop}

theorem mem_enclosed_iff {kind : NodeKind} {ref : NodeRef} :
    stop ∈ enclosed kind ref stops ↔
      stop ∈ stops ∨
        ∃ scope, kind.scopeKind? = some scope ∧
          (stop = { event := .opened scope ref } ∨ stop = { event := .closed }) := by
  unfold enclosed
  cases kind.scopeKind? with
  | none =>
      simp
  | some scope =>
      simp only [List.cons_append, List.mem_cons, List.mem_append, List.not_mem_nil, or_false,
        Option.some.injEq, exists_eq_left']
      exact or_left_comm

theorem joinOne_eq_ok_iff {ref : NodeRef} :
    joinOne stopsBelow position ref = .ok stops ↔
      ∃ below, stopsBelow ref = .ok below ∧ stops = below.map (under position) := by
  unfold joinOne
  cases stopsBelow ref with
  | error error => simp [Except.map]
  | ok below => simp [Except.map, eq_comm]

theorem append_eq_ok_iff {earlier later : Except LoweringError (List Stop)} :
    (do
        let earlier ← earlier
        let later ← later
        return earlier ++ later) = Except.ok stops ↔
      ∃ first rest, earlier = .ok first ∧ later = .ok rest ∧ stops = first ++ rest := by
  cases earlier with
  | error error => simp [bind, Except.bind]
  | ok first =>
      cases later with
      | error error => simp [bind, Except.bind]
      | ok rest => simp [bind, Except.bind, pure, Except.pure, eq_comm]

theorem forall_mem_joinOne {ref : NodeRef}
    (below : ∀ stops, stopsBelow ref = .ok stops → ∀ stop ∈ stops, property stop.event)
    (joined : joinOne stopsBelow position ref = .ok stops) :
    ∀ stop ∈ stops, property stop.event := by
  obtain ⟨inner, found, rfl⟩ := joinOne_eq_ok_iff.mp joined
  intro stop member
  obtain ⟨innerStop, innerMember, rfl⟩ := List.mem_map.mp member
  exact below inner found innerStop innerMember

/-- What holds of all events below single children holds of those below several. -/
theorem forall_mem_joinAll {refs : List NodeRef}
    (below : ∀ ref ∈ refs, ∀ stops, stopsBelow ref = .ok stops →
      ∀ stop ∈ stops, property stop.event)
    (joined : joinAll stopsBelow position refs = .ok stops) :
    ∀ stop ∈ stops, property stop.event := by
  induction refs generalizing position stops with
  | nil =>
      obtain rfl := Except.ok.inj joined
      simp
  | cons ref rest inductionHypothesis =>
      obtain ⟨first, later, firstFound, laterFound, rfl⟩ := append_eq_ok_iff.mp joined
      intro stop member
      rcases List.mem_append.mp member with firstMember | laterMember
      · exact forall_mem_joinOne (below ref List.mem_cons_self) firstFound stop firstMember
      · exact inductionHypothesis
          (fun other isOther => below other (List.mem_cons_of_mem _ isOther)) laterFound stop
          laterMember

/-- A property of stops and of the region that they are about, which is kept when stops are put
below a child and when stops about regions apart are joined, holds of the stops below several
children, if it holds below each of them and their regions are apart. -/
theorem joinAll_regions
    {holds : List Stop → (NodeRef → Prop) → Prop} {apart : NodeRef → NodeRef → Prop}
    {regionOf : NodeRef → NodeRef → Prop} {refs : List NodeRef}
    (nil : holds [] fun _ => False)
    (under : ∀ position stops region, holds stops region →
      holds (stops.map (Stop.under position)) region)
    (append : ∀ earlier later earlierRegion laterRegion,
      holds earlier earlierRegion → holds later laterRegion →
        (∀ one other, earlierRegion one → laterRegion other → apart one other) →
          holds (earlier ++ later) fun ref => earlierRegion ref ∨ laterRegion ref)
    (below : ∀ ref ∈ refs, ∀ stops, stopsBelow ref = .ok stops → holds stops (regionOf ref))
    (separate : refs.Pairwise fun first second => ∀ one other, regionOf first one →
      regionOf second other → apart one other)
    (joined : joinAll stopsBelow position refs = .ok stops) :
    holds stops fun node => ∃ ref ∈ refs, regionOf ref node := by
  induction refs generalizing position stops with
  | nil =>
      obtain rfl := Except.ok.inj joined
      simpa using nil
  | cons ref rest inductionHypothesis =>
      obtain ⟨first, later, firstFound, laterFound, rfl⟩ := append_eq_ok_iff.mp joined
      obtain ⟨inner, innerFound, rfl⟩ := joinOne_eq_ok_iff.mp firstFound
      obtain ⟨fromFirst, amongRest⟩ := List.pairwise_cons.mp separate
      have atFirst := under position inner _ (below ref List.mem_cons_self inner innerFound)
      have atRest :=
        inductionHypothesis (fun other member => below other (List.mem_cons_of_mem _ member))
          amongRest laterFound
      have firstApart (one other : NodeRef) (inFirst : regionOf ref one)
          (inRest : ∃ second ∈ rest, regionOf second other) : apart one other := by
        obtain ⟨second, member, inSecond⟩ := inRest
        exact fromFirst second member one other inFirst inSecond
      have atAll := append _ _ _ _ atFirst atRest firstApart
      simpa only [List.mem_cons, exists_eq_or_imp] using atAll

theorem forall_mem_enclosed
    {kind : NodeKind} {ref : NodeRef}
    (opened : ∀ kind ref, property (.opened kind ref)) (closed : property .closed)
    (inside : ∀ stop ∈ stops, property stop.event) :
    ∀ stop ∈ enclosed kind ref stops, property stop.event := by
  intro stop member
  rcases mem_enclosed_iff.mp member with insideMember | ⟨scope, _, rfl | rfl⟩
  · exact inside stop insideMember
  · exact opened scope ref
  · exact closed

end Stop

/-! ## Forms of an itinerary -/

/-- A node of no special sort, of which a walk visits all children. -/
def NodeShape.isContainer : NodeShape → Bool
  | identifier _ | member .. | declaration .. => false
  | call .. | forOf .. | group _ | token => true

/-- The stops at the name of a declaration. -/
inductive Program.NameStops (program : Program) (levels : Nat) : NodeRef → List Stop → Prop
  | identifier
      {bound : NodeRef} {node : Node} {name : SourceName}
      (isName : program.tree.kind? bound = some .identifier)
      (held : program.tree.node? bound = some node) (shape : node.shape = .identifier name) :
      NameStops program levels bound [{ path := [0], event := .declared bound name }]
  | other
      {bound : NodeRef} {stops : List Stop}
      (noName : program.tree.kind? bound ≠ some .identifier) (present : bound.isPresent = true)
      (joined : Stop.joinOne (program.itinerary levels) 0 bound = .ok stops) :
      NameStops program levels bound stops
  | absent : NameStops program levels .absent []

/-- The stops of a walk from a node, with some levels left below it. -/
inductive Program.StopsFrom (program : Program) (levels : Nat) (ref : NodeRef) : List Stop → Prop
  | identifier
      {node : Node} {name : SourceName}
      (held : program.tree.node? ref = some node) (shape : node.shape = .identifier name) :
      StopsFrom program levels ref [{ event := .used ref name }]
  | member
      {node : Node} {object key : NodeRef} {stops : List Stop}
      (held : program.tree.node? ref = some node) (shape : node.shape = .member object key)
      (joined : Stop.joinOne (program.itinerary levels) 0 object = .ok stops) :
      StopsFrom program levels ref stops
  | ambient
      {node : Node} {bound : NodeRef} {parts : List NodeRef}
      (held : program.tree.node? ref = some node) (shape : node.shape = .declaration bound parts)
      (ambient : program.isAmbientName bound = true) :
      StopsFrom program levels ref []
  | declaration
      {node : Node} {bound : NodeRef} {parts : List NodeRef}
      {atName inside : List Stop}
      (held : program.tree.node? ref = some node) (shape : node.shape = .declaration bound parts)
      (notAmbient : program.isAmbientName bound = false)
      (named : program.NameStops levels bound atName)
      (joined : Stop.joinAll (program.itinerary levels) 1 parts = .ok inside) :
      StopsFrom program levels ref (atName ++ Stop.enclosed node.kind ref inside)
  | container
      {node : Node} {inside : List Stop}
      (held : program.tree.node? ref = some node) (container : node.shape.isContainer = true)
      (joined : Stop.joinAll (program.itinerary levels) 0 node.shape.children = .ok inside) :
      StopsFrom program levels ref (Stop.enclosed node.kind ref inside)

section

variable {program : Program} {levels : Nat} {ref bound : NodeRef} {stops : List Stop}

theorem Program.nameStops_of_eq_ok
    (found : program.nameStops (program.itinerary levels) bound = .ok stops) :
    program.NameStops levels bound stops := by
  unfold nameStops at found
  by_cases isName : program.tree.kind? bound = some .identifier
  · rw [if_pos isName] at found
    cases expected : program.expectName bound with
    | error error =>
        rw [expected] at found
        contradiction
    | ok name =>
        rw [expected] at found
        obtain rfl := Except.ok.inj found
        obtain ⟨node, held, named⟩ :=
          Option.bind_eq_some_iff.mp (expectName_eq_ok_iff.mp expected)
        have shape : node.shape = .identifier name := by
          cases nodeShape : node.shape <;> simp_all [NodeShape.name?]
        exact .identifier isName held shape
  · rw [if_neg isName] at found
    cases bound with
    | absent =>
        obtain rfl := Except.ok.inj found
        exact .absent
    | node index =>
        exact .other isName rfl found

theorem Stop.exists_of_map_enclosed_eq_ok
    {kind : NodeKind} {joined : Except LoweringError (List Stop)}
    (found : joined.map (enclosed kind ref) = .ok stops) :
    ∃ inside, joined = .ok inside ∧ stops = enclosed kind ref inside := by
  cases joined with
  | error error =>
      contradiction
  | ok inside =>
      exact ⟨inside, rfl, (Except.ok.inj found).symm⟩

/-- An itinerary with a level left has one of the five forms. -/
theorem Program.stopsFrom_of_itinerary (found : program.itinerary (levels + 1) ref = .ok stops) :
    program.StopsFrom levels ref stops := by
  cases held : program.tree.node? ref with
  | none =>
      simp [itinerary, held] at found
  | some node =>
      cases shape : node.shape with
      | identifier name =>
          simp only [itinerary, held, shape] at found
          obtain rfl := Except.ok.inj found
          exact .identifier held shape
      | member object key =>
          simp only [itinerary, held, shape] at found
          exact .member held shape found
      | declaration bound parts =>
          simp only [itinerary, held, shape] at found
          cases ambient : program.isAmbientName bound with
          | true =>
              rw [ambient, if_pos rfl] at found
              obtain rfl := Except.ok.inj found
              exact .ambient held shape ambient
          | false =>
              rw [ambient, if_neg Bool.false_ne_true] at found
              obtain ⟨atName, rest, nameFound, insideFound, rfl⟩ := Stop.append_eq_ok_iff.mp found
              obtain ⟨inside, joined, rfl⟩ := Stop.exists_of_map_enclosed_eq_ok insideFound
              exact .declaration held shape ambient (nameStops_of_eq_ok nameFound) joined
      | call callee arguments | forOf initializer iterable body | group parts | token =>
          simp only [itinerary, held, shape] at found
          obtain ⟨inside, joined, rfl⟩ := Stop.exists_of_map_enclosed_eq_ok found
          exact .container held (by rw [shape]; rfl) (by rw [shape]; exact joined)

end

/-! ## Events of an itinerary -/

/-- A walk goes on from a node to a child. -/
def Program.Visits (program : Program) (shape : NodeShape) (child : NodeRef) : Prop :=
  match shape with
  | .member object _ => child = object
  | .declaration bound parts =>
    program.isAmbientName bound = false ∧
      ((child = bound ∧ program.tree.kind? bound ≠ some .identifier) ∨ child ∈ parts)
  | shape => child ∈ shape.children

theorem Program.mem_slots_of_visits
    {program : Program} {shape : NodeShape} {child : NodeRef}
    (visits : program.Visits shape child) :
    child ∈ shape.slots := by
  cases shape with
  | member object key =>
      obtain rfl : child = object := visits
      exact List.mem_cons_self
  | declaration bound parts =>
      rcases visits.2 with ⟨rfl, _⟩ | isPart
      · exact List.mem_cons_self
      · exact List.mem_cons_of_mem _ isPart
  | identifier name | call callee arguments | forOf initializer iterable body | group parts
  | token =>
      exact List.mem_of_mem_filter visits

theorem Program.visits_of_mem_children
    {program : Program} {shape : NodeShape} {child : NodeRef} (container : shape.isContainer = true)
    (isChild : child ∈ shape.children) :
    program.Visits shape child := by
  cases shape with
  | identifier name | member object key | declaration bound parts => contradiction
  | call callee arguments | forOf initializer iterable body | group parts | token => exact isChild

/-- What holds of the events at the nodes that a walk visits, with the levels that are left to it
there, holds of every event. -/
theorem Program.forall_mem_itinerary
    {program : Program} {property : WalkEvent → Prop} {visited : Nat → NodeRef → Prop}
    (opened : ∀ kind ref, property (.opened kind ref)) (closed : property .closed)
    (used : ∀ levels ref node name, visited (levels + 1) ref →
      program.tree.node? ref = some node → node.shape = .identifier name →
      property (.used ref name))
    (declared : ∀ levels ref node bound parts name, visited (levels + 1) ref →
      program.tree.node? ref = some node → node.shape = .declaration bound parts →
      program.isAmbientName bound = false → program.tree.kind? bound = some .identifier →
      program.expectName bound = .ok name → property (.declared bound name))
    (onward : ∀ levels ref node child, visited (levels + 1) ref →
      program.tree.node? ref = some node → program.Visits node.shape child → visited levels child)
    {levels : Nat} {ref : NodeRef} {stops : List Stop} (start : visited levels ref)
    (found : program.itinerary levels ref = .ok stops) :
    ∀ stop ∈ stops, property stop.event := by
  induction levels generalizing ref stops with
  | zero =>
      obtain rfl := Except.ok.inj found
      simp
  | succ levels inductionHypothesis =>
      have below {node : Node} {child : NodeRef} (held : program.tree.node? ref = some node)
          (visits : program.Visits node.shape child) (stops : List Stop)
          (childFound : program.itinerary levels child = .ok stops) :
          ∀ stop ∈ stops, property stop.event :=
        inductionHypothesis (onward levels ref node child start held visits) childFound
      cases stopsFrom_of_itinerary found with
      | @identifier node name held shape =>
          simpa using used levels ref node name start held shape
      | member held shape joined =>
          exact Stop.forall_mem_joinOne (below held (by rw [shape]; exact rfl)) joined
      | ambient held shape ambient =>
          simp
      | @declaration node bound parts atName inside held shape notAmbient named joined =>
          have ofName : ∀ stop ∈ atName, property stop.event := by
            cases named with
            | @identifier _ nameNode name isName nameHeld nameShape =>
                have expected : program.expectName bound = .ok name := by
                  simp only [expectName, nameHeld, nameShape, NodeShape.name?]
                simpa using declared levels ref node bound parts name start held shape notAmbient
                  isName expected
            | other noName present nameJoined =>
                have visits : program.Visits node.shape bound := by
                  rw [shape]
                  exact ⟨notAmbient, Or.inl ⟨rfl, noName⟩⟩
                exact Stop.forall_mem_joinOne (below held visits) nameJoined
            | absent =>
                simp
          have ofParts : ∀ stop ∈ inside, property stop.event := by
            refine Stop.forall_mem_joinAll (fun part isPart => below held ?_) joined
            rw [shape]
            exact ⟨notAmbient, Or.inr isPart⟩
          intro stop member
          rcases List.mem_append.mp member with nameMember | insideMember
          · exact ofName stop nameMember
          · exact Stop.forall_mem_enclosed opened closed ofParts stop insideMember
      | container held container joined =>
          refine Stop.forall_mem_enclosed opened closed (Stop.forall_mem_joinAll ?_ joined)
          exact fun child isChild => below held (visits_of_mem_children container isChild)

def WalkEvent.IsNamed (program : Program) : WalkEvent → Prop
  | declared ref name | used ref name => program.tree.name? ref = some name
  | opened .. | closed => True

theorem Program.isNamed_of_mem_itinerary
    {program : Program} {levels : Nat} {ref : NodeRef} {stops : List Stop}
    (found : program.itinerary levels ref = .ok stops) :
    ∀ stop ∈ stops, stop.event.IsNamed program := by
  have used (_ : Nat) (ref : NodeRef) (node : Node) (name : SourceName) (_ : True)
      (held : program.tree.node? ref = some node) (shape : node.shape = .identifier name) :
      (WalkEvent.used ref name).IsNamed program := by
    simp [WalkEvent.IsNamed, Tree.name?, held, shape, NodeShape.name?]
  exact forall_mem_itinerary (fun _ _ => trivial) trivial used
    (fun _ _ _ _ _ _ _ _ _ _ _ expected => expectName_eq_ok_iff.mp expected)
    (fun _ _ _ _ _ _ _ => trivial) trivial found

end NameLowering
