import NameLowering.Proofs.Tree.Subtrees
import NameLowering.Proofs.Walk.Mentions

/-!
# Frames

What a walk does below a node is framed: the scopes that were open before are open afterwards, and
those that were opened and closed in between hold just the mentions in the subtrees of their nodes.
Frames of single children make up the frame of their parent, since their subtrees are disjoint.
-/

namespace NameLowering

/-! ## Mentions inside a scope -/

open Classical in
/-- The mentions inside the scope that a node opens. -/
noncomputable def Tree.mentionsInside
    (tree : Tree) (opener : NodeRef) (mentions : List Mention) : List Mention :=
  mentions.filter fun mention => tree.Encloses opener mention.node

theorem Tree.mentionsInside_append
    (tree : Tree) (opener : NodeRef) (earlier later : List Mention) :
    tree.mentionsInside opener (earlier ++ later) =
      tree.mentionsInside opener earlier ++ tree.mentionsInside opener later :=
  List.filter_append ..

theorem Tree.mentionsInside_eq_self
    {tree : Tree} {opener : NodeRef} {mentions : List Mention}
    (inside : ∀ mention ∈ mentions, tree.Encloses opener mention.node) :
    tree.mentionsInside opener mentions = mentions := by
  refine List.filter_eq_self.mpr fun mention member => ?_
  simpa using inside mention member

theorem Tree.mentionsInside_eq_nil
    {tree : Tree} {opener : NodeRef} {mentions : List Mention}
    (outside : ∀ mention ∈ mentions, ¬ tree.Encloses opener mention.node) :
    tree.mentionsInside opener mentions = [] := by
  refine List.filter_eq_nil_iff.mpr fun mention member => ?_
  simpa using outside mention member

/-- A scope that was opened when the log had some length holds what came after. -/
theorem Walk.closed_leave
    {walk : Walk} {inner : OpenScope} {outer : List OpenScope} {before after : List Mention}
    (isOpen : walk.state.scopes.stack = inner :: outer)
    (log : walk.state.scopes.log.toList = before ++ after)
    (start : inner.start = before.length) :
    walk.leave.closed =
      walk.closed.push
        { kind := inner.kind, id := inner.id, node := inner.node, mentions := after } := by
  have logged :
      (walk.state.scopes.log.extract inner.start walk.state.scopes.log.size).toList = after := by
    rw [Array.toList_extract, log, start, ← Array.length_toList, log]
    simp
  rw [leave_closed isOpen, logged]

/-! ## Framed stops -/

namespace Setting

def mentionsAlong (setting : Setting) (state : UnitState) (stops : List Stop) : List Mention :=
  stops.flatMap fun stop => setting.mentionsFor state stop.event

/-- The scopes that a run of stops has closed hold what the stops mention inside of them. -/
structure Frames (setting : Setting) (stops : List Stop) (region : NodeRef → Prop) : Prop where
  sources : ∀ stop ∈ stops, ∀ ref, stop.event.source? = some ref → region ref
  /-- The scopes that the run finds open are open at its end. -/
  stack : ∀ walk,
    (Walk.run setting stops walk).state.scopes.stack = walk.state.scopes.stack
  closes : ∀ walk later, (Walk.run setting stops walk).state.Extends later →
    ∃ scopes, (Walk.run setting stops walk).closed.toList = walk.closed.toList ++ scopes ∧
      ∀ scope ∈ scopes, region scope.node ∧
        scope.mentions =
          setting.program.tree.mentionsInside scope.node (setting.mentionsAlong later stops)

variable {setting : Setting} {stops earlier later : List Stop}
  {region earlierRegion laterRegion : NodeRef → Prop}

theorem node_of_mem_mentionsAlong
    (sources : ∀ stop ∈ stops, ∀ ref, stop.event.source? = some ref → region ref)
    {state : UnitState} {mention : Mention} (member : mention ∈ setting.mentionsAlong state stops) :
    region mention.node := by
  obtain ⟨stop, stopMember, inEvent⟩ := List.mem_flatMap.mp member
  obtain ⟨ref, isSource, inTracked⟩ := List.mem_flatMap.mp inEvent
  obtain ⟨symbol, _, rfl⟩ := List.mem_map.mp inTracked
  exact sources stop stopMember ref (Option.mem_toList.mp isSource)

/-- Scopes mention nothing themselves. -/
theorem mentionsAlong_enclosed
    (kind : NodeKind) (opener : NodeRef) (stops : List Stop) (state : UnitState) :
    setting.mentionsAlong state (Stop.enclosed kind opener stops) =
      setting.mentionsAlong state stops := by
  unfold Stop.enclosed
  cases kind.scopeKind? with
  | none =>
      rfl
  | some scope =>
      simp [mentionsAlong, mentionsFor, WalkEvent.source?]

namespace Frames

theorem mono {wider : NodeRef → Prop} (frames : Frames setting stops region)
    (within : ∀ ref, region ref → wider ref) :
    Frames setting stops wider where
  sources stop member ref source := within ref (frames.sources stop member ref source)
  stack := frames.stack
  closes walk later extension := by
    obtain ⟨scopes, closed, contents⟩ := frames.closes walk later extension
    refine ⟨scopes, closed, fun scope member => ?_⟩
    exact ⟨within _ (contents scope member).1, (contents scope member).2⟩

theorem nil : Frames setting [] fun _ => False where
  sources _ member := absurd member List.not_mem_nil
  stack _ := rfl
  closes _ _ _ := ⟨[], (List.append_nil _).symm, fun _ member => absurd member List.not_mem_nil⟩

theorem name {stop : Stop} {ref : NodeRef} (source : stop.event.source? = some ref) :
    Frames setting [stop] (· = ref) where
  sources other member otherRef otherSource := by
    obtain rfl := List.mem_singleton.mp member
    exact Option.some.inj (otherSource.symm.trans source)
  stack walk := Walk.step_stack walk source
  closes walk later extension :=
    ⟨[], by rw [List.append_nil]; exact congrArg Array.toList (Walk.step_closed walk source),
      fun _ member => absurd member List.not_mem_nil⟩

theorem under (position : Nat) (frames : Frames setting stops region) :
    Frames setting (stops.map (Stop.under position)) region where
  sources stop member ref source := by
    obtain ⟨below, belowMember, rfl⟩ := List.mem_map.mp member
    exact frames.sources below belowMember ref source
  stack walk := by
    rw [Walk.run_under]
    exact frames.stack walk
  closes walk later extension := by
    have same : setting.mentionsAlong later (stops.map (Stop.under position)) =
        setting.mentionsAlong later stops :=
      List.flatMap_map ..
    rw [Walk.run_under] at extension ⊢
    rw [same]
    exact frames.closes walk later extension

theorem append
    (first : Frames setting earlier earlierRegion) (second : Frames setting later laterRegion)
    (apart : ∀ one other, earlierRegion one → laterRegion other →
      setting.program.tree.Apart one other) :
    Frames setting (earlier ++ later) fun ref => earlierRegion ref ∨ laterRegion ref where
  sources stop member ref source := by
    rcases List.mem_append.mp member with inEarlier | inLater
    · exact Or.inl (first.sources stop inEarlier ref source)
    · exact Or.inr (second.sources stop inLater ref source)
  stack walk := by
    rw [Walk.run_append, second.stack, first.stack]
  closes walk final extension := by
    rw [Walk.run_append] at extension ⊢
    have along :
        setting.mentionsAlong final (earlier ++ later) =
          setting.mentionsAlong final earlier ++ setting.mentionsAlong final later :=
      List.flatMap_append
    obtain ⟨firstScopes, firstClosed, firstContents⟩ :=
      first.closes walk final ((Walk.extends_run later _).trans extension)
    obtain ⟨secondScopes, secondClosed, secondContents⟩ := second.closes _ final extension
    refine ⟨firstScopes ++ secondScopes, ?_, ?_⟩
    · rw [secondClosed, firstClosed, List.append_assoc]
    · intro scope member
      rw [along, Tree.mentionsInside_append]
      rcases List.mem_append.mp member with inFirst | inSecond
      · obtain ⟨place, contents⟩ := firstContents scope inFirst
        have outside :
            setting.program.tree.mentionsInside scope.node (setting.mentionsAlong final later) =
              [] :=
          Tree.mentionsInside_eq_nil fun mention isMention =>
            (apart _ _ place (node_of_mem_mentionsAlong second.sources isMention)).1
        rw [outside, List.append_nil]
        exact ⟨Or.inl place, contents⟩
      · obtain ⟨place, contents⟩ := secondContents scope inSecond
        have outside :
            setting.program.tree.mentionsInside scope.node
                (setting.mentionsAlong final earlier) = [] :=
          Tree.mentionsInside_eq_nil fun mention isMention =>
            (apart _ _ (node_of_mem_mentionsAlong first.sources isMention) place).2
        rw [outside, List.nil_append]
        exact ⟨Or.inr place, contents⟩

theorem enclosed {opener : NodeRef} (kind : NodeKind) (frames : Frames setting stops region)
    (inside : ∀ ref, region ref → setting.program.tree.Encloses opener ref) :
    Frames setting (Stop.enclosed kind opener stops) fun ref => ref = opener ∨ region ref := by
  cases opens : kind.scopeKind? with
  | none =>
      simp only [Stop.enclosed, opens]
      exact frames.mono fun ref => Or.inr
  | some scopeKind =>
      have ownStack (walk : Walk) :
          (Walk.run setting stops (walk.enter scopeKind opener)).state.scopes.stack =
            { kind := scopeKind, id := walk.state.scopes.opened + 1, node := opener
              start := walk.state.scopes.log.size } :: walk.state.scopes.stack :=
        frames.stack (walk.enter scopeKind opener)
      refine ⟨?_, ?_, ?_⟩
      · intro stop member ref source
        rcases Stop.mem_enclosed_iff.mp member with inner | ⟨_, _, rfl | rfl⟩
        · exact Or.inr (frames.sources stop inner ref source)
        · contradiction
        · contradiction
      · intro walk
        rw [Walk.run_enclosed_of_some opens, Walk.leave_state, ownStack, List.tail_cons]
      · intro walk later extension
        rw [Walk.run_enclosed_of_some opens] at extension ⊢
        have innerExtension := (Walk.extends_leave _).trans extension
        obtain ⟨scopes, closed, contents⟩ := frames.closes _ later innerExtension
        have log :
            (Walk.run setting stops (walk.enter scopeKind opener)).state.scopes.log.toList =
              walk.state.scopes.log.toList ++ setting.mentionsAlong later stops :=
          Walk.run_log stops (walk.enter scopeKind opener) innerExtension
        have allInside :
            setting.program.tree.mentionsInside opener (setting.mentionsAlong later stops) =
              setting.mentionsAlong later stops :=
          Tree.mentionsInside_eq_self fun mention isMention =>
            inside _ (node_of_mem_mentionsAlong frames.sources isMention)
        rw [Walk.closed_leave (ownStack walk) log rfl, Array.toList_push, closed,
          List.append_assoc, mentionsAlong_enclosed]
        refine ⟨_, rfl, fun scope member => ?_⟩
        rcases List.mem_append.mp member with within | isOwn
        · exact ⟨Or.inr (contents scope within).1, (contents scope within).2⟩
        · obtain rfl := List.mem_singleton.mp isOwn
          exact ⟨Or.inl rfl, allInside.symm⟩

theorem joinOne
    {stopsBelow : NodeRef → Except LoweringError (List Stop)} {position : Nat} {ref : NodeRef}
    (framed : ∀ stops, stopsBelow ref = .ok stops → Frames setting stops region)
    (joined : Stop.joinOne stopsBelow position ref = .ok stops) :
    Frames setting stops region := by
  obtain ⟨below, found, rfl⟩ := Stop.joinOne_eq_ok_iff.mp joined
  exact (framed below found).under position

/-- Stops below several nodes are framed if no two of the regions enclose parts of each other. -/
theorem joinAll
    {stopsBelow : NodeRef → Except LoweringError (List Stop)}
    {regionOf : NodeRef → NodeRef → Prop} {position : Nat} {refs : List NodeRef}
    (framed : ∀ ref ∈ refs, ∀ stops, stopsBelow ref = .ok stops →
      Frames setting stops (regionOf ref))
    (apart : refs.Pairwise fun first second => ∀ one other, regionOf first one →
      regionOf second other → setting.program.tree.Apart one other)
    (joined : Stop.joinAll stopsBelow position refs = .ok stops) :
    Frames setting stops fun node => ∃ ref ∈ refs, regionOf ref node :=
  Stop.joinAll_regions nil (fun position _ _ => under position) (fun _ _ _ _ => append) framed apart
    joined

end Frames

/-! ## The itinerary of a tree -/

section Itineraries

variable {levels : Nat} {ref : NodeRef} {node : Node}

/-- Children in separate slots have subtrees that enclose no parts of each other. -/
theorem pairwise_apart
    (acyclic : setting.program.tree.Acyclic) (unshared : setting.program.tree.Unshared)
    (held : setting.program.tree.node? ref = some node) {refs : List NodeRef}
    (nodup : refs.Nodup) (children : ∀ child ∈ refs, child ∈ node.shape.children) :
    refs.Pairwise fun first second => ∀ one other, setting.program.tree.Below first one →
      setting.program.tree.Below second other → setting.program.tree.Apart one other := by
  refine List.Pairwise.imp_of_mem ?_ nodup
  intro first second isFirst isSecond different one other belowFirst belowSecond
  exact unshared.apart_of_children acyclic held (children first isFirst) (children second isSecond)
    different belowFirst belowSecond

theorem frames_nameStops
    {bound : NodeRef}
    (framed : ∀ stops, setting.program.itinerary levels bound = .ok stops →
      Frames setting stops (setting.program.tree.Below bound))
    (named : setting.program.NameStops levels bound stops) :
    Frames setting stops fun other =>
      bound.isPresent = true ∧ setting.program.tree.Below bound other := by
  cases named with
  | identifier isName held shape =>
      refine (Frames.name rfl).mono ?_
      rintro _ rfl
      exact ⟨Tree.isPresent_of_node? held, Tree.Below.refl _ _⟩
  | other noName present joined =>
      exact (Frames.joinOne framed joined).mono fun _ below => ⟨present, below⟩
  | absent =>
      exact Frames.nil.mono fun _ impossible => impossible.elim

/-- The scope that a node opens around some of its children holds what is below these, if the node
declares no name there. -/
theorem frames_enclosed
    (isForest : setting.program.IsForest) (acyclic : setting.program.tree.Acyclic)
    (framed : ∀ child stops, setting.program.itinerary levels child = .ok stops →
      Frames setting stops (setting.program.tree.Below child))
    (held : setting.program.tree.node? ref = some node) {position : Nat} {refs : List NodeRef}
    (nodup : refs.Nodup) (children : ∀ child ∈ refs, child ∈ node.shape.children)
    (unnamed : ∀ bound parts, node.shape = .declaration bound parts → bound ∉ refs)
    (joined : Stop.joinAll (setting.program.itinerary levels) position refs = .ok stops) :
    Frames setting (Stop.enclosed node.kind ref stops) fun other =>
      other = ref ∨ ∃ child ∈ refs, setting.program.tree.Below child other := by
  have apart := pairwise_apart acyclic isForest.unshared held nodup children
  refine (Frames.joinAll (fun child _ => framed child) apart joined).enclosed node.kind ?_
  rintro other ⟨child, member, below⟩
  refine isForest.unshared.encloses_of_child acyclic held (children child member) below ?_
  rintro bound parts shape rfl
  exact unnamed child parts shape member

theorem frames_declaration
    (isForest : setting.program.IsForest) (acyclic : setting.program.tree.Acyclic)
    (framed : ∀ child stops, setting.program.itinerary levels child = .ok stops →
      Frames setting stops (setting.program.tree.Below child))
    (held : setting.program.tree.node? ref = some node) {bound : NodeRef} {parts : List NodeRef}
    (shape : node.shape = .declaration bound parts) {atName inside : List Stop}
    (named : setting.program.NameStops levels bound atName)
    (joined : Stop.joinAll (setting.program.itinerary levels) 1 parts = .ok inside) :
    Frames setting (atName ++ Stop.enclosed node.kind ref inside)
      (setting.program.tree.Below ref) := by
  obtain ⟨nameIsChild, children, partsNodup, notPart⟩ :=
    isForest.children_of_declaration held shape
  have unnamed (other : NodeRef) (otherParts : List NodeRef)
      (otherShape : node.shape = .declaration other otherParts) : other ∉ parts := by
    obtain ⟨rfl, _⟩ := NodeShape.declaration.inj (shape.symm.trans otherShape)
    exact notPart
  have nameFrames := frames_nameStops (framed bound) named
  have insideFrames :=
    frames_enclosed isForest acyclic framed held partsNodup children unnamed joined
  refine (nameFrames.append insideFrames ?_).mono ?_
  · rintro one other ⟨present, belowBound⟩ (rfl | ⟨part, isPart, belowPart⟩)
    · refine ⟨fun encloses => ?_, fun encloses => ?_⟩
      · exact acyclic _ node bound held (nameIsChild present) (belowBound.trans encloses.1)
      · exact encloses.2 node bound parts held shape belowBound
    · have different : bound ≠ part := by
        rintro rfl
        exact notPart isPart
      exact isForest.unshared.apart_of_children acyclic held (nameIsChild present)
        (children part isPart) different belowBound belowPart
  · rintro other (⟨present, belowBound⟩ | rfl | ⟨part, isPart, belowPart⟩)
    · exact (Tree.Below.of_child held (nameIsChild present)).trans belowBound
    · exact Tree.Below.refl _ _
    · exact (Tree.Below.of_child held (children part isPart)).trans belowPart

/-- What a walk from a node does is framed by the subtree of the node. -/
theorem frames_itinerary
    (isForest : setting.program.IsForest) (acyclic : setting.program.tree.Acyclic) (levels : Nat)
    (ref : NodeRef) (stops : List Stop)
    (found : setting.program.itinerary levels ref = .ok stops) :
    Frames setting stops (setting.program.tree.Below ref) := by
  induction levels generalizing ref stops with
  | zero =>
      obtain rfl := Except.ok.inj found
      exact Frames.nil.mono fun _ impossible => impossible.elim
  | succ levels inductionHypothesis =>
      cases Program.stopsFrom_of_itinerary found with
      | identifier held shape =>
          refine (Frames.name rfl).mono ?_
          rintro _ rfl
          exact Tree.Below.refl _ _
      | @member node object key _ held shape joined =>
          refine (Frames.joinOne (inductionHypothesis object) joined).mono ?_
          intro other below
          have isChild : object ∈ node.shape.children := by
            have present : object.isPresent = true := by
              refine isForest.filled node (Tree.mem_nodes_of_node? held) object ?_
              rw [shape]
              exact List.mem_cons_self
            simp [shape, NodeShape.children, NodeShape.slots, present]
          exact (Tree.Below.of_child held isChild).trans below
      | ambient held shape ambient =>
          exact Frames.nil.mono fun _ impossible => impossible.elim
      | declaration held shape notAmbient named joined =>
          exact frames_declaration isForest acyclic inductionHypothesis held shape named joined
      | @container node _ held container joined =>
          have nodup := isForest.unshared.children_nodup held
          have unnamed (bound : NodeRef) (parts : List NodeRef)
              (shape : node.shape = .declaration bound parts) : bound ∉ node.shape.children := by
            rw [shape] at container
            contradiction
          refine (frames_enclosed isForest acyclic inductionHypothesis held nodup
            (fun _ isChild => isChild) unnamed joined).mono ?_
          rintro other (rfl | ⟨child, isChild, below⟩)
          · exact Tree.Below.refl _ _
          · exact (Tree.Below.of_child held isChild).trans below

end Itineraries

end Setting

end NameLowering
