import Mathlib.Data.Set.Image
import Mathlib.Order.Bounds.Defs
import NameLowering.Program.Build
import NameLowering.Proofs.Tree.Subtrees

/-!
# Hulls

Tokens are given their spans, and every other node spans its children. So the span of a node is the
least one that covers the spans of the nodes without children below it. These are the tokens and the
composite nodes that came without children. The latter have the empty span at the start of the text,
and so whatever holds one of them starts there.
-/

namespace NameLowering

/-! ## Hulls of spans -/

/-- A span reaches from the least start of some spans to their greatest stop. -/
structure Span.IsHullOf (hull : Span) (spans : Set Span) : Prop where
  start : IsLeast (Span.start '' spans) hull.start
  stop : IsGreatest (Span.stop '' spans) hull.stop

namespace Span

variable {left right hull : Span} {leftSpans rightSpans spans all : Set Span}

theorem start_cover (left right : Span) :
    (left.cover right).start = if left.start ≤ right.start then left.start else right.start :=
  rfl

theorem stop_cover (left right : Span) :
    (left.cover right).stop = if left.stop ≤ right.stop then right.stop else left.stop :=
  rfl

theorem isHullOf_singleton (span : Span) : span.IsHullOf {span} := by
  constructor
  · rw [Set.image_singleton]
    exact ⟨rfl, fun _ same => same ▸ UInt32.le_refl _⟩
  · rw [Set.image_singleton]
    exact ⟨rfl, fun _ same => same ▸ UInt32.le_refl _⟩

theorem isLeast_union {first second : Set UInt32} {least other : UInt32}
    (isLeast : IsLeast first least) (isOther : IsLeast second other) (ordered : least ≤ other) :
    IsLeast (first ∪ second) least := by
  constructor
  · exact Or.inl isLeast.1
  · intro position member
    rcases member with inFirst | inSecond
    · exact isLeast.2 inFirst
    · exact UInt32.le_trans ordered (isOther.2 inSecond)

theorem isGreatest_union {first second : Set UInt32} {greatest other : UInt32}
    (isGreatest : IsGreatest first greatest) (isOther : IsGreatest second other)
    (ordered : other ≤ greatest) :
    IsGreatest (first ∪ second) greatest := by
  constructor
  · exact Or.inl isGreatest.1
  · intro position member
    rcases member with inFirst | inSecond
    · exact isGreatest.2 inFirst
    · exact UInt32.le_trans (isOther.2 inSecond) ordered

theorem IsHullOf.cover (isLeft : left.IsHullOf leftSpans) (isRight : right.IsHullOf rightSpans) :
    (left.cover right).IsHullOf (leftSpans ∪ rightSpans) := by
  constructor
  · rw [Set.image_union, start_cover]
    by_cases ordered : left.start ≤ right.start
    · rw [if_pos ordered]
      exact isLeast_union isLeft.start isRight.start ordered
    · have reversed := (UInt32.le_total left.start right.start).resolve_left ordered
      rw [if_neg ordered, Set.union_comm]
      exact isLeast_union isRight.start isLeft.start reversed
  · rw [Set.image_union, stop_cover]
    by_cases ordered : left.stop ≤ right.stop
    · rw [if_pos ordered, Set.union_comm]
      exact isGreatest_union isRight.stop isLeft.stop ordered
    · have reversed := (UInt32.le_total left.stop right.stop).resolve_left ordered
      rw [if_neg ordered]
      exact isGreatest_union isLeft.stop isRight.stop reversed

theorem IsHullOf.foldl_cover (isHull : hull.IsHullOf spans) (rest : List Span) :
    (rest.foldl Span.cover hull).IsHullOf (spans ∪ {span | span ∈ rest}) := by
  induction rest generalizing hull spans with
  | nil =>
      simpa using isHull
  | cons next rest inductionHypothesis =>
      have withNext := inductionHypothesis (isHull.cover (isHullOf_singleton next))
      have same : spans ∪ {next} ∪ {span | span ∈ rest} =
          spans ∪ {span | span ∈ next :: rest} := by
        ext span
        simp only [Set.mem_union, Set.mem_singleton_iff, Set.mem_ofPred_eq, List.mem_cons, or_assoc]
      rwa [same] at withNext

theorem isHullOf_hull {list : List Span} (nonempty : list ≠ []) :
    (Span.hull list).IsHullOf {span | span ∈ list} := by
  cases list with
  | nil =>
      exact absurd rfl nonempty
  | cons first rest =>
      have isHull := (isHullOf_singleton first).foldl_cover rest
      have same : {first} ∪ {span | span ∈ rest} = {span | span ∈ first :: rest} := by
        ext span
        simp
      rwa [same] at isHull

/-- A hull of hulls is the hull of all that they are hulls of. -/
theorem IsHullOf.of_parts
    (isHull : hull.IsHullOf spans)
    (inner : ∀ span ∈ spans, ∃ part ⊆ all, span.IsHullOf part)
    (outer : ∀ span ∈ all, ∃ part, span ∈ part ∧ ∃ partHull ∈ spans, partHull.IsHullOf part) :
    hull.IsHullOf all := by
  constructor
  · constructor
    · obtain ⟨span, isPart, sameStart⟩ := isHull.start.1
      obtain ⟨part, included, isPartHull⟩ := inner span isPart
      rw [← sameStart]
      exact Set.image_mono included isPartHull.start.1
    · rintro start ⟨span, inAll, rfl⟩
      obtain ⟨part, inPart, partHull, isPart, isPartHull⟩ := outer span inAll
      exact UInt32.le_trans (isHull.start.2 ⟨partHull, isPart, rfl⟩)
        (isPartHull.start.2 ⟨span, inPart, rfl⟩)
  · constructor
    · obtain ⟨span, isPart, sameStop⟩ := isHull.stop.1
      obtain ⟨part, included, isPartHull⟩ := inner span isPart
      rw [← sameStop]
      exact Set.image_mono included isPartHull.stop.1
    · rintro stop ⟨span, inAll, rfl⟩
      obtain ⟨part, inPart, partHull, isPart, isPartHull⟩ := outer span inAll
      exact UInt32.le_trans (isPartHull.stop.2 ⟨span, inPart, rfl⟩)
        (isHull.stop.2 ⟨partHull, isPart, rfl⟩)

end Span

/-! ## Tokens and composite nodes -/

/-- Whether a shape is that of a token: a name or a literal. -/
def NodeShape.isToken : NodeShape → Bool
  | .identifier _ | .token => true
  | .call .. | .member .. | .forOf .. | .declaration .. | .group _ => false

theorem NodeShape.children_of_isToken {shape : NodeShape} (isToken : shape.isToken = true) :
    shape.children = [] := by
  cases shape <;> first | rfl | contradiction

namespace Tree

/-- Trees of tokens with spans of their own, and of composite nodes that span their children and were
added after them. -/
inductive Assembled : Tree → Prop
  | empty : Assembled {}
  | token
      {tree : Tree} {node : Node} (assembled : Assembled tree)
      (isToken : node.shape.isToken = true) (free : node.parent = .absent) :
      Assembled (tree.add node).2
  | composite
      {tree : Tree} {shape : NodeShape} (assembled : Assembled tree) (kind : NodeKind)
      (isComposite : shape.isToken = false)
      (exist : ∀ child ∈ shape.children, (tree.node? child).isSome = true) :
      Assembled (tree.addSpanning kind shape).2

/-- The spans of the tokens below a node. -/
def tokenSpans (tree : Tree) (ref : NodeRef) : Set Span :=
  {span | ∃ token node, tree.Below ref token ∧ tree.node? token = some node ∧
    node.shape.isToken = true ∧ node.span = span}

/-- The spans of the nodes without children below a node. -/
def leafSpans (tree : Tree) (ref : NodeRef) : Set Span :=
  {span | ∃ leaf node, tree.Below ref leaf ∧ tree.node? leaf = some node ∧
    node.shape.children = [] ∧ node.span = span}

/-- A composite node without children is below a node. -/
def HoldsChildless (tree : Tree) (ref : NodeRef) : Prop :=
  ∃ childless node, tree.Below ref childless ∧ tree.node? childless = some node ∧
    node.shape.isToken = false ∧ node.shape.children = []

variable {tree : Tree} {ref : NodeRef} {node : Node}

namespace Assembled

theorem grown (assembled : tree.Assembled) : tree.Grown := by
  induction assembled with
  | empty =>
      exact .empty
  | token _ isToken free inductionHypothesis =>
      refine .add inductionHypothesis free fun child isChild => ?_
      rw [NodeShape.children_of_isToken isToken] at isChild
      contradiction
  | composite _ kind _ exist inductionHypothesis =>
      exact .add inductionHypothesis rfl exist

theorem isSome_child (assembled : tree.Assembled) (held : tree.node? ref = some node)
    {child : NodeRef} (isChild : child ∈ node.shape.children) :
    (tree.node? child).isSome = true := by
  obtain ⟨childNode, childHeld, _⟩ := assembled.grown.built.exists_child held isChild
    (assembled.grown.number_lt held isChild)
  rw [childHeld, Option.isSome_some]

end Assembled

/-! ## What a tree keeps -/

theorem mem_spans_iff {refs : List NodeRef} {span : Span} :
    span ∈ (refs.filterMap tree.node?).map Node.span ↔
      ∃ ref ∈ refs, ∃ node, tree.node? ref = some node ∧ node.span = span := by
  simp only [List.mem_map, List.mem_filterMap]
  constructor
  · rintro ⟨node, ⟨ref, member, held⟩, sameSpan⟩
    exact ⟨ref, member, node, held, sameSpan⟩
  · rintro ⟨ref, member, node, held, sameSpan⟩
    exact ⟨node, ⟨ref, member, held⟩, sameSpan⟩

theorem adopt_span (parent : NodeRef) (children : List NodeRef) (ref : NodeRef) (node : Node) :
    (adopt parent children ref node).span = node.span := by
  unfold adopt
  split <;> rfl

/-- The hull of nodes that are there does not change when another node is added. -/
theorem hull_add {refs : List NodeRef} (added : Node)
    (exist : ∀ ref ∈ refs, (tree.node? ref).isSome = true) :
    (tree.add added).2.hull refs = tree.hull refs := by
  rw [hull, hull, List.map_filterMap, List.map_filterMap]
  refine congrArg Span.hull (List.filterMap_congr fun ref member => ?_)
  obtain ⟨node, held⟩ := Option.isSome_iff_exists.mp (exist ref member)
  rw [node?_add_of_old held, held, Option.map_some, Option.map_some, adopt_span]

/-! ## Nodes without children -/

theorem leafSpans_of_childless (held : tree.node? ref = some node)
    (childless : node.shape.children = []) :
    tree.leafSpans ref = {node.span} := by
  ext span
  constructor
  · rintro ⟨leaf, leafNode, below, leafHeld, _, rfl⟩
    rcases below.eq_or_exists_child with rfl | ⟨top, child, topHeld, isChild, _⟩
    · rw [held, Option.some.injEq] at leafHeld
      rw [leafHeld]
      rfl
    · rw [held, Option.some.injEq] at topHeld
      rw [← topHeld, childless] at isChild
      contradiction
  · rintro rfl
    exact ⟨ref, node, Below.refl tree ref, held, childless, rfl⟩

theorem mem_leafSpans_iff {span : Span} (held : tree.node? ref = some node)
    (nonempty : node.shape.children ≠ []) :
    span ∈ tree.leafSpans ref ↔ ∃ child ∈ node.shape.children, span ∈ tree.leafSpans child := by
  constructor
  · rintro ⟨leaf, leafNode, below, leafHeld, isLeaf, sameSpan⟩
    rcases below.eq_or_exists_child with rfl | ⟨top, child, topHeld, isChild, belowChild⟩
    · rw [held, Option.some.injEq] at leafHeld
      rw [leafHeld] at nonempty
      exact absurd isLeaf nonempty
    · rw [held, Option.some.injEq] at topHeld
      rw [← topHeld] at isChild
      exact ⟨child, isChild, leaf, leafNode, belowChild, leafHeld, isLeaf, sameSpan⟩
  · rintro ⟨child, isChild, leaf, leafNode, below, isLeaf⟩
    exact ⟨leaf, leafNode, (Below.of_child held isChild).trans below, isLeaf⟩

namespace Assembled

theorem span_eq (assembled : tree.Assembled) (held : tree.node? ref = some node)
    (isComposite : node.shape.isToken = false) :
    node.span = tree.hull node.shape.children := by
  induction assembled generalizing ref node with
  | empty =>
      cases ref <;> simp [node?] at held
  | @token tree added assembled isToken free inductionHypothesis =>
      rcases node?_add_cases held with ⟨rfl, rfl⟩ | ⟨old, oldHeld, rfl⟩
      · rw [isToken] at isComposite
        contradiction
      · rw [adopt_shape] at isComposite ⊢
        rw [adopt_span, inductionHypothesis oldHeld isComposite]
        exact (hull_add added fun child => assembled.isSome_child oldHeld).symm
  | @composite tree shape assembled kind isNew exist inductionHypothesis =>
      rcases node?_add_cases held with ⟨rfl, rfl⟩ | ⟨old, oldHeld, rfl⟩
      · exact (hull_add _ exist).symm
      · rw [adopt_shape] at isComposite ⊢
        rw [adopt_span, inductionHypothesis oldHeld isComposite]
        exact (hull_add _ fun child => assembled.isSome_child oldHeld).symm

/-- Also where spans of other nodes are in between, a span is the hull of those at the leaves. -/
theorem isHullOf_leafSpans (assembled : tree.Assembled) (held : tree.node? ref = some node) :
    node.span.IsHullOf (tree.leafSpans ref) := by
  induction before : ref.number using Nat.strongRecOn generalizing ref node with
  -- Children come before their parents.
  | ind number inductionHypothesis =>
      by_cases childless : node.shape.children = []
      · rw [leafSpans_of_childless held childless]
        exact Span.isHullOf_singleton node.span
      · have isComposite : node.shape.isToken = false := by
          by_contra isToken
          exact childless (NodeShape.children_of_isToken (Bool.eq_true_of_not_eq_false isToken))
        have ofChild {child : NodeRef} {childNode : Node} (isChild : child ∈ node.shape.children)
            (childHeld : tree.node? child = some childNode) :
            childNode.span.IsHullOf (tree.leafSpans child) := by
          apply inductionHypothesis child.number _ childHeld rfl
          rw [← before]
          exact assembled.grown.number_lt held isChild
        have spanOfChild {child : NodeRef} (isChild : child ∈ node.shape.children) :
            ∃ span ∈ (node.shape.children.filterMap tree.node?).map Node.span,
              span.IsHullOf (tree.leafSpans child) := by
          obtain ⟨childNode, childHeld⟩ :=
            Option.isSome_iff_exists.mp (assembled.isSome_child held isChild)
          exact ⟨childNode.span, mem_spans_iff.mpr ⟨child, isChild, childNode, childHeld, rfl⟩,
            ofChild isChild childHeld⟩
        have nonempty : (node.shape.children.filterMap tree.node?).map Node.span ≠ [] := by
          obtain ⟨child, isChild⟩ := List.exists_mem_of_ne_nil _ childless
          obtain ⟨span, isSpan, _⟩ := spanOfChild isChild
          exact List.ne_nil_of_mem isSpan
        rw [assembled.span_eq held isComposite, hull]
        apply (Span.isHullOf_hull nonempty).of_parts
        · intro span isSpan
          obtain ⟨child, isChild, childNode, childHeld, rfl⟩ := mem_spans_iff.mp isSpan
          refine ⟨tree.leafSpans child, fun leaf isLeaf => ?_, ofChild isChild childHeld⟩
          exact (mem_leafSpans_iff held childless).mpr ⟨child, isChild, isLeaf⟩
        · intro span isLeaf
          obtain ⟨child, isChild, belowChild⟩ := (mem_leafSpans_iff held childless).mp isLeaf
          exact ⟨tree.leafSpans child, belowChild, spanOfChild isChild⟩

/-! ## Hulls of tokens -/

/-- The leaves are the tokens and the childless composite nodes, which have the empty span at the start
of the text. -/
theorem mem_leafSpans_iff_token (assembled : tree.Assembled) {span : Span} :
    span ∈ tree.leafSpans ref ↔
      span ∈ tree.tokenSpans ref ∨ tree.HoldsChildless ref ∧ span = {} := by
  have spanOfChildless {childless : NodeRef} {node : Node}
      (held : tree.node? childless = some node) (isComposite : node.shape.isToken = false)
      (noChildren : node.shape.children = []) : node.span = {} := by
    rw [assembled.span_eq held isComposite, noChildren]
    rfl
  constructor
  · rintro ⟨leaf, node, below, held, noChildren, rfl⟩
    cases isToken : node.shape.isToken with
    | true =>
        exact Or.inl ⟨leaf, node, below, held, isToken, rfl⟩
    | false =>
        exact Or.inr ⟨⟨leaf, node, below, held, isToken, noChildren⟩,
          spanOfChildless held isToken noChildren⟩
  · rintro (⟨token, node, below, held, isToken, rfl⟩ | ⟨⟨childless, node, below, held, isComposite,
      noChildren⟩, rfl⟩)
    · exact ⟨token, node, below, held, NodeShape.children_of_isToken isToken, rfl⟩
    · exact ⟨childless, node, below, held, noChildren,
        spanOfChildless held isComposite noChildren⟩

theorem isHullOf_tokenSpans (assembled : tree.Assembled) (held : tree.node? ref = some node)
    (full : ¬ tree.HoldsChildless ref) :
    node.span.IsHullOf (tree.tokenSpans ref) := by
  have same : tree.leafSpans ref = tree.tokenSpans ref := by
    ext span
    rw [assembled.mem_leafSpans_iff_token, or_iff_left fun childless => full childless.1]
  rw [← same]
  exact assembled.isHullOf_leafSpans held

/-- Whatever holds a childless composite node starts at the start of the text. -/
theorem start_eq_zero (assembled : tree.Assembled) (held : tree.node? ref = some node)
    (childless : tree.HoldsChildless ref) :
    node.span.start = 0 := by
  have isLeaf : ({} : Span) ∈ tree.leafSpans ref :=
    assembled.mem_leafSpans_iff_token.mpr (Or.inr ⟨childless, rfl⟩)
  have bound : node.span.start ≤ 0 :=
    (assembled.isHullOf_leafSpans held).start.2 ⟨_, isLeaf, rfl⟩
  exact UInt32.le_antisymm bound UInt32.zero_le

theorem isGreatest_stop (assembled : tree.Assembled) (held : tree.node? ref = some node)
    (token : (tree.tokenSpans ref).Nonempty) :
    IsGreatest (Span.stop '' tree.tokenSpans ref) node.span.stop := by
  obtain ⟨⟨span, isLeaf, sameStop⟩, bound⟩ := (assembled.isHullOf_leafSpans held).stop
  constructor
  · rcases assembled.mem_leafSpans_iff_token.mp isLeaf with isToken | ⟨_, rfl⟩
    · exact ⟨span, isToken, sameStop⟩
    · -- Nothing is beyond the start of the text, and that is where all tokens end.
      obtain ⟨other, isToken⟩ := token
      have notAfter : other.stop ≤ node.span.stop :=
        bound ⟨other, assembled.mem_leafSpans_iff_token.mpr (Or.inl isToken), rfl⟩
      rw [← sameStop] at notAfter ⊢
      exact ⟨other, isToken, UInt32.le_antisymm notAfter UInt32.zero_le⟩
  · rintro stop ⟨other, isToken, rfl⟩
    exact bound ⟨other, assembled.mem_leafSpans_iff_token.mpr (Or.inl isToken), rfl⟩

theorem isHullOf_tokenSpans_iff (assembled : tree.Assembled) (held : tree.node? ref = some node)
    (token : (tree.tokenSpans ref).Nonempty) :
    node.span.IsHullOf (tree.tokenSpans ref) ↔
      ¬ tree.HoldsChildless ref ∨ 0 ∈ Span.start '' tree.tokenSpans ref := by
  constructor
  · intro isHull
    by_cases childless : tree.HoldsChildless ref
    · rw [← assembled.start_eq_zero held childless]
      exact Or.inr isHull.start.1
    · exact Or.inl childless
  · intro cause
    by_cases childless : tree.HoldsChildless ref
    · have atZero := cause.resolve_left (not_not_intro childless)
      refine ⟨?_, assembled.isGreatest_stop held token⟩
      rw [assembled.start_eq_zero held childless]
      exact ⟨atZero, fun _ _ => UInt32.zero_le⟩
    · exact assembled.isHullOf_tokenSpans held childless

end Assembled

end Tree

/-! ## Building programs step by step -/

/-- What is added to a program. -/
inductive BuildStep where
  | identifier (text : String) (start : UInt32)
  | undefined (start : UInt32)
  | numeral (span : Span)
  | call (callee : NodeRef) (arguments : List NodeRef)
  | construction (callee : NodeRef) (arguments : List NodeRef)
  | member (object key : NodeRef)
  | forOf (initializer iterable body : NodeRef)
  | declaration (kind : NodeKind) (name : NodeRef) (parts : List NodeRef)
  | group (kind : NodeKind) (parts : List NodeRef)
  | sourceFile (statements : List NodeRef)
deriving DecidableEq, Repr

namespace BuildStep

/-- The nodes that have to be there before. -/
def children : BuildStep → List NodeRef
  | identifier .. | undefined _ | numeral _ => []
  | call callee arguments | construction callee arguments =>
    (NodeShape.call callee arguments).children
  | member object key => (NodeShape.member object key).children
  | forOf initializer iterable body => (NodeShape.forOf initializer iterable body).children
  | declaration _ name parts => (NodeShape.declaration name parts).children
  | group _ parts | sourceFile parts => (NodeShape.group parts).children

def perform (program : Program) : BuildStep → Program
  | identifier text start => (program.addIdentifier text start).2
  | undefined start => (program.addUndefined start).2
  | numeral span => (program.addNumeral span).2
  | call callee arguments => (program.addCall callee arguments).2
  | construction callee arguments => (program.addConstruction callee arguments).2
  | member object key => (program.addMember object key).2
  | forOf initializer iterable body => (program.addForOf initializer iterable body).2
  | declaration kind name parts => (program.addDeclaration kind name parts).2
  | group kind parts => (program.addGroup kind parts).2
  | sourceFile statements => (program.addSourceFile statements).2

theorem assembled_perform {program : Program} (step : BuildStep)
    (assembled : program.tree.Assembled)
    (exist : ∀ child ∈ step.children, (program.tree.node? child).isSome = true) :
    (step.perform program).tree.Assembled := by
  cases step with
  | identifier | undefined | numeral =>
      exact .token assembled rfl rfl
  | call | construction | member | forOf | group | sourceFile =>
      exact .composite assembled _ rfl exist
  | declaration kind =>
      exact .composite assembled kind rfl exist

end BuildStep

namespace Program

def build (program : Program) (steps : List BuildStep) : Program :=
  steps.foldl BuildStep.perform program

/-- Each step finds its children in the program. -/
def canBuild (program : Program) : List BuildStep → Bool
  | [] => true
  | step :: rest =>
    step.children.all (fun child => (program.tree.node? child).isSome) &&
      (step.perform program).canBuild rest

theorem assembled_build {program : Program} {steps : List BuildStep}
    (assembled : program.tree.Assembled) (allowed : program.canBuild steps = true) :
    (program.build steps).tree.Assembled := by
  induction steps generalizing program with
  | nil =>
      exact assembled
  | cons step rest inductionHypothesis =>
      rw [canBuild, Bool.and_eq_true, List.all_eq_true] at allowed
      exact inductionHypothesis (step.assembled_perform assembled allowed.1) allowed.2

/-- In a program that is built from the leaves, a node with tokens below it stops where the last of
them stops. It starts where the first of them starts exactly if there is no childless composite node
below it, or a token at the start of the text; otherwise it starts at the start of the text. -/
theorem span_isHullOf_iff (fileName : String) (steps : List BuildStep)
    (allowed : canBuild { fileName } steps = true) :
    ∀ ref node, (build { fileName } steps).tree.node? ref = some node →
      ((build { fileName } steps).tree.tokenSpans ref).Nonempty →
        (node.span.IsHullOf ((build { fileName } steps).tree.tokenSpans ref) ↔
          ¬ (build { fileName } steps).tree.HoldsChildless ref ∨
            0 ∈ Span.start '' (build { fileName } steps).tree.tokenSpans ref) ∧
        IsGreatest (Span.stop '' (build { fileName } steps).tree.tokenSpans ref) node.span.stop ∧
        ((build { fileName } steps).tree.HoldsChildless ref → node.span.start = 0) := by
  intro ref node held token
  have assembled : (build { fileName } steps).tree.Assembled := assembled_build .empty allowed
  exact ⟨assembled.isHullOf_tokenSpans_iff held token, assembled.isGreatest_stop held token,
    assembled.start_eq_zero held⟩

/-! ## An empty block before a name -/

/-- An empty block (0), a statement (2) that consists of a name (1), and a file (3) with both. -/
def emptyBlockFirst : List BuildStep :=
  [.group .block [],
    .identifier "x" 5,
    .group .expressionStatement [.node 1],
    .sourceFile [.node 0, .node 2]]

def blockBeforeName : Program :=
  build { fileName := "main.ts" } emptyBlockFirst

theorem canBuild_emptyBlockFirst : canBuild { fileName := "main.ts" } emptyBlockFirst = true := by
  decide +kernel

theorem node?_blockBeforeName :
    blockBeforeName.tree.node? (.node 3) =
      some { kind := .sourceFile, span := { start := 0, stop := 6 },
             shape := .group [.node 0, .node 2] } := by
  decide +kernel

theorem nonempty_tokenSpans_blockBeforeName :
    (blockBeforeName.tree.tokenSpans (.node 3)).Nonempty := by
  have statement : blockBeforeName.tree.node? (.node 2) =
      some { kind := .expressionStatement, span := { start := 5, stop := 6 },
             shape := .group [.node 1], parent := .node 3 } := by
    decide +kernel
  have name : blockBeforeName.tree.node? (.node 1) =
      some { kind := .identifier, span := { start := 5, stop := 6 },
             shape := .identifier { text := "x" }, parent := .node 2 } := by
    decide +kernel
  have belowFile : blockBeforeName.tree.Below (.node 3) (.node 2) :=
    .of_child node?_blockBeforeName (by decide)
  have belowStatement : blockBeforeName.tree.Below (.node 2) (.node 1) :=
    .of_child statement (by decide)
  exact ⟨_, .node 1, _, belowFile.trans belowStatement, name, rfl, rfl⟩

theorem zero_notMem_blockBeforeName :
    0 ∉ Span.start '' blockBeforeName.tree.tokenSpans (.node 3) := by
  have later : ∀ node ∈ blockBeforeName.tree.nodes, node.shape.isToken = true →
      node.span.start ≠ 0 := by
    decide +kernel
  rintro ⟨span, ⟨token, node, _, held, isToken, rfl⟩, atZero⟩
  exact later node (Tree.mem_nodes_of_node? held) isToken atZero

/-- The file starts before its only token. -/
theorem not_span_isHullOf :
    ¬ ∀ (fileName : String) (steps : List BuildStep), canBuild { fileName } steps = true →
      ∀ ref node, (build { fileName } steps).tree.node? ref = some node →
        node.shape.isToken = false →
          ((build { fileName } steps).tree.tokenSpans ref).Nonempty →
            node.span.IsHullOf ((build { fileName } steps).tree.tokenSpans ref) := by
  intro isHullOf
  have isHull := isHullOf "main.ts" emptyBlockFirst canBuild_emptyBlockFirst (.node 3) _
    node?_blockBeforeName rfl nonempty_tokenSpans_blockBeforeName
  exact zero_notMem_blockBeforeName isHull.start.1

theorem span_isHullOf_iff_blockBeforeName :
    canBuild { fileName := "main.ts" } emptyBlockFirst = true ∧
      blockBeforeName.tree.node? (.node 3) =
        some { kind := .sourceFile, span := { start := 0, stop := 6 },
               shape := .group [.node 0, .node 2] } ∧
      (blockBeforeName.tree.tokenSpans (.node 3)).Nonempty ∧
      blockBeforeName.tree.HoldsChildless (.node 3) ∧
      IsGreatest (Span.stop '' blockBeforeName.tree.tokenSpans (.node 3)) 6 ∧
      ¬ Span.IsHullOf { start := 0, stop := 6 } (blockBeforeName.tree.tokenSpans (.node 3)) := by
  have childless : blockBeforeName.tree.HoldsChildless (.node 3) :=
    ⟨.node 0, _, .of_child node?_blockBeforeName (by decide), rfl, rfl, rfl⟩
  obtain ⟨isHullIff, stop, _⟩ :=
    span_isHullOf_iff "main.ts" emptyBlockFirst canBuild_emptyBlockFirst (.node 3) _
      node?_blockBeforeName nonempty_tokenSpans_blockBeforeName
  refine ⟨canBuild_emptyBlockFirst, node?_blockBeforeName, nonempty_tokenSpans_blockBeforeName,
    childless, stop, fun isHull => ?_⟩
  rcases isHullIff.mp isHull with full | atZero
  · exact full childless
  · exact zero_notMem_blockBeforeName atZero

end Program

end NameLowering
