import NameLowering.Proofs.Walk.Itinerary
import NameLowering.Proofs.Walk.Ways

/-!
# Charts of an itinerary

A chart says which places an itinerary stops at to lower a name, and that it comes to them in
source order. Charts of single children make up the chart of their parent.
-/

namespace NameLowering

/-! ## Places -/

/-- Where an itinerary lowers a name: the way there, and the name. -/
structure Place where
  path : List Nat
  ref : NodeRef
deriving DecidableEq

def Place.under (position : Nat) (place : Place) : Place :=
  { place with path := position :: place.path }

namespace Stop

def place? (stop : Stop) : Option Place :=
  stop.event.source?.map fun ref => { path := stop.path, ref }

def places (stops : List Stop) : List Place :=
  stops.filterMap place?

theorem places_append (earlier later : List Stop) :
    places (earlier ++ later) = places earlier ++ places later :=
  List.filterMap_append

theorem places_under (position : Nat) (stops : List Stop) :
    places (stops.map (under position)) = (places stops).map (Place.under position) := by
  rw [places, places, List.filterMap_map, List.map_filterMap]
  refine congrArg (fun place => List.filterMap place stops) (funext fun stop => ?_)
  cases source : stop.event.source? <;> simp [place?, under, Place.under, source]

/-- Scopes have no places of their own. -/
theorem places_enclosed (kind : NodeKind) (ref : NodeRef) (stops : List Stop) :
    places (enclosed kind ref stops) = places stops := by
  unfold enclosed
  cases kind.scopeKind? with
  | none =>
      rfl
  | some scope =>
      have opened : place? { event := .opened scope ref } = none := rfl
      have closed : place? { event := .closed } = none := rfl
      simp [places, opened, closed]

end Stop

/-! ## Charts -/

/-- Stops lower exactly the names in a region, in source order. -/
structure Stop.Charts (stops : List Stop) (region : Place → Prop) : Prop where
  covers : ∀ place, place ∈ Stop.places stops ↔ region place
  ordered : (Stop.places stops).Pairwise fun first second => first.path < second.path

namespace Stop.Charts

variable {stops earlier later : List Stop} {region earlierRegion laterRegion : Place → Prop}
  {position : Nat}

theorem congr {sameRegion : Place → Prop} (charts : Charts stops region)
    (same : ∀ place, region place ↔ sameRegion place) :
    Charts stops sameRegion where
  covers place := (charts.covers place).trans (same place)
  ordered := charts.ordered

theorem nil : Charts [] fun _ => False where
  covers place := by simp [places]
  ordered := List.Pairwise.nil

theorem singleton {stop : Stop} {place : Place} (atPlace : stop.place? = some place) :
    Charts [stop] (· = place) where
  covers other := by simp [places, atPlace]
  ordered := by simp [places, atPlace]

theorem under (position : Nat) (charts : Charts stops region) :
    Charts (stops.map (Stop.under position)) fun place =>
      ∃ below, region below ∧ place = below.under position where
  covers place := by
    rw [places_under, List.mem_map]
    constructor
    · rintro ⟨below, member, rfl⟩
      exact ⟨below, (charts.covers below).mp member, rfl⟩
    · rintro ⟨below, inside, rfl⟩
      exact ⟨below, (charts.covers below).mpr inside, rfl⟩
  ordered := by
    rw [places_under, List.pairwise_map]
    exact charts.ordered.imp fun before => List.cons_lt_cons_self.mpr before

theorem append
    (earlierCharts : Charts earlier earlierRegion) (laterCharts : Charts later laterRegion)
    (apart : ∀ first second, earlierRegion first → laterRegion second →
      first.path < second.path) :
    Charts (earlier ++ later) fun place => earlierRegion place ∨ laterRegion place where
  covers place := by
    rw [places_append, List.mem_append, earlierCharts.covers, laterCharts.covers]
  ordered := by
    rw [places_append, List.pairwise_append]
    refine ⟨earlierCharts.ordered, laterCharts.ordered, ?_⟩
    intro first firstMember second secondMember
    exact apart first second ((earlierCharts.covers first).mp firstMember)
      ((laterCharts.covers second).mp secondMember)

theorem enclosed (kind : NodeKind) (ref : NodeRef) (charts : Charts stops region) :
    Charts (Stop.enclosed kind ref stops) region where
  covers place := by rw [places_enclosed, charts.covers]
  ordered := by rw [places_enclosed]; exact charts.ordered

end Stop.Charts

/-- The charts of several children make up one chart. -/
theorem Stop.exists_charts_joinAll
    {stopsBelow : NodeRef → Except LoweringError (List Stop)} {region : NodeRef → Place → Prop}
    {refs : List NodeRef} (position : Nat)
    (charted : ∀ ref ∈ refs, ∃ stops, stopsBelow ref = .ok stops ∧ Charts stops (region ref)) :
    ∃ stops, joinAll stopsBelow position refs = .ok stops ∧
      Charts stops fun place => ∃ index ref below,
        refs[index]? = some ref ∧ region ref below ∧ place = below.under (position + index) := by
  induction refs generalizing position with
  | nil =>
      exact ⟨[], rfl, Charts.nil.congr fun place => by simp⟩
  | cons ref rest inductionHypothesis =>
      obtain ⟨first, firstFound, firstCharts⟩ := charted ref List.mem_cons_self
      obtain ⟨later, laterFound, laterCharts⟩ :=
        inductionHypothesis (position + 1) fun other member =>
          charted other (List.mem_cons_of_mem _ member)
      refine ⟨first.map (Stop.under position) ++ later, ?_, ?_⟩
      · exact append_eq_ok_iff.mpr
          ⟨_, later, joinOne_eq_ok_iff.mpr ⟨first, firstFound, rfl⟩, laterFound, rfl⟩
      · have apart (one other : Place)
            (oneInside : ∃ below, region ref below ∧ one = below.under position)
            (otherInside : ∃ index ref below, rest[index]? = some ref ∧ region ref below ∧
              other = below.under (position + 1 + index)) :
            one.path < other.path := by
          obtain ⟨below, _, rfl⟩ := oneInside
          obtain ⟨index, _, otherBelow, _, _, rfl⟩ := otherInside
          exact List.cons_lt_cons_iff.mpr (Or.inl (by omega))
        refine ((firstCharts.under position).append laterCharts apart).congr fun place => ?_
        constructor
        · rintro (⟨below, inside, rfl⟩ | ⟨index, child, below, found, inside, rfl⟩)
          · exact ⟨0, ref, below, rfl, inside, rfl⟩
          · exact ⟨index + 1, child, below, found, inside, by rw [Nat.add_right_comm]; rfl⟩
        · rintro ⟨index, child, below, found, inside, rfl⟩
          cases index with
          | zero =>
              obtain rfl := Option.some.inj found
              exact Or.inl ⟨below, inside, rfl⟩
          | succ index =>
              exact Or.inr ⟨index, child, below, found, inside, by
                rw [Nat.add_right_comm]; rfl⟩

end NameLowering
