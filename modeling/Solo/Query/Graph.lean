import Mathlib.Algebra.Field.Defs
import Mathlib.Data.Prod.Lex
import Mathlib.Data.String.Basic
import Mathlib.Order.Nat
import Solo.Derived.Schema
import Solo.Lib.Occurrences
import Solo.Lib.StableSort

/-!
# The relationship graph, as it is searched for paths

The rows of `relationship_edges` with their evidence, and what both path searches select of them:
the active edges between entities, and the evidence of an edge that is shown with it. The numbers
are those of any ordered field, with the two functions of `f32` that scores use as a parameter.
-/

namespace Solo.Graph

open StableSort Occurrences

/-- `f32::ln_1p` and `f32::powf` -/
structure Powers (K : Type) where
  ln1p : K → K
  powf : K → K → K

/-- A row of `relationship_edges`. -/
structure RelationshipEdge (K : Type) where
  edgeId : String
  subjectEntityId : EntityId
  predicate : String
  object : EdgeObject
  validFromMs : ℤ
  validToMs : Option ℤ
  confidence : K
  strength : K
  evidenceCount : ℤ
  status : EdgeStatus
  updatedAtMs : ℤ

/-- A row of `relationship_evidence`. -/
structure RelationshipEvidence (K : Type) where
  evidenceId : String
  edgeId : String
  memoryId : Option String
  sourceEpisodeId : Option I64
  extractionConfidence : K
  createdAtMs : ℤ

/-- A row of `episodes`. -/
structure EpisodeRow where
  rowid : I64
  memoryId : String
  status : String

structure Tables (K : Type) where
  edges : List (RelationshipEdge K)
  evidence : List (RelationshipEvidence K)
  episodes : List EpisodeRow
  edge_unique : (edges.map (·.edgeId)).Nodup

/-- An active edge between entities. -/
structure EntityEdge (K : Type) where
  edgeId : String
  source : EntityId
  target : EntityId
  predicate : String
  confidence : K
  strength : K
  evidenceCount : ℤ
  validFromMs : ℤ
  validToMs : Option ℤ
  updatedAtMs : ℤ

variable {K : Type}

/-- `status = 'active' AND object_kind = 'entity'` -/
def RelationshipEdge.entityEdge? (e : RelationshipEdge K) : Option (EntityEdge K) :=
  if e.status = .active then
    match e.object with
    | .entity id =>
      some ⟨e.edgeId, e.subjectEntityId, id, e.predicate, e.confidence, e.strength, e.evidenceCount,
        e.validFromMs, e.validToMs, e.updatedAtMs⟩
    | .literal _ => none
  else none

namespace Tables

def entityEdges (t : Tables K) : List (EntityEdge K) :=
  t.edges.filterMap RelationshipEdge.entityEdge?

/-- The pairs that a self-join of `entityEdges` yields under a condition. -/
def joined (t : Tables K) (p : EntityEdge K → EntityEdge K → Bool) :
    List (EntityEdge K × EntityEdge K) :=
  t.entityEdges.flatMap fun a => (t.entityEdges.filter (p a)).map fun b => (a, b)

/-- The evidence of an edge by extraction confidence, then age, then id. -/
def evidenceOf [LinearOrder K] (t : Tables K) (edgeId : String) : Option (RelationshipEvidence K) :=
  (sortByKey (fun ev : RelationshipEvidence K =>
      (toLex (OrderDual.toDual ev.extractionConfidence,
        toLex (OrderDual.toDual ev.createdAtMs, ev.evidenceId)) : Kᵒᵈ ×ₗ ℤᵒᵈ ×ₗ String))
    (t.evidence.filter (·.edgeId = edgeId))).head?

/-- The active edge with an id says what its row does. -/
structure Backs (t : Tables K) (e : EntityEdge K) : Prop where
  row : ∃ r ∈ t.edges, r.edgeId = e.edgeId ∧ r.status = .active ∧ r.subjectEntityId = e.source ∧
    r.object = .entity e.target ∧ r.predicate = e.predicate

variable {t : Tables K}

theorem mem_entityEdges {e : EntityEdge K} (h : e ∈ t.entityEdges) : t.Backs e := by
  obtain ⟨r, hr, hsome⟩ := List.mem_filterMap.1 h
  unfold RelationshipEdge.entityEdge? at hsome
  split at hsome
  · next hactive =>
    cases hobject : r.object with
    | entity id =>
      rw [hobject] at hsome
      obtain rfl := Option.some.inj hsome
      exact ⟨r, hr, rfl, hactive, rfl, hobject, rfl⟩
    | literal text =>
      rw [hobject] at hsome
      cases hsome
  · cases hsome

theorem edgeId_of_entityEdge {r : RelationshipEdge K} {e : EntityEdge K}
    (h : r.entityEdge? = some e) : e.edgeId = r.edgeId := by
  unfold RelationshipEdge.entityEdge? at h
  split at h
  · cases hobject : r.object with
    | entity id =>
      rw [hobject] at h
      obtain rfl := Option.some.inj h
      rfl
    | literal text =>
      rw [hobject] at h
      cases h
  · cases h

theorem entityEdges_unique (t : Tables K) : (t.entityEdges.map (·.edgeId)).Nodup := by
  have hsub : (t.entityEdges.map (·.edgeId)).Sublist (t.edges.map (·.edgeId)) := by
    unfold entityEdges
    induction t.edges with
    | nil => exact .slnil
    | cons r rows ih =>
      rw [List.filterMap_cons]
      cases hedge : r.entityEdge? with
      | none => exact ih.cons _
      | some e =>
        dsimp only
        rw [List.map_cons, List.map_cons, edgeId_of_entityEdge hedge]
        exact ih.cons_cons _
  exact t.edge_unique.sublist hsub

theorem nodup_entityEdges (t : Tables K) : t.entityEdges.Nodup := t.entityEdges_unique.of_map _

theorem eq_of_edgeId {a b : EntityEdge K} (ha : a ∈ t.entityEdges) (hb : b ∈ t.entityEdges)
    (h : a.edgeId = b.edgeId) : a = b := List.inj_on_of_nodup_map t.entityEdges_unique ha hb h

theorem mem_joined {p : EntityEdge K → EntityEdge K → Bool} {ab : EntityEdge K × EntityEdge K} :
    ab ∈ t.joined p ↔ ab.1 ∈ t.entityEdges ∧ ab.2 ∈ t.entityEdges ∧ p ab.1 ab.2 = true := by
  unfold joined
  rw [List.mem_flatMap]
  constructor
  · rintro ⟨a, ha, hab⟩
    obtain ⟨b, hb, rfl⟩ := List.mem_map.1 hab
    obtain ⟨hb, hp⟩ := List.mem_filter.1 hb
    exact ⟨ha, hb, hp⟩
  · rintro ⟨ha, hb, hp⟩
    exact ⟨ab.1, ha, List.mem_map.2 ⟨ab.2, List.mem_filter.2 ⟨hb, hp⟩, rfl⟩⟩

theorem nodup_joined (p : EntityEdge K → EntityEdge K → Bool) : (t.joined p).Nodup := by
  unfold joined
  rw [List.nodup_flatMap]
  refine ⟨fun a _ => (t.nodup_entityEdges.filter _).map fun b b' h => (Prod.ext_iff.1 h).2, ?_⟩
  refine t.nodup_entityEdges.imp fun {a a'} hne => List.disjoint_left.2 fun ab h h' => hne ?_
  obtain ⟨b, -, rfl⟩ := List.mem_map.1 h
  obtain ⟨b', -, heq⟩ := List.mem_map.1 h'
  exact (Prod.ext_iff.1 heq).1.symm

end Tables

end Solo.Graph
