import Solo.Derived.Quality
import Solo.Derived.Statements

/-!
# Writing facts and candidates (`triple_quality.rs`)

An active triple goes into `triples`, the relationship graph and the claims; a candidate for review
goes into the claims and the review queue.
-/

namespace Solo

def ActiveTriple.edge (t : ActiveTriple) : EdgeRow :=
  ⟨t.tripleId, t.subjectId, t.predicate, .ofKind t.objectKind t.objectId, t.validFromMs,
    t.validToMs, t.confidence, t.confidence, 0, .active⟩

@[simp] theorem ActiveTriple.edge_edgeId (t : ActiveTriple) : t.edge.edgeId = t.tripleId := rfl

def ActiveTriple.row (t : ActiveTriple) (nowMs : Int) (clusterId : Option ClusterId)
    (sourceEpisodeId : Option Rowid) (provenance : Provenance) : TripleRow :=
  ⟨t.tripleId, t.subjectId, t.predicate, t.objectId, t.objectKind, t.validFromMs, t.validToMs,
    t.confidence, provenance, .active, nowMs, clusterId, sourceEpisodeId⟩

/-- `active_claim_fingerprint`. -/
def activeClaimFingerprint (t : ActiveTriple) : String :=
  Text.fnv1a64Hex
    s!"active|{t.tripleId}|{t.subjectId}|{t.predicate}|{t.objectId}|{t.objectKind.asStr}"

def TripleQualityDecision.claimFingerprint : TripleQualityDecision → String
  | .active x => activeClaimFingerprint x
  | .review r => r.candidateFingerprint

def ActiveTriple.claim (t : ActiveTriple) (clusterId : Option ClusterId)
    (sourceEpisodeId : Option Rowid) :
    ClaimRow :=
  ⟨s!"mc-{activeClaimFingerprint t}", activeClaimFingerprint t, some t.tripleId, none, t.subjectId,
    t.predicate,
    t.objectId, t.objectKind, .stewardTriple, clusterId, sourceEpisodeId, t.confidence, .active,
    ["confidence_floor_met", "durable_subject", "useful_predicate",
      if t.objectKind = .entity then "entity_relationship" else "literal_fact", "activated"], false,
        none, none⟩

def TripleReviewCandidate.claim (c : TripleReviewCandidate) : ClaimRow :=
  let status := claimStatusForReviewReason c.reasonCode
  ⟨s!"mc-{c.candidateFingerprint}", c.candidateFingerprint, some c.tripleId, some c.reviewId,
    c.subjectId,
    c.predicate, c.objectId, c.objectKind, .stewardTriple, some c.clusterId, c.sourceEpisodeId,
    c.confidence, status,
    [c.reasonCode, status.asStr, "quality_gate", "not_activated"], false, none, none⟩

def TripleReviewCandidate.row (c : TripleReviewCandidate) (nowMs : Int) : ReviewRow :=
  ⟨c.reviewId, c.candidateFingerprint, some c.tripleId, some c.clusterId, c.sourceEpisodeId,
    c.subjectId, c.predicate,
    c.objectId, c.objectKind, c.confidence, c.reasonCode, c.reason, c.provenance, .needsReview,
      nowMs⟩

namespace Derived

/-- `upsert_entity_in_tx`. -/
def upsertEntity (d : Derived) (id : EntityId) : Option Derived :=
  if id.isEmpty then some d
  else do
    let entities ← d.entities.upsert? ⟨id, .active⟩ (·.entityId = id) fun old =>
      { old with status := if old.status = .candidate then .active else old.status }
    return { d with entities := entities }

/-- `upsert_entities_for_active_triple_in_tx`. -/
def upsertEntitiesForActiveTriple (d : Derived) (t : ActiveTriple) : Option Derived := do
  let d ← d.upsertEntity t.subjectId
  match t.objectAlias with
  | some _ => d.upsertEntity t.objectId
  | none => some d

/-- `upsert_relationship_edge_for_active_triple_in_tx`. -/
def upsertRelationshipEdge (s : Store) (d : Derived) (t : ActiveTriple)
    (clusterId : Option ClusterId) (sourceEpisodeId : Option Rowid) : Option Derived := do
  let d ← d.upsertEdge t.edge
  let memoryId := sourceEpisodeId.bind fun r => (s.episodes.find? (·.rowid = r)).map (·.memoryId)
  d.upsertEvidence s ⟨t.tripleId, t.tripleId, t.tripleId, memoryId, sourceEpisodeId, clusterId,
    t.confidence,
    none, none⟩

/-- `upsert_graph_for_active_triple_in_tx`. -/
def upsertGraphForActiveTriple (s : Store) (d : Derived) (t : ActiveTriple)
    (clusterId : Option ClusterId) (sourceEpisodeId : Option Rowid) : Option Derived := do
  let d ← d.upsertEntitiesForActiveTriple t
  d.upsertRelationshipEdge s t clusterId sourceEpisodeId

/-- `INSERT INTO memory_claims ... ON CONFLICT(candidate_fingerprint) DO UPDATE SET f`. -/
def upsertClaim (s : Store) (d : Derived) (c : ClaimRow) (f : ClaimRow → ClaimRow)
    (hf : ∀ a b, Keyed.clash (f a) b = Keyed.clash a b := by intros; rfl) : Option Derived := do
  guard (s.episodeRef c.sourceEpisodeId)
  let claims ← d.memoryClaims.upsert? c (·.candidateFingerprint = c.candidateFingerprint) f hf
  return { d with memoryClaims := claims }

/-- `insert_memory_claim_for_active_triple_in_tx`. -/
def insertMemoryClaimForActiveTriple (s : Store) (d : Derived) (t : ActiveTriple)
    (clusterId : Option ClusterId) (sourceEpisodeId : Option Rowid) : Option Derived :=
  let c := t.claim clusterId sourceEpisodeId
  d.upsertClaim s c fun old =>
    { c with claimId := old.claimId, candidateFingerprint := old.candidateFingerprint, sourceType := old.sourceType,
             userApproved := old.userApproved, docId := old.docId, chunkId := old.chunkId }

/-- `insert_memory_claim_for_review_candidate_in_tx`. -/
def insertMemoryClaimForReviewCandidate (s : Store) (d : Derived) (c : TripleReviewCandidate) :
    Option Derived :=
  d.upsertClaim s c.claim fun old =>
    { c.claim with claimId := old.claimId, candidateFingerprint := old.candidateFingerprint,
                   sourceType := old.sourceType, userApproved := old.userApproved
                   docId := old.docId, chunkId := old.chunkId
                   status := if old.userApproved then old.status else c.claim.status }

/-- `insert_active_triple_with_optional_cluster_in_tx`. -/
def insertActiveTriple (s : Store) (nowMs : Int) (d : Derived) (t : ActiveTriple)
    (clusterId : Option ClusterId)
    (sourceEpisodeId : Option Rowid) (provenance : Provenance) : Option Derived := do
  let d ← d.upsertEntitiesForActiveTriple t
  let d ← d.insertTriple s (t.row nowMs clusterId sourceEpisodeId provenance)
  let d ← d.upsertRelationshipEdge s t clusterId sourceEpisodeId
  d.insertMemoryClaimForActiveTriple s t clusterId sourceEpisodeId

/-- `INSERT INTO triple_reviews ... ON CONFLICT(candidate_fingerprint) DO UPDATE SET f`. -/
def upsertReview (s : Store) (d : Derived) (r : ReviewRow) (f : ReviewRow → ReviewRow)
    (hf : ∀ a b, Keyed.clash (f a) b = Keyed.clash a b := by intros; rfl) : Option Derived := do
  guard (s.episodeRef r.sourceEpisodeId)
  let reviews ← d.tripleReviews.upsert? r (·.candidateFingerprint = r.candidateFingerprint) f hf
  return { d with tripleReviews := reviews }

/-- `insert_triple_review_in_tx`; a review that is there keeps its status. -/
def insertTripleReview (s : Store) (nowMs : Int) (d : Derived) (c : TripleReviewCandidate) :
    Option Derived := do
  let d ← d.insertMemoryClaimForReviewCandidate s c
  d.upsertReview s (c.row nowMs) fun old =>
    { c.row nowMs with reviewId := old.reviewId, candidateFingerprint := old.candidateFingerprint,
                       clusterId := old.clusterId, createdAtMs := old.createdAtMs, status := old.status }

/-! ### Which tables they leave alone -/

section Spec

variable {s : Store} {nowMs : Int} {d d' : Derived}

theorem upsertEntity_eq_some {id : EntityId} (h : d.upsertEntity id = some d') :
    ∃ entities, d' = { d with entities := entities } := by
  unfold upsertEntity at h
  split at h
  · exact ⟨d.entities, (Option.some.inj h).symm⟩
  · obtain ⟨entities, -, h⟩ := Option.bind_eq_some_iff.1 h
    exact ⟨entities, (Option.some.inj h).symm⟩

theorem upsertEntitiesForActiveTriple_eq_some {t : ActiveTriple}
    (h : d.upsertEntitiesForActiveTriple t = some d') :
    ∃ entities, d' = { d with entities := entities } := by
  obtain ⟨d₁, h₁, h⟩ := Option.bind_eq_some_iff.1 h
  obtain ⟨e₁, rfl⟩ := upsertEntity_eq_some h₁
  split at h
  · obtain ⟨e₂, rfl⟩ := upsertEntity_eq_some h
    exact ⟨e₂, rfl⟩
  · exact ⟨e₁, (Option.some.inj h).symm⟩

theorem upsertClaim_eq_some {c : ClaimRow} {f : ClaimRow → ClaimRow} {hf}
    (h : d.upsertClaim s c f hf = some d') :
    ∃ claims, d.memoryClaims.upsert? c (·.candidateFingerprint = c.candidateFingerprint) f hf =
    some claims ∧
      d' = { d with memoryClaims := claims } := by
  simp only [upsertClaim, Option.bind_eq_bind, Option.bind_eq_some_iff, Option.pure_def,
    Option.some.injEq] at h
  obtain ⟨-, -, claims, hups, rfl⟩ := h
  exact ⟨claims, hups, rfl⟩

/-- Writing a relationship touches edges and evidence only. -/
theorem upsertRelationshipEdge_eq_some {t : ActiveTriple} {c : Option ClusterId}
    {src : Option Rowid} (h : d.upsertRelationshipEdge s t c src = some d') :
    ∃ edges evidence, d' =
    { d with relationshipEdges := edges, relationshipEvidence := evidence } := by
  obtain ⟨d₁, h₁, h⟩ := Option.bind_eq_some_iff.1 h
  obtain ⟨edges, -, rfl⟩ := upsertEdge_eq_some h₁
  obtain ⟨-, ⟨-, rfl⟩ | ⟨-, evidence, -, rfl⟩⟩ := upsertEvidence_cases h
  · exact ⟨edges, _, rfl⟩
  · exact ⟨_, evidence, rfl⟩

/-- An active triple is a new row of its id, with a claim under its fingerprint. -/
theorem insertActiveTriple_eq_some {t : ActiveTriple} {c : Option ClusterId} {src : Option Rowid}
    {prov : Provenance} (h : d.insertActiveTriple s nowMs t c src prov = some d') :
    ∃ triples claims entities edges evidence,
      d.triples.insert? (t.row nowMs c src prov) = some triples ∧
      d.memoryClaims.upsert? (t.claim c src) (·.candidateFingerprint = activeClaimFingerprint t)
      (fun old =>
        { t.claim c src with claimId := old.claimId, candidateFingerprint := old.candidateFingerprint,
                             sourceType := old.sourceType, userApproved := old.userApproved
                             docId := old.docId, chunkId := old.chunkId }) = some claims ∧
      d' = { d with triples := triples, memoryClaims := claims, entities := entities, relationshipEdges := edges
                    relationshipEvidence := evidence } := by
  obtain ⟨d₁, h₁, h⟩ := Option.bind_eq_some_iff.1 h
  obtain ⟨d₂, h₂, h⟩ := Option.bind_eq_some_iff.1 h
  obtain ⟨d₃, h₃, h₄⟩ := Option.bind_eq_some_iff.1 h
  obtain ⟨entities, rfl⟩ := upsertEntitiesForActiveTriple_eq_some h₁
  obtain ⟨triples, hins, rfl⟩ := insertTriple_eq_some h₂
  obtain ⟨edges, evidence, rfl⟩ := upsertRelationshipEdge_eq_some h₃
  obtain ⟨claims, hups, rfl⟩ := upsertClaim_eq_some h₄
  exact ⟨triples, claims, entities, edges, evidence, hins, hups, rfl⟩

theorem upsertReview_eq_some {r : ReviewRow} {f : ReviewRow → ReviewRow} {hf}
    (h : d.upsertReview s r f hf = some d') :
    ∃ reviews, d.tripleReviews.upsert? r (·.candidateFingerprint = r.candidateFingerprint) f hf =
    some reviews ∧
      d' = { d with tripleReviews := reviews } := by
  simp only [upsertReview, Option.bind_eq_bind, Option.bind_eq_some_iff, Option.pure_def,
    Option.some.injEq] at h
  obtain ⟨-, -, reviews, hups, rfl⟩ := h
  exact ⟨reviews, hups, rfl⟩

theorem insertTripleReview_eq_some {c : TripleReviewCandidate}
    (h : d.insertTripleReview s nowMs c = some d') : ∃ claims reviews,
      d.memoryClaims.upsert? c.claim (·.candidateFingerprint = c.candidateFingerprint) (fun old =>
        { c.claim with claimId := old.claimId, candidateFingerprint := old.candidateFingerprint,
                       sourceType := old.sourceType, userApproved := old.userApproved
                       docId := old.docId, chunkId := old.chunkId
                       status := if old.userApproved then old.status else c.claim.status }) = some claims ∧
      d.tripleReviews.upsert? (c.row nowMs) (·.candidateFingerprint = c.candidateFingerprint)
      (fun old =>
        { c.row nowMs with reviewId := old.reviewId, candidateFingerprint := old.candidateFingerprint,
                           clusterId := old.clusterId, createdAtMs := old.createdAtMs, status := old.status }) =
        some reviews ∧
      d' = { d with memoryClaims := claims, tripleReviews := reviews } := by
  obtain ⟨d₁, h₁, h₂⟩ := Option.bind_eq_some_iff.1 h
  obtain ⟨claims, hclaims, rfl⟩ := upsertClaim_eq_some h₁
  obtain ⟨reviews, hreviews, rfl⟩ := upsertReview_eq_some h₂
  exact ⟨claims, reviews, hclaims, hreviews, rfl⟩

end Spec

end Derived

end Solo
