import Solo.Store.Writer

/-!
# The derived tables (`migrations/0001` to `0018`)

What the steward derives from memories: clusters and their members, abstractions, triples and the
contradictions between them, the review queue of the quality gate, the relationship graph (entities,
edges and the evidence of an edge) and the claims. `UNIQUE` constraints are the `Keyed` instances,
the `CHECK` that ties an edge's object columns to `object_kind` is the type `EdgeObject`. The
columns kept are those some command reads.
-/

namespace Solo

abbrev ClusterId := String
abbrev TripleId := String
abbrev ReviewId := String
abbrev ClaimId := String
abbrev EntityId := String

inductive ObjectKind
  | entity | literal
  deriving DecidableEq, Repr

def ObjectKind.asStr : ObjectKind → String
  | .entity => "entity"
  | .literal => "literal"

inductive TripleStatus
  | active | superseded | forgotten
  deriving DecidableEq, Repr

/-- `MemoryQualityReviewStatus`. -/
inductive ReviewStatus
  | needsReview | approved | dismissed | rewritten
  deriving DecidableEq, Repr

def ReviewStatus.asStr : ReviewStatus → String
  | .needsReview => "needs_review"
  | .approved => "approved"
  | .dismissed => "dismissed"
  | .rewritten => "rewritten"

inductive ClaimStatus
  | candidate | active | needsReview | rejected | quarantined | superseded
  deriving DecidableEq, Repr

def ClaimStatus.asStr : ClaimStatus → String
  | .candidate => "candidate"
  | .active => "active"
  | .needsReview => "needs_review"
  | .rejected => "rejected"
  | .quarantined => "quarantined"
  | .superseded => "superseded"

inductive ClaimSource
  | stewardTriple | legacyReview | legacyTriple | qualityRepair
  deriving DecidableEq, Repr

inductive EntityStatus
  | candidate | active | merged | superseded | rejected | forgotten
  deriving DecidableEq, Repr

inductive EdgeStatus
  | candidate | active | superseded | contradicted | rejected
  deriving DecidableEq, Repr

inductive ContradictionKind
  | overlappingSingleValuedPredicate | directNegation | numericInconsistency | other
  deriving DecidableEq, Repr

structure Provenance where
  derivedFrom : List MemoryId
  derivation : String
  byAgent : String
  atMs : Int
  deriving DecidableEq

structure ClusterRow where
  clusterId : ClusterId
  centroid : Option Embedding
  coherence : Float32
  createdAtMs : Int
  deriving DecidableEq

instance : Keyed ClusterRow where
  clash a b := a.clusterId = b.clusterId
  clash_comm a b := by simp [eq_comm]

structure ClusterEpisodeRow where
  clusterId : ClusterId
  memoryId : MemoryId
  deriving DecidableEq

instance : Keyed ClusterEpisodeRow where
  clash a b := a = b
  clash_comm a b := by simp [eq_comm]

structure AbstractionRow where
  abstractionId : String
  clusterId : ClusterId
  content : String
  provenance : Provenance
  confidence : Float32
  deriving DecidableEq

instance : Keyed AbstractionRow where
  clash a b := a.abstractionId = b.abstractionId
  clash_comm a b := by simp [eq_comm]

structure TripleRow where
  tripleId : TripleId
  subjectId : String
  predicate : String
  objectId : String
  objectKind : ObjectKind
  validFromMs : Int
  validToMs : Option Int
  confidence : Float32
  provenance : Provenance
  status : TripleStatus
  createdAtMs : Int
  clusterId : Option ClusterId
  sourceEpisodeId : Option Rowid
  deriving DecidableEq

instance : Keyed TripleRow where
  clash a b := a.tripleId = b.tripleId
  clash_comm a b := by simp [eq_comm]

structure ContradictionRow where
  aMemoryId : TripleId
  bMemoryId : TripleId
  kind : ContradictionKind
  deriving DecidableEq

instance : Keyed ContradictionRow where
  clash a b := a = b
  clash_comm a b := by simp [eq_comm]

structure ReviewRow where
  reviewId : ReviewId
  candidateFingerprint : String
  tripleId : Option TripleId
  clusterId : Option ClusterId
  sourceEpisodeId : Option Rowid
  subjectId : String
  predicate : String
  objectId : String
  objectKind : ObjectKind
  confidence : Float32
  reasonCode : String
  reason : String
  provenance : Provenance
  status : ReviewStatus
  createdAtMs : Int
  deriving DecidableEq

instance : Keyed ReviewRow where
  clash a b := a.reviewId = b.reviewId || a.candidateFingerprint = b.candidateFingerprint
  clash_comm a b := by simp [eq_comm]

structure EntityRow where
  entityId : EntityId
  status : EntityStatus
  deriving DecidableEq

instance : Keyed EntityRow where
  clash a b := a.entityId = b.entityId
  clash_comm a b := by simp [eq_comm]

/-- `object_kind` with the one object column that is not null. -/
inductive EdgeObject
  | entity (id : EntityId)
  | literal (text : String)
  deriving DecidableEq

structure EdgeRow where
  edgeId : TripleId
  subjectEntityId : EntityId
  predicate : String
  object : EdgeObject
  validFromMs : Int
  validToMs : Option Int
  confidence : Float32
  strength : Float32
  evidenceCount : Nat
  status : EdgeStatus
  deriving DecidableEq

instance : Keyed EdgeRow where
  clash a b := a.edgeId = b.edgeId
  clash_comm a b := by simp [eq_comm]

structure EvidenceRow where
  evidenceId : String
  edgeId : TripleId
  tripleId : TripleId
  memoryId : Option MemoryId
  sourceEpisodeId : Option Rowid
  clusterId : Option ClusterId
  extractionConfidence : Float32
  docId : Option DocumentId
  chunkId : Option ChunkId
  deriving DecidableEq

instance : Keyed EvidenceRow where
  clash a b := a.evidenceId = b.evidenceId || a.tripleId = b.tripleId
  clash_comm a b := by simp [eq_comm]

structure ClaimRow where
  claimId : ClaimId
  candidateFingerprint : String
  tripleId : Option TripleId
  reviewId : Option ReviewId
  subjectId : String
  predicate : String
  objectId : String
  objectKind : ObjectKind
  sourceType : ClaimSource
  clusterId : Option ClusterId
  sourceEpisodeId : Option Rowid
  confidence : Float32
  status : ClaimStatus
  reasonCodes : List String
  userApproved : Bool
  docId : Option DocumentId
  chunkId : Option ChunkId
  deriving DecidableEq

instance : Keyed ClaimRow where
  clash a b := a.claimId = b.claimId || a.candidateFingerprint = b.candidateFingerprint
  clash_comm a b := by simp [eq_comm]

structure Derived where
  clusters : Table ClusterRow
  clusterEpisodes : Table ClusterEpisodeRow
  semanticAbstractions : Table AbstractionRow
  triples : Table TripleRow
  contradictions : Table ContradictionRow
  tripleReviews : Table ReviewRow
  entities : Table EntityRow
  relationshipEdges : Table EdgeRow
  relationshipEvidence : Table EvidenceRow
  memoryClaims : Table ClaimRow

namespace Derived

def empty : Derived :=
  ⟨.empty, .empty, .empty, .empty, .empty, .empty, .empty, .empty, .empty, .empty⟩

def review? (d : Derived) (id : ReviewId) : Option ReviewRow :=
  d.tripleReviews.find? (·.reviewId = id)

theorem triple_eq {d : Derived} {t t' : TripleRow} (ht : t ∈ d.triples) (ht' : t' ∈ d.triples)
    (h : t.tripleId = t'.tripleId) : t = t' :=
  Table.eq_of_clash ht ht' (by simp [Keyed.clash, h])

theorem edge_eq {d : Derived} {e e' : EdgeRow} (he : e ∈ d.relationshipEdges)
    (he' : e' ∈ d.relationshipEdges) (h : e.edgeId = e'.edgeId) : e = e' :=
  Table.eq_of_clash he he' (by simp [Keyed.clash, h])

end Derived

end Solo
