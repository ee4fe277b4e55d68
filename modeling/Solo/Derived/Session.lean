import Solo.Derived.Consolidate
import Solo.Derived.Repair
import Solo.Lib.Run

/-!
# Sessions over the derived tables

A session starts from a migrated database and runs the commands that write derived tables. Episodes
and embeddings are not written by any of them. The clock, fresh ids and hash orders are part of an
event, as is what the writer was started with. A command that fails leaves what it had committed,
which is nothing except for a consolidation that fails in its second transaction.
-/

namespace Solo

inductive DerivedCommand
  | attachAbstractionBatch (clustersDeferred : Nat) (items : List (ClusterId × SemanticAbstraction))
  | updateMemoryQualityReview (update : ReviewUpdate)
  | repairDerived (scope : RepairScope)
  | normalizeSubjects (aliases : List (String × String)) (dryRun : Bool)
  | consolidate (env : ConsolidateEnv) (hash : HashOrder) (scope : ConsolidationScope)

structure DerivedEvent where
  nowMs : Int
  newId : Nat → String
  command : DerivedCommand

namespace Derived

/-- The tables a transaction leaves. -/
def committed {α : Type} (d : Derived) (r : Except Error (Derived × α)) : Derived :=
  match r with
  | .ok (d', _) => d'
  | .error _ => d

def step (s : Store) (d : Derived) (e : DerivedEvent) : Derived :=
  match e.command with
  | .attachAbstractionBatch deferred items =>
    d.committed (handleAttachAbstractionBatch s e.nowMs deferred d items)
  | .updateMemoryQualityReview u =>
    d.committed (handleMemoryQualityReviewUpdate s e.nowMs e.newId d u)
  | .repairDerived scope => d.committed (handleRepairDerived s e.nowMs d scope)
  | .normalizeSubjects aliases dryRun => (handleNormalizeSubjects d aliases dryRun).1
  | .consolidate env hash scope => (handleConsolidate env s e.nowMs hash e.newId d scope).1

/-! ### Migration -/

def activeTriples (d : Derived) : List TripleRow := d.triples.rows.filter (·.status = .active)

/-- The entities of an active triple. -/
def tripleEntities (t : TripleRow) : List EntityId :=
  t.subjectId :: (if t.objectKind = .entity then [t.objectId] else [])

def backfillEdge (t : TripleRow) : EdgeRow :=
  ⟨t.tripleId, t.subjectId, t.predicate, .ofKind t.objectKind t.objectId, t.validFromMs,
    t.validToMs, t.confidence, t.confidence, 0, .active⟩

def backfillEvidence (s : Store) (t : TripleRow) : EvidenceRow :=
  ⟨t.tripleId, t.tripleId, t.tripleId,
    t.sourceEpisodeId.bind fun r => (s.episodes.find? (·.rowid = r)).map (·.memoryId),
    t.sourceEpisodeId, t.clusterId, t.confidence, none, none⟩

def backfillEdges (d : Derived) : Table EdgeRow :=
  (d.activeTriples.map backfillEdge).foldl .insertOrIgnore .empty

/-- `INSERT OR IGNORE INTO relationship_evidence`, with the insert trigger. -/
def insertOrIgnoreEvidence (d : Derived) (v : EvidenceRow) : Derived :=
  match d.relationshipEvidence.insert? v with
  | some evidence => { d with relationshipEvidence := evidence }.recount v.edgeId
  | none => d

/-- Migration `0017`: the graph tables, filled from the active triples. -/
def migrateGraph (s : Store) (d : Derived) : Derived :=
  let entities := (d.activeTriples.flatMap tripleEntities).map fun id => EntityRow.mk id .active
  d.activeTriples.foldl (fun d t => d.insertOrIgnoreEvidence (backfillEvidence s t))
    { d with
      entities := entities.foldl .insertOrIgnore .empty
      relationshipEdges := d.backfillEdges
      relationshipEvidence := .empty }

def legacyTripleClaim (t : TripleRow) : ClaimRow :=
  ⟨s!"mc-active-{t.tripleId}", s!"active|{t.tripleId}", some t.tripleId, none, t.subjectId,
    t.predicate, t.objectId,
    t.objectKind, .legacyTriple, t.clusterId, t.sourceEpisodeId, t.confidence, .active,
    ["legacy_active_triple", "activated"], false, none, none⟩

def migratedClaimStatus (r : ReviewRow) : ClaimStatus :=
  match r.status with
  | .approved => .active
  | .dismissed => .rejected
  | .rewritten => .superseded
  | .needsReview => claimStatusForReviewReason r.reasonCode

def migratedReviewClaim (r : ReviewRow) : ClaimRow :=
  ⟨s!"mc-{r.candidateFingerprint}", r.candidateFingerprint, r.tripleId, some r.reviewId,
    r.subjectId, r.predicate,
    r.objectId, r.objectKind, .legacyReview, r.clusterId, r.sourceEpisodeId, r.confidence,
    migratedClaimStatus r, ["legacy_review", "quality_gate"], r.status = .approved, none, none⟩

/-- Migration `0018`: the claims, from the active triples and the reviews. -/
def migrateClaims (d : Derived) : Derived :=
  let claims :=
    d.activeTriples.map legacyTripleClaim ++ d.tripleReviews.rows.map migratedReviewClaim
  { d with memoryClaims := claims.foldl .insertOrIgnore .empty }

/-- The migrated database, from the tables that `0016` left and an older version may have filled
since; the tables that `0017` and `0018` create are not read. -/
def migrated (s : Store) (legacy : Derived) : Derived := (legacy.migrateGraph s).migrateClaims

/-- The migrations write the tables they create and no others. -/
theorem migrated_eq (s : Store) (legacy : Derived) : ∃ entities edges evidence,
    legacy.migrated s = { legacy with
      entities := entities, relationshipEdges := edges, relationshipEvidence := evidence
      memoryClaims := (legacy.activeTriples.map legacyTripleClaim ++
        legacy.tripleReviews.rows.map migratedReviewClaim).foldl .insertOrIgnore .empty } := by
  obtain ⟨entities, edges, evidence, hgraph⟩ : ∃ entities edges evidence, legacy.migrateGraph s =
      { legacy with entities := entities, relationshipEdges := edges, relationshipEvidence := evidence } := by
    refine List.foldlRecOn (motive := fun d => ∃ entities edges evidence, d =
      { legacy with entities := entities, relationshipEdges := edges, relationshipEvidence := evidence }) _ _
      ?_ ?_
    · exact ⟨_, _, _, rfl⟩
    rintro d ⟨entities, edges, evidence, rfl⟩ t -
    unfold insertOrIgnoreEvidence
    split
    · exact ⟨entities, _, _, rfl⟩
    · exact ⟨entities, edges, evidence, rfl⟩
  exact ⟨entities, edges, evidence, by rw [migrated, hgraph]; rfl⟩

end Derived

end Solo
