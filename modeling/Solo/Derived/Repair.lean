import Mathlib.Data.List.Sort
import Solo.Derived.Attach
import Solo.Derived.Review

/-!
# Repairing and renaming (`handle_repair_derived`, `handle_normalize_subjects`)

The three repair modes drop stale abstractions, run the quality gate again over the active facts, or
drop everything derived. The counts a report adds up over the statements of a loop are taken as the
difference between the tables before and after it. Renaming entities rewrites triples and edges
alike.
-/

namespace Solo

open Text

/-! ### Low-signal abstractions -/

def lowSignalAbstractionPhrases : List String :=
  ["assistant was unable to provide assistance", "unable to provide assistance",
    "cannot provide assistance",
    "can't provide assistance", "could not provide assistance", "no assistance was provided"]

def isLowSignalAbstraction (content : String) : Bool :=
  lowSignalAbstractionPhrases.any (contains (toAsciiLowercase content.toList))

/-! ### Scope and report -/

inductive RepairMode
  | staleAbstractions | qualityGate | rebuildAll
  deriving DecidableEq, Repr

/-- `DerivedRepairScope`. -/
structure RepairScope where
  mode : RepairMode := .staleAbstractions
  dryRun : Bool := false
  minEmptyAbstractionEpisodeCount : Nat := 25
  maxClusters : Option Nat := none

/-- `DerivedRepairCandidate`, without the preview. -/
structure RepairCandidate where
  clusterId : String
  episodeCount : Nat
  abstractionCount : Nat
  tripleCount : Nat
  reasons : List String
  deriving DecidableEq

/-- `DerivedRepairReport`. -/
structure RepairReport where
  mode : RepairMode
  dryRun : Bool
  clustersScanned : Nat := 0
  clustersRepaired : Nat := 0
  abstractionsDeleted : Nat := 0
  triplesDeleted : Nat := 0
  triplesRewritten : Nat := 0
  tripleReviewsCreated : Nat := 0
  contradictionsDeleted : Nat := 0
  clustersDeleted : Nat := 0
  clusterMembershipsDeleted : Nat := 0
  candidateSamples : List RepairCandidate := []
  deriving DecidableEq

/-- `DERIVED_REPAIR_CANDIDATE_SAMPLE_LIMIT`. -/
def repairCandidateSampleLimit : Nat := 50

namespace Derived

/-! ### Stale abstractions -/

structure RepairScanRow where
  clusterId : ClusterId
  abstractionContent : String
  abstractionCount : Nat
  episodeCount : Nat
  tripleCount : Nat
  activeTripleCount : Nat

/-- `scan_derived_repair_candidates`. The joins repeat an abstraction's content for every member and
triple of its cluster. -/
def scanDerivedRepairCandidates (d : Derived) : List RepairScanRow :=
  d.clusters.rows.filterMap fun c =>
    let abstractions := d.semanticAbstractions.rows.filter (·.clusterId = c.clusterId)
    let episodes := d.clusterEpisodes.rows.countP (·.clusterId = c.clusterId)
    let triples := d.triples.rows.filter (·.clusterId = some c.clusterId)
    if abstractions.isEmpty then none
    else some ⟨c.clusterId,
      "\n".intercalate
      (abstractions.flatMap fun a => List.replicate (max 1 episodes * max 1 triples.length)
        a.content),
      abstractions.length, episodes, triples.length, triples.countP (·.status = .active)⟩

/-- `into_candidate`. -/
def RepairScanRow.intoCandidate (r : RepairScanRow) (minEpisodes : Nat) : Option RepairCandidate :=
  let reasons :=
    (if r.activeTripleCount = 0 ∧
      minEpisodes ≤ r.episodeCount then ["empty_abstraction_no_active_triples"] else []) ++
    (if isLowSignalAbstraction r.abstractionContent then ["low_signal_abstraction"] else [])
  if reasons.isEmpty then none
  else some ⟨r.clusterId, r.episodeCount, r.abstractionCount, r.tripleCount, reasons⟩

def truncate {α : Type} (max : Option Nat) (l : List α) : List α :=
  match max with
  | some n => l.take n
  | none => l

def staleCandidates (d : Derived) (scope : RepairScope) : List RepairCandidate :=
  truncate scope.maxClusters <| d.scanDerivedRepairCandidates.filterMap fun r =>
    r.intoCandidate scope.minEmptyAbstractionEpisodeCount

/-- A contradiction with a triple of the cluster. -/
def contradictionTouches (d : Derived) (c : ClusterId) (x : ContradictionRow) : Bool :=
  d.triples.rows.any fun t => t.clusterId = some c &&
    (x.aMemoryId = t.tripleId || x.bMemoryId = t.tripleId)

/-- The four deletes of one candidate. -/
def repairStaleCluster (d : Derived) (c : ClusterId) : Derived :=
  let d := { d with contradictions := d.contradictions.deleteWhere (d.contradictionTouches c) }
  ((d.deleteTriplesOf c).deleteReviewsOf c).deleteAbstractionsOf c

def repairStaleAbstractions (d : Derived) (scope : RepairScope) : Derived × RepairReport :=
  let candidates := d.staleCandidates scope
  let report : RepairReport :=
    { mode := scope.mode, dryRun := scope.dryRun, clustersScanned := d.scanDerivedRepairCandidates.length
      clustersRepaired := candidates.length,
      abstractionsDeleted := (candidates.map (·.abstractionCount)).sum
      triplesDeleted := (candidates.map (·.tripleCount)).sum
      candidateSamples := candidates.take repairCandidateSampleLimit }
  if scope.dryRun then
    (d, { report with contradictionsDeleted :=
      (candidates.map fun c => d.contradictions.rows.countP (d.contradictionTouches c.clusterId)).sum })
  else
    let d' := (candidates.map (·.clusterId)).foldl repairStaleCluster d
    (d', { report with
      abstractionsDeleted := d.semanticAbstractions.rows.length - d'.semanticAbstractions.rows.length
      triplesDeleted := d.triples.rows.length - d'.triples.rows.length
      contradictionsDeleted := d.contradictions.rows.length - d'.contradictions.rows.length })

/-! ### Rebuilding -/

/-- Every derived table but the claims. -/
def rebuildAllDerived (d : Derived) (scope : RepairScope) : Derived × RepairReport :=
  let report : RepairReport :=
    { mode := scope.mode, dryRun := scope.dryRun, clustersScanned := d.clusters.rows.length
      clustersRepaired := d.clusters.rows.length,
      abstractionsDeleted := d.semanticAbstractions.rows.length
      triplesDeleted := d.triples.rows.length, contradictionsDeleted := d.contradictions.rows.length
      clustersDeleted := d.clusters.rows.length, clusterMembershipsDeleted := d.clusterEpisodes.rows.length }
  (if scope.dryRun then d else { empty with memoryClaims := d.memoryClaims }, report)

/-! ### The quality gate over active facts -/

/-- `scan_active_triple_quality_rows`: the active triples with `literal_only_subject`. -/
def scanActiveTripleQualityRows (d : Derived) : List (TripleRow × Bool) :=
  ((d.triples.rows.filter (·.status = .active)).insertionSort fun a b =>
      a.createdAtMs < b.createdAtMs ∨ a.createdAtMs = b.createdAtMs ∧ a.tripleId ≤ b.tripleId).map
    fun t => (t, d.literalOnlySubject t.subjectId)

def objectShouldBeLiteral (t : TripleRow) : Bool :=
  t.objectKind = .entity && activeEntityObjectShouldBeLiteral t.objectId

/-- The active triples to rewrite to a literal object. -/
def qualityRewrites (d : Derived) : List TripleRow :=
  (d.scanActiveTripleQualityRows.map Prod.fst).filter objectShouldBeLiteral

/-- The active triples to quarantine, with the reason. -/
def qualityQuarantine (d : Derived) : List (TripleRow × TripleQualityReviewReason) :=
  d.scanActiveTripleQualityRows.filterMap fun (t, literalOnly) =>
    if objectShouldBeLiteral t then none
    else (activeTripleReviewReason t.subjectId t.predicate t.objectId t.objectKind t.confidence
      literalOnly).map fun r => (t, r)

/-- `cluster_id.unwrap_or("unclustered")`. -/
def repairClusterOf (t : TripleRow) : String := t.clusterId.getD "unclustered"

/-- The clusters `apply_quality_repair_cap` lets through, in order of first appearance. -/
def allowedClusters (max : Nat) (clusters : List String) : List String :=
  clusters.foldl (fun allowed c =>
    if allowed.contains c then allowed else if max ≤ allowed.length then allowed else allowed ++
      [c]) []

/-- `apply_quality_repair_cap`. -/
def applyQualityRepairCap (max : Option Nat)
    (work : List (TripleRow × TripleQualityReviewReason) × List TripleRow) :
    List (TripleRow × TripleQualityReviewReason) × List TripleRow :=
  match max with
  | none => work
  | some max =>
    let allowed :=
      allowedClusters max (work.1.map (repairClusterOf ·.1) ++ work.2.map repairClusterOf)
    (work.1.filter fun q => allowed.contains (repairClusterOf q.1),
      work.2.filter fun t => allowed.contains (repairClusterOf t))

def qualityWork (d : Derived) (scope : RepairScope) :
    List (TripleRow × TripleQualityReviewReason) × List TripleRow :=
  applyQualityRepairCap scope.maxClusters (d.qualityQuarantine, d.qualityRewrites)

theorem mem_scanActiveTripleQualityRows {d : Derived} {t : TripleRow} {b : Bool}
    (h : (t, b) ∈ d.scanActiveTripleQualityRows) : t ∈ d.triples ∧ t.status = .active := by
  simp only [scanActiveTripleQualityRows, List.mem_map, List.mem_insertionSort, Prod.mk.injEq] at h
  obtain ⟨t', ht', rfl, -⟩ := h
  simpa using ht'

theorem mem_qualityRewrites {d : Derived} {t : TripleRow} (h : t ∈ d.qualityRewrites) :
    t ∈ d.triples ∧ t.status = .active := by
  simp only [qualityRewrites, List.mem_filter, List.mem_map] at h
  obtain ⟨⟨⟨t', b⟩, hrow, rfl⟩, -⟩ := h
  exact mem_scanActiveTripleQualityRows hrow

theorem mem_of_mem_cap {max : Option Nat}
    {work : List (TripleRow × TripleQualityReviewReason) × List TripleRow}
    {t : TripleRow} (h : t ∈ (applyQualityRepairCap max work).2) : t ∈ work.2 := by
  unfold applyQualityRepairCap at h
  split at h
  · exact h
  · exact (List.mem_filter.1 h).1

/-- `object_kind = 'literal'`, for the triple and its edge. -/
def rewriteToLiteral (d : Derived) (t : TripleRow) : Derived :=
  { d with
    triples := d.triples.updateWhere
      (fun r => r.tripleId = t.tripleId && r.status = .active && r.objectKind = .entity)
      fun r => { r with objectKind := .literal }
    relationshipEdges := d.relationshipEdges.updateWhere
      (fun e => e.edgeId = t.tripleId && e.object.entityId?.isSome)
      fun e => { e with object := .literal t.objectId } }

def activeQualityReviewFingerprint (tripleId : TripleId) (reasonCode : String) : String :=
  s!"active-quality|{tripleId}|{reasonCode}"

def activeQualityReviewId (tripleId : TripleId) (reasonCode : String) : ReviewId :=
  let shortReason := (reasonCode.toList.filter fun c => c.isAlphanum || c = '_').take 32
  s!"trv-quality-{tripleId}-{String.ofList shortReason}"

/-- The review row of a quarantined triple. -/
def qualityReview (nowMs : Int) (t : TripleRow) (r : TripleQualityReviewReason) : ReviewRow :=
  ⟨activeQualityReviewId t.tripleId r.reasonCode,
    activeQualityReviewFingerprint t.tripleId r.reasonCode,
    some t.tripleId, t.clusterId, t.sourceEpisodeId, t.subjectId, t.predicate, t.objectId,
    t.objectKind, t.confidence, r.reasonCode, r.reason, t.provenance, .needsReview, nowMs⟩

/-- The claim row of a quarantined triple. -/
def qualityClaim (t : TripleRow) (r : TripleQualityReviewReason) : ClaimRow :=
  let fingerprint := activeQualityReviewFingerprint t.tripleId r.reasonCode
  let status := claimStatusForReviewReason r.reasonCode
  ⟨s!"mc-{fingerprint}", fingerprint, some t.tripleId,
    some (activeQualityReviewId t.tripleId r.reasonCode),
    t.subjectId, t.predicate, t.objectId, t.objectKind, .qualityRepair, t.clusterId,
    t.sourceEpisodeId, t.confidence,
    status, ["quality_gate", r.reasonCode, status.asStr], false, none, none⟩

/-- The review of a quarantined triple; one that is there goes back to `needs_review`. -/
def upsertQualityReview (s : Store) (nowMs : Int) (d : Derived) (t : TripleRow)
    (r : TripleQualityReviewReason) : Option Derived :=
  let row := qualityReview nowMs t r
  d.upsertReview s row fun old =>
    { row with reviewId := old.reviewId, candidateFingerprint := old.candidateFingerprint,
               createdAtMs := old.createdAtMs }

/-- `upsert_active_quality_memory_claim_in_tx`. -/
def upsertQualityClaim (s : Store) (d : Derived) (t : TripleRow) (r : TripleQualityReviewReason) :
    Option Derived :=
  let row := qualityClaim t r
  d.upsertClaim s row fun old =>
    { row with claimId := old.claimId, candidateFingerprint := old.candidateFingerprint,
               userApproved := old.userApproved, docId := old.docId, chunkId := old.chunkId }

/-- The triple and its edge leave the graph; contradictions with it go. -/
def supersedeTriple (d : Derived) (id : TripleId) : Derived :=
  { d with
    contradictions := d.contradictions.deleteWhere fun x => x.aMemoryId = id || x.bMemoryId = id
    triples := d.triples.updateWhere (fun t => t.tripleId = id && t.status = .active)
      fun t => { t with status := .superseded }
    relationshipEdges := d.relationshipEdges.updateWhere (fun e => e.edgeId = id && e.status = .active)
      fun e => { e with status := .superseded } }

def quarantineTriple (s : Store) (nowMs : Int) (d : Derived)
    (q : TripleRow × TripleQualityReviewReason) : Except Error Derived := do
  let d ← orStorage s!"insert active triple quality review for {q.1.tripleId}"
      (d.upsertQualityReview s nowMs q.1 q.2)
  let d ← orStorage s!"upsert active quality memory claim for {q.1.tripleId}"
      (d.upsertQualityClaim s q.1 q.2)
  return d.supersedeTriple q.1.tripleId

/-- The statements of `repair_active_triple_quality`. -/
def runQualityRepair (s : Store) (nowMs : Int) (d : Derived)
    (work : List (TripleRow × TripleQualityReviewReason) × List TripleRow) : Except Error Derived :=
  work.1.foldlM (quarantineTriple s nowMs) (work.2.foldl rewriteToLiteral d)

/-- `quality_repair_samples`. -/
def qualityRepairSamples (work : List (TripleRow × TripleQualityReviewReason) × List TripleRow) :
    List RepairCandidate :=
  let quarantined :=
    work.1.map fun q => RepairCandidate.mk (repairClusterOf q.1) 0 0 1 [q.2.reasonCode]
  let rewritten :=
    work.2.map fun t => RepairCandidate.mk (repairClusterOf t) 0 0 1 ["metadata_entity_object"]
  (quarantined ++ rewritten).take repairCandidateSampleLimit

def repairActiveTripleQuality (s : Store) (nowMs : Int) (d : Derived) (scope : RepairScope) :
    Except Error (Derived × RepairReport) :=
  let work := d.qualityWork scope
  let report : RepairReport :=
    { mode := scope.mode, dryRun := scope.dryRun, clustersScanned := d.clusters.rows.length
      clustersRepaired := (work.1.map (repairClusterOf ·.1) ++ work.2.map repairClusterOf).dedup.length
      candidateSamples := qualityRepairSamples work }
  if scope.dryRun then
    .ok (d, { report with triplesRewritten := work.2.length, tripleReviewsCreated := work.1.length })
  else do
    let d' ← d.runQualityRepair s nowMs work
    let activeEntities (d : Derived) :=
      d.triples.rows.countP fun t => t.status = .active && t.objectKind = .entity
    let active (d : Derived) := d.triples.rows.countP (·.status = .active)
    return (d', { report with
      triplesRewritten := activeEntities d - activeEntities (work.2.foldl rewriteToLiteral d)
      tripleReviewsCreated := active d - active d'
      contradictionsDeleted := d.contradictions.rows.length - d'.contradictions.rows.length })

def handleRepairDerived (s : Store) (nowMs : Int) (d : Derived) (scope : RepairScope) :
    Except Error (Derived × RepairReport) :=
  if scope.maxClusters = some 0 then .error (.invalidInput "max_clusters must be >= 1 when set")
  else
    match scope.mode with
    | .staleAbstractions => .ok (d.repairStaleAbstractions scope)
    | .qualityGate => d.repairActiveTripleQuality s nowMs scope
    | .rebuildAll => .ok (d.rebuildAllDerived scope)

/-! ### Renaming -/

structure NormalizeReport where
  aliasesProcessed : Nat
  subjectRowsUpdated : Nat
  objectRowsUpdated : Nat
  dryRun : Bool
  deriving DecidableEq

/-- The statements of one alias pair. -/
def normalizeAlias (d : Derived) (src dst : String) : Derived :=
  { d with
    entities := (d.entities.insert? ⟨dst, .active⟩).getD d.entities
    triples := (d.triples.updateWhere (·.subjectId = src) fun t => { t with subjectId := dst }).updateWhere
      (·.objectId = src) fun t => { t with objectId := dst }
    relationshipEdges := ((d.relationshipEdges.updateWhere (·.subjectEntityId = src)
        fun e => { e with subjectEntityId := dst }).updateWhere (·.object = .entity src)
        fun e => { e with object := .entity dst }).updateWhere (·.object = .literal src)
      fun e => { e with object := .literal dst } }

def renamed (src dst id : String) : String := if id = src then dst else id

def renameTriple (src dst : String) (t : TripleRow) : TripleRow :=
  { t with subjectId := renamed src dst t.subjectId, objectId := renamed src dst t.objectId }

def renameObject (src dst : String) : EdgeObject → EdgeObject
  | .entity id => .entity (renamed src dst id)
  | .literal text => .literal (renamed src dst text)

def renameEdge (src dst : String) (e : EdgeRow) : EdgeRow :=
  { e with subjectEntityId := renamed src dst e.subjectEntityId, object := renameObject src dst e.object }

theorem mem_triples_normalizeAlias {d : Derived} {src dst : String} {t : TripleRow} :
    t ∈ (d.normalizeAlias src dst).triples ↔ ∃ t₀ ∈ d.triples, renameTriple src dst t₀ = t := by
  have heq (t₀ : TripleRow) : renameTriple src dst t₀ =
      let t₁ := if decide (t₀.subjectId = src) then { t₀ with subjectId := dst } else t₀
      if decide (t₁.objectId = src) then { t₁ with objectId := dst } else t₁ := by
    simp only [renameTriple, renamed, decide_eq_true_eq]
    by_cases hs : t₀.subjectId = src <;> by_cases ho : t₀.objectId = src <;> simp [hs, ho]
  simp only [normalizeAlias, Table.mem_updateWhere, heq]
  constructor
  · rintro ⟨-, ⟨t₀, ht₀, rfl⟩, rfl⟩
    exact ⟨t₀, ht₀, rfl⟩
  · rintro ⟨t₀, ht₀, rfl⟩
    exact ⟨_, ⟨t₀, ht₀, rfl⟩, rfl⟩

theorem mem_edges_normalizeAlias {d : Derived} {src dst : String} {e : EdgeRow} :
    e ∈ (d.normalizeAlias src dst).relationshipEdges ↔
    ∃ e₀ ∈ d.relationshipEdges, renameEdge src dst e₀ = e := by
  have heq (e₀ : EdgeRow) : renameEdge src dst e₀ =
      let e₁ := if decide (e₀.subjectEntityId = src) then { e₀ with subjectEntityId := dst } else e₀
      let e₂ := if decide (e₁.object = .entity src) then { e₁ with object := .entity dst } else e₁
      if decide (e₂.object = .literal src) then { e₂ with object := .literal dst } else e₂ := by
    simp only [renameEdge, renamed, decide_eq_true_eq]
    obtain ⟨_, subject, _, object, _, _, _, _, _, _⟩ := e₀
    cases object with
    | _ x =>
      by_cases hs : subject = src <;> by_cases hx : x = src <;> simp [renameObject, renamed, hs, hx]
  simp only [normalizeAlias, Table.mem_updateWhere, heq]
  constructor
  · rintro ⟨-, ⟨-, ⟨e₀, he₀, rfl⟩, rfl⟩, rfl⟩
    exact ⟨e₀, he₀, rfl⟩
  · rintro ⟨e₀, he₀, rfl⟩
    exact ⟨_, ⟨_, ⟨e₀, he₀, rfl⟩, rfl⟩, rfl⟩

/-- One turn of the loop, with the two counts. -/
def normalizeStep (st : Derived × Nat × Nat) (pair : String × String) : Derived × Nat × Nat :=
  let (d, subjects, objects) := st
  (d.normalizeAlias pair.1 pair.2, subjects + d.triples.rows.countP (·.subjectId = pair.1),
    objects + d.triples.rows.countP (·.objectId = pair.1))

def handleNormalizeSubjects (d : Derived) (aliases : List (String × String)) (dryRun : Bool) :
    Derived × NormalizeReport :=
  let (d', subjects, objects) := aliases.foldl normalizeStep (d, 0, 0)
  (if dryRun then d else d', ⟨aliases.length, subjects, objects, dryRun⟩)

end Derived

end Solo
