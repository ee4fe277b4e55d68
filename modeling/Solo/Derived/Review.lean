import Solo.Derived.Facts
import Solo.Lib.Binary32
import Solo.Lib.Result

/-!
# Deciding a review (`handle_memory_quality_review_update`)

A review leaves `needs_review` once: approving promotes its fact, rewriting inserts the replacement
facts, dismissing only records the decision. The claim of the review follows. The command is one
transaction, so an error leaves the tables as they were.
-/

namespace Solo

open Text

/-- `MemoryQualityReviewRewrite`. -/
structure ReviewRewrite where
  subjectId : String
  predicate : String
  objectId : String
  objectKind : String
  confidence : Option Float32

/-- `MemoryQualityReviewUpdate`. -/
structure ReviewUpdate where
  reviewId : String
  status : ReviewStatus
  rewrites : List ReviewRewrite

def validateMemoryQualityReviewRewrite (r : ReviewRewrite) : Except Error Unit :=
  let objectKind := trim r.objectKind
  if objectKind ≠ "entity" ∧ objectKind ≠ "literal" then
    .error (.invalidInput "rewrite object_kind must be entity or literal")
  else if isBlank r.subjectId || isBlank r.predicate || isBlank r.objectId then
    .error (.invalidInput "rewrite subject_id, predicate, and object_id must not be empty")
  else
    match r.confidence with
    | none => .ok ()
    | some c =>
      if !(0 ≤ c && c ≤ 1) || c.isNaN then
        .error (.invalidInput "rewrite confidence must be a finite value between 0.0 and 1.0")
      else if c < minActiveTripleConfidence then
        .error (.invalidInput
          s!"rewrite confidence must be at least {fixed2 minActiveTripleConfidence}")
      else .ok ()

def validateMemoryQualityReviewUpdate (u : ReviewUpdate) : Except Error Unit :=
  if isBlank u.reviewId then .error (.invalidInput "review_id must not be empty")
  else u.rewrites.forM validateMemoryQualityReviewRewrite

/-- The object of `memory_quality_active_triple`: id, alias and kind. -/
def memoryQualityObject (objectId objectKind : String) :
    Except Error (String × Option String × ObjectKind) :=
  if objectKind = "entity" && !activeEntityObjectShouldBeLiteral objectId then
    let canonical := canonicalEntityId (trim objectId)
    if canonical.isEmpty then
      .error (.invalidInput "review fact object_id must normalize to a useful entity")
    else .ok (canonical, some (trim objectId), .entity)
  else if (trim objectId).isEmpty then .error
    (.invalidInput "review fact object_id must not be empty")
  else .ok (trim objectId, none, .literal)

def memoryQualityActiveTriple (tripleId : TripleId)
    (subjectId predicate objectId objectKind : String)
    (confidence : Float32) (validFromMs : Int) : Except Error ActiveTriple :=
  let subjectAlias := trim subjectId
  let objectKind := trim objectKind
  if (canonicalEntityId subjectAlias).isEmpty then
    .error (.invalidInput "review fact subject_id must normalize to a useful entity")
  else if objectKind ≠ "entity" ∧ objectKind ≠ "literal" then
    .error (.invalidInput "review fact object_kind must be entity or literal")
  else do
    let (objectId, objectAlias, objectKind) ← memoryQualityObject objectId objectKind
    return ⟨tripleId, canonicalEntityId subjectAlias, subjectAlias, trim predicate, objectId,
      objectAlias, objectKind,
      validFromMs, none, Binary32.clamp confidence 0 1⟩

theorem memoryQualityActiveTriple_eq_ok {tripleId : TripleId}
    {subjectId predicate objectId objectKind : String}
    {confidence : Float32} {validFromMs : Int} {t : ActiveTriple}
    (h : memoryQualityActiveTriple tripleId subjectId predicate objectId objectKind confidence
      validFromMs = .ok t) :
    t.tripleId = tripleId ∧ t.validToMs = none := by
  simp only [memoryQualityActiveTriple] at h
  split at h
  · cases h
  split at h
  · cases h
  obtain ⟨_, _, h⟩ := Result.bind_eq_ok.1 h
  rw [Result.pure_eq_ok] at h
  exact h ▸ ⟨rfl, rfl⟩

namespace Derived

/-- `memory_quality_literal_only_subject_in_tx`. -/
def literalOnlySubject (d : Derived) (subjectId : String) : Bool :=
  !d.triples.rows.any fun t =>
    t.status = .active && t.objectKind = .entity &&
      (t.subjectId = subjectId || t.objectId = subjectId)

/-- The fields `UPDATE triples` gives a promoted triple. -/
def promoted (active : ActiveTriple) (row : ReviewRow) (t : TripleRow) : TripleRow :=
  { t with status := .active, subjectId := active.subjectId, predicate := active.predicate,
           objectId := active.objectId, objectKind := active.objectKind,
           validFromMs := active.validFromMs,
           validToMs := none, confidence := active.confidence, provenance := row.provenance,
           clusterId := row.clusterId, sourceEpisodeId := row.sourceEpisodeId }

theorem clash_promoted (active : ActiveTriple) (row : ReviewRow) (a b : TripleRow) :
    Keyed.clash (promoted active row a) b = Keyed.clash a b := rfl

/-- `UPDATE triples` of a promotion. -/
def promoteTriple (d : Derived) (active : ActiveTriple) (row : ReviewRow) : Derived :=
  { d with triples :=
      d.triples.updateWhere (·.tripleId = active.tripleId) (promoted active row) (clash_promoted active row) }

theorem mem_promoteTriple {d : Derived} {active : ActiveTriple} {row : ReviewRow} {r : TripleRow} :
    r ∈ (d.promoteTriple active row).triples ↔
      ∃ r₀ ∈ d.triples, (if r₀.tripleId = active.tripleId then promoted active row r₀ else r₀) =
      r := by
  simp only [promoteTriple, Table.mem_updateWhere, decide_eq_true_eq]

/-- `promote_memory_quality_review_in_tx`. -/
def promoteMemoryQualityReview (s : Store) (nowMs : Int) (newId : String) (d : Derived)
    (row : ReviewRow) : Except Error Derived := do
  let tripleId := row.tripleId.getD newId
  let active ← memoryQualityActiveTriple tripleId row.subjectId row.predicate row.objectId
      row.objectKind.asStr
    (Binary32.max row.confidence 0.9) row.createdAtMs
  if d.triples.rows.any (·.tripleId = tripleId) then
    orStorage s!"UPDATE promoted triple {tripleId}"
      (guard (d.clusterRef row.clusterId && s.episodeRef row.sourceEpisodeId))
    orStorage s!"UPSERT graph for promoted triple {tripleId}"
      ((d.promoteTriple active row).upsertGraphForActiveTriple s active row.clusterId
        row.sourceEpisodeId)
  else
    orStorage s!"INSERT promoted triple {tripleId}"
      (d.insertActiveTriple s nowMs active row.clusterId row.sourceEpisodeId row.provenance)

/-- `insert_rewritten_memory_quality_fact_in_tx`. -/
def insertRewrittenMemoryQualityFact (s : Store) (nowMs : Int) (newId : String) (row : ReviewRow)
    (d : Derived) (r : ReviewRewrite) : Except Error Derived := do
  let active ← memoryQualityActiveTriple newId (trim r.subjectId) (trim r.predicate)
      (trim r.objectId)
    (trim r.objectKind) (r.confidence.getD (Binary32.max row.confidence 0.9)) nowMs
  match activeTripleReviewReason active.subjectAlias active.predicate
    (active.objectAlias.getD active.objectId)
      active.objectKind active.confidence (d.literalOnlySubject active.subjectId) with
  | some reason =>
    .error (.invalidInput
      s!"rewrite fact rejected by quality gate: {reason.reason} ({reason.reasonCode})")
  | none =>
    orStorage "INSERT rewritten memory quality fact"
      (d.insertActiveTriple s nowMs active row.clusterId row.sourceEpisodeId row.provenance)

def pushUniqueReasonCode (codes : List String) (code : String) : List String :=
  if codes.contains code then codes else codes ++ [code]

/-- What the decision writes to the claim: status, `user_approved` and the reason codes it adds. -/
def claimDecision : ReviewStatus → ClaimStatus × Bool × List String
  | .approved => (.active, true, ["quality_gate", "user_approved", "activated"])
  | .rewritten => (.superseded, false, ["quality_gate", "user_rewritten", "superseded"])
  | .dismissed => (.rejected, false, ["quality_gate", "user_rejected"])
  | .needsReview => (.needsReview, false, ["quality_gate", "needs_review"])

/-- The claim a review without one gets. -/
def legacyReviewClaim (row : ReviewRow) (claimId : ClaimId) : ClaimRow :=
  ⟨claimId, row.candidateFingerprint, row.tripleId, some row.reviewId, row.subjectId, row.predicate,
    row.objectId,
    row.objectKind, .legacyReview, row.clusterId, row.sourceEpisodeId, row.confidence, .needsReview,
    ["legacy_review", "quality_gate"], false, none, none⟩

/-- The claim of the review: the one that names it, else the one with its fingerprint. -/
def reviewClaimId (d : Derived) (row : ReviewRow) : ClaimId :=
  match d.memoryClaims.find? (·.reviewId = some row.reviewId) with
  | some c => c.claimId
  | none =>
    match d.memoryClaims.find? (·.candidateFingerprint = row.candidateFingerprint) with
    | some c => c.claimId
    | none => s!"mc-{row.candidateFingerprint}"

/-- `INSERT OR IGNORE INTO memory_claims`. -/
def insertOrIgnoreClaim (s : Store) (d : Derived) (c : ClaimRow) : Option Derived :=
  match d.memoryClaims.insert? c with
  | some claims => do
    guard (s.episodeRef c.sourceEpisodeId)
    return { d with memoryClaims := claims }
  | none => some d

/-- The update of a claim by a decision on its review. -/
def decidedClaim (row : ReviewRow) (status : ReviewStatus) (c : ClaimRow) : ClaimRow :=
  let (claimStatus, userApproved, codes) := claimDecision status
  { c with reviewId := some row.reviewId, tripleId := row.tripleId.orElse fun _ => c.tripleId,
           status := claimStatus, userApproved := userApproved,
           reasonCodes := codes.foldl pushUniqueReasonCode c.reasonCodes }

/-- `update_memory_claim_for_review_in_tx`. -/
def updateMemoryClaimForReview (s : Store) (d : Derived) (row : ReviewRow) (status : ReviewStatus) :
    Option Derived := do
  let claimId := d.reviewClaimId row
  let d ← d.insertOrIgnoreClaim s (legacyReviewClaim row claimId)
  return { d with memoryClaims := d.memoryClaims.updateWhere (·.claimId = claimId) (decidedClaim row status) }

/-- What a new decision does to the facts. -/
def applyReviewDecision (s : Store) (nowMs : Int) (newId : Nat → String) (d : Derived)
    (row : ReviewRow) (u : ReviewUpdate) : Except Error Derived :=
  match u.status with
  | .approved => d.promoteMemoryQualityReview s nowMs (newId 0) row
  | .rewritten =>
    if u.rewrites.isEmpty then
      .error (.invalidInput "rewritten reviews must include at least one replacement fact")
    else u.rewrites.zipIdx.foldlM
      (fun d r => d.insertRewrittenMemoryQualityFact s nowMs (newId r.2) row r.1) d
  | .needsReview | .dismissed => .ok d

/-- `UPDATE triple_reviews SET status`. -/
def setReviewStatus (d : Derived) (reviewId : ReviewId) (status : ReviewStatus) : Derived :=
  { d with
    tripleReviews := d.tripleReviews.updateWhere (·.reviewId = reviewId) fun r =>
      { r with status := status } }

def handleMemoryQualityReviewUpdate (s : Store) (nowMs : Int) (newId : Nat → String) (d : Derived)
    (u : ReviewUpdate) : Except Error (Derived × ReviewRow) := do
  validateMemoryQualityReviewUpdate u
  match d.review? (trim u.reviewId) with
  | none => .error (.notFound "memory quality review not found")
  | some row =>
    if row.status = u.status then
      return (d.setReviewStatus row.reviewId u.status, row)
    else if row.status ≠ .needsReview then
      .error (.invalidInput
        s!"memory quality review {row.reviewId} is already {row.status.asStr}; terminal decisions are immutable")
    else do
      let d ← d.applyReviewDecision s nowMs newId row u
      let d := d.setReviewStatus row.reviewId u.status
      let d ← orStorage s!"UPDATE memory claim for review {row.reviewId}"
          (d.updateMemoryClaimForReview s row u.status)
      return (d, { row with status := u.status })

/-- The claims after a decision: that of the review is decided, the others are as they were. -/
theorem updateMemoryClaimForReview_eq_some {s : Store} {d d' : Derived} {row : ReviewRow}
    {status : ReviewStatus} (h : d.updateMemoryClaimForReview s row status = some d') :
    ∃ claims, d' = { d with memoryClaims := claims } ∧ ∀ c ∈ claims,
      (∃ b, b.claimId = d.reviewClaimId row ∧ c = decidedClaim row status b) ∨
        c ∈ d.memoryClaims ∧ c.claimId ≠ d.reviewClaimId row := by
  obtain ⟨d₁, h₁, h⟩ := Option.bind_eq_some_iff.1 h
  obtain ⟨claims₁, rfl, hclaims₁⟩ : ∃ claims₁, d₁ = { d with memoryClaims := claims₁ } ∧
      ∀ c ∈ claims₁, c ∈ d.memoryClaims ∨ c = legacyReviewClaim row (d.reviewClaimId row) := by
    unfold insertOrIgnoreClaim at h₁
    split at h₁
    · next claims hins =>
      obtain ⟨-, -, h₁⟩ := Option.bind_eq_some_iff.1 h₁
      exact ⟨claims, (Option.some.inj h₁).symm, fun c hc => (Table.mem_insert hins).1 hc⟩
    · exact ⟨d.memoryClaims, (Option.some.inj h₁).symm, fun c hc => .inl hc⟩
  refine ⟨_, (Option.some.inj h).symm, fun c hc => ?_⟩
  obtain ⟨b, hb, rfl⟩ := List.mem_map.1 hc
  by_cases hid : b.claimId = d.reviewClaimId row
  · exact .inl ⟨b, hid, by simp [hid]⟩
  · rcases hclaims₁ b hb with hb | rfl
    · exact .inr (by simpa [hid] using hb)
    · exact absurd rfl hid

/-- An update that succeeds repeats the status of its review, or decides an open one. -/
theorem handleMemoryQualityReviewUpdate_cases {s : Store} {nowMs : Int} {newId : Nat → String}
    {d d' : Derived}
    {u : ReviewUpdate} {r : ReviewRow}
    (h : d.handleMemoryQualityReviewUpdate s nowMs newId u = .ok (d', r)) :
    ∃ row, d.review? (trim u.reviewId) = some row ∧
      (row.status = u.status ∧ d' = d.setReviewStatus row.reviewId u.status ∨
        row.status = .needsReview ∧ row.status ≠ u.status ∧
          ∃ d₁, d.applyReviewDecision s nowMs newId row u = .ok d₁ ∧
            (d₁.setReviewStatus row.reviewId u.status).updateMemoryClaimForReview s row u.status =
              some d') := by
  obtain ⟨-, -, h⟩ := Result.bind_eq_ok.1 h
  split at h
  · cases h
  next row hrow =>
  refine ⟨row, hrow, ?_⟩
  split at h
  · next hsame =>
    rw [Result.pure_eq_ok, Prod.mk.injEq] at h
    exact .inl ⟨hsame, h.1.symm⟩
  next hnew =>
  split at h
  · cases h
  next hopen =>
  obtain ⟨d₁, h₁, h⟩ := Result.bind_eq_ok.1 h
  obtain ⟨d₂, h₂, h⟩ := Result.bind_eq_ok.1 h
  rw [Result.pure_eq_ok, Prod.mk.injEq] at h
  exact .inr ⟨not_not.1 hopen, hnew, d₁, h₁, h.1 ▸ orStorage_eq_ok.1 h₂⟩

end Derived

end Solo
