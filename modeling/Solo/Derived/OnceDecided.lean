import Solo.Derived.Accepted

/-!
# A review is decided once (`handle_memory_quality_review_update`)

The update command with the revisions it logs, over runs of updates. `reviews_appliedOnce`: from any
state, each review leaves `needs_review` in one step at most. That step makes the facts of the
decision, its claims and its revision; every other step leaves facts, graph, claims and revisions
alone, and one that is answered `Err` leaves everything. A valid decision on an open review is
answered `Ok` and is that step.
-/

namespace Solo

open Text

inductive RevisionKind
  | claimActivated | claimRewritten | claimRejected
  deriving DecidableEq

/-- A row of `memory_revisions` about a claim. -/
structure RevisionRow where
  revisionId : String
  revisionKind : RevisionKind
  targetId : ClaimId
  previousId : ReviewId
  replacementId : Option TripleId
  reason : ReviewStatus
  createdAtMs : Int
  deriving DecidableEq

instance : Keyed RevisionRow where
  clash a b := a.revisionId = b.revisionId
  clash_comm a b := by simp [eq_comm]

/-- The revision that a decision logs. -/
def revisionKind : ReviewStatus → Option RevisionKind
  | .approved => some .claimActivated
  | .rewritten => some .claimRewritten
  | .dismissed => some .claimRejected
  | .needsReview => none

/-- The derived tables with `memory_revisions`. -/
structure Reviewed where
  derived : Derived
  revisions : Table RevisionRow

/-- An update, with what the writer draws and reads for it. -/
structure ReviewCall where
  store : Store
  nowMs : Int
  newId : Nat → String
  revisionId : String
  update : ReviewUpdate

/-- The review that the update names. -/
def ReviewCall.reviewId (c : ReviewCall) : ReviewId := trim c.update.reviewId

namespace Reviewed

/-- The last statement of `update_memory_claim_for_review_in_tx`. -/
def insertRevision (st : Reviewed) (c : ReviewCall) (claimId : ClaimId) (row : ReviewRow) :
    Option (Table RevisionRow) :=
  match revisionKind c.update.status with
  | some kind =>
    st.revisions.insert? ⟨c.revisionId, kind, claimId, row.reviewId, row.tripleId, c.update.status,
      c.nowMs⟩
  | none => some st.revisions

/-- `handle_memory_quality_review_update`. -/
def updateReview (st : Reviewed) (c : ReviewCall) : Except Error (Reviewed × ReviewRow) := do
  validateMemoryQualityReviewUpdate c.update
  match st.derived.review? c.reviewId with
  | none => .error (.notFound "memory quality review not found")
  | some row =>
    if row.status = c.update.status then
      return (⟨st.derived.setReviewStatus row.reviewId c.update.status, st.revisions⟩, row)
    else if row.status ≠ .needsReview then
      .error (.invalidInput
        s!"memory quality review {row.reviewId} is already {row.status.asStr}; terminal decisions are immutable")
    else do
      let d ← st.derived.applyReviewDecision c.store c.nowMs c.newId row c.update
      let d := d.setReviewStatus row.reviewId c.update.status
      let d' ← orStorage s!"UPDATE memory claim for review {row.reviewId}"
        (d.updateMemoryClaimForReview c.store row c.update.status)
      let revisions ← orStorage s!"INSERT memory revision for review {row.reviewId}"
        (st.insertRevision c (d.reviewClaimId row) row)
      return (⟨d', revisions⟩, { row with status := c.update.status })

/-- The command: an error rolls its transaction back. -/
def step (st : Reviewed) (c : ReviewCall) : Reviewed × Except Error ReviewRow :=
  match st.updateReview c with
  | .ok (st', row) => (st', .ok row)
  | .error e => (st, .error e)

/-- A step of a run. -/
structure Stepped where
  before : Reviewed
  call : ReviewCall
  reply : Except Error ReviewRow
  after : Reviewed

def stepped (st : Reviewed) (c : ReviewCall) : Stepped := ⟨st, c, (st.step c).2, (st.step c).1⟩

def trace (st : Reviewed) : List ReviewCall → List Stepped
  | [] => []
  | c :: calls => st.stepped c :: trace (st.step c).1 calls

def run (st : Reviewed) (calls : List ReviewCall) : Reviewed :=
  calls.foldl (fun st c => (st.step c).1) st

/-- A success repeats the status of its review, or decides an open one. -/
theorem updateReview_cases {st st' : Reviewed} {c : ReviewCall} {r : ReviewRow}
    (h : st.updateReview c = .ok (st', r)) : ∃ row, st.derived.review? c.reviewId = some row ∧
      (row.status = c.update.status ∧
        st' = ⟨st.derived.setReviewStatus row.reviewId c.update.status, st.revisions⟩ ∨
        row.status = .needsReview ∧ row.status ≠ c.update.status ∧
          ∃ d, st.derived.applyReviewDecision c.store c.nowMs c.newId row c.update = .ok d ∧
            (d.setReviewStatus row.reviewId c.update.status).updateMemoryClaimForReview c.store row
            c.update.status =
              some st'.derived ∧
            ∃ claimId, st.insertRevision c claimId row = some st'.revisions) := by
  obtain ⟨-, -, h⟩ := Result.bind_eq_ok.1 h
  split at h
  · cases h
  next row hrow =>
  refine ⟨row, hrow, ?_⟩
  split at h
  · next hsame =>
    rw [Result.pure_eq_ok, Prod.mk.injEq] at h
    exact .inl ⟨hsame, h.1.symm⟩
  next hnew =>
  split at h
  · cases h
  next hopen =>
  obtain ⟨d₁, h₁, h⟩ := Result.bind_eq_ok.1 h
  obtain ⟨d₂, h₂, h⟩ := Result.bind_eq_ok.1 h
  obtain ⟨revisions, hrev, h⟩ := Result.bind_eq_ok.1 h
  rw [Result.pure_eq_ok, Prod.mk.injEq] at h
  have hd : st'.derived = d₂ := h.1 ▸ rfl
  have hr : st'.revisions = revisions := h.1 ▸ rfl
  rw [hd, hr]
  exact .inr ⟨not_not.1 hopen, hnew, d₁, h₁, orStorage_eq_ok.1 h₂, _, orStorage_eq_ok.1 hrev⟩

/-- Without the revisions this is the command of the other modules. -/
theorem updateReview_derived {st st' : Reviewed} {c : ReviewCall} {r : ReviewRow}
    (h : st.updateReview c = .ok (st', r)) :
    st.derived.handleMemoryQualityReviewUpdate c.store c.nowMs c.newId c.update =
    .ok (st'.derived, r) := by
  unfold updateReview at h
  unfold Derived.handleMemoryQualityReviewUpdate
  obtain ⟨u, hvalid, h⟩ := Result.bind_eq_ok.1 h
  refine Result.bind_eq_ok.2 ⟨u, hvalid, ?_⟩
  change (match st.derived.review? c.reviewId with | none => _ | some row => _) = _
  cases hrow : st.derived.review? c.reviewId with
  | none =>
    rw [hrow] at h
    cases h
  | some row =>
    rw [hrow] at h
    dsimp only at h ⊢
    split at h
    · next hsame =>
      rw [if_pos hsame]
      rw [Result.pure_eq_ok, Prod.mk.injEq] at h
      rw [← h.1, ← h.2]
      rfl
    next hnew =>
    rw [if_neg hnew]
    split at h
    · cases h
    next hopen =>
    rw [if_neg hopen]
    obtain ⟨d₁, h₁, h⟩ := Result.bind_eq_ok.1 h
    obtain ⟨d₂, h₂, h⟩ := Result.bind_eq_ok.1 h
    obtain ⟨revisions, -, h⟩ := Result.bind_eq_ok.1 h
    rw [Result.pure_eq_ok, Prod.mk.injEq] at h
    refine Result.bind_eq_ok.2 ⟨d₁, h₁, Result.bind_eq_ok.2 ⟨d₂, h₂, ?_⟩⟩
    rw [← h.1, ← h.2]
    rfl

end Reviewed

/-! ### What a decision makes -/

/-- New facts: a row for each, and one claim under the fingerprint of each. -/
structure NewFacts (c : ReviewCall) (row : ReviewRow) (ts : List ActiveTriple)
    (before after : Derived) : Prop where
  triples : after.triples.rows = before.triples.rows ++ ts.map fun t =>
    t.row c.nowMs row.clusterId row.sourceEpisodeId row.provenance
  claims : ∀ t ∈ ts, after.memoryClaims.rows.countP
    (·.candidateFingerprint = activeClaimFingerprint t) = 1

/-- The facts of a decision. Approving activates the review's triple where it is, or makes it. -/
def FactsMade (c : ReviewCall) (row : ReviewRow) (before after : Derived) : Prop :=
  match c.update.status with
  | .approved => ∃ t : ActiveTriple, t.tripleId = row.tripleId.getD (c.newId 0) ∧
      ((∃ r ∈ before.triples, r.tripleId = t.tripleId) ∧
        after.triples.rows = before.triples.rows.map (fun r =>
          if r.tripleId = t.tripleId then Derived.promoted t row r else r) ∨
        (∀ r ∈ before.triples, r.tripleId ≠ t.tripleId) ∧ NewFacts c row [t] before after)
  | .rewritten => ∃ ts, ts.length = c.update.rewrites.length ∧ NewFacts c row ts before after
  | .needsReview | .dismissed => after.triples = before.triples

structure Decided (c : ReviewCall) (row : ReviewRow) (before after : Reviewed) : Prop where
  review : after.derived.review? row.reviewId = some { row with status := c.update.status }
  others : ∀ r ≠ row.reviewId, after.derived.review? r = before.derived.review? r
  facts : FactsMade c row before.derived after.derived
  claim : ∃ m ∈ after.derived.memoryClaims, m.reviewId = some row.reviewId ∧
    m.status = (Derived.claimDecision c.update.status).1 ∧
    after.derived.memoryClaims.rows.countP (·.claimId = m.claimId) = 1
  revision : ∃ rev, rev.previousId = row.reviewId ∧
    revisionKind c.update.status = some rev.revisionKind ∧
    after.revisions.rows = before.revisions.rows ++ [rev]

/-- Nothing is written but a review row, which keeps its status. -/
structure Inert (before after : Reviewed) : Prop where
  derived : after.derived = { before.derived with tripleReviews := after.derived.tripleReviews }
  reviews : ∀ r, after.derived.review? r = before.derived.review? r
  revisions : after.revisions = before.revisions

theorem Inert.refl (st : Reviewed) : Inert st st := ⟨rfl, fun _ => rfl, rfl⟩

namespace Derived

variable {s : Store} {nowMs : Int} {d d' : Derived}

theorem review?_eq_some {id : ReviewId} {r : ReviewRow} :
    d.review? id = some r ↔ r ∈ d.tripleReviews ∧ r.reviewId = id := by
  constructor
  · intro h
    simpa using Table.find?_mem h
  · rintro ⟨hr, rfl⟩
    cases h : d.review? r.reviewId with
    | none => simpa using Table.find?_eq_none.1 h r hr
    | some r' =>
      obtain ⟨hr', hid⟩ := Table.find?_mem h
      rw [Table.eq_of_clash hr' hr (by simpa [Keyed.clash] using Or.inl (of_decide_eq_true hid))]

theorem review?_setReviewStatus {id : ReviewId} {status : ReviewStatus} {r : ReviewId} :
    (d.setReviewStatus id status).review? r =
      (d.review? r).map fun row => if row.reviewId = id then { row with status := status }
      else row := by
  cases h : d.review? r with
  | none =>
    refine Table.find?_eq_none.2 fun row hrow => ?_
    rw [setReviewStatus, Table.mem_updateWhere] at hrow
    obtain ⟨row₀, hrow₀, rfl⟩ := hrow
    have hne := Table.find?_eq_none.1 h row₀ hrow₀
    split <;> simpa using hne
  | some row =>
    obtain ⟨hrow, rfl⟩ := review?_eq_some.1 h
    have hmem : (if row.reviewId = id then { row with status := status } else row) ∈
        (d.setReviewStatus id status).tripleReviews := by
      rw [setReviewStatus, Table.mem_updateWhere]
      exact ⟨row, hrow, by simp only [decide_eq_true_eq]⟩
    refine review?_eq_some.2 ⟨hmem, ?_⟩
    dsimp only
    split <;> rfl

/-- One claim for a fingerprint, one for a claim id. -/
theorem countP_claims {m : ClaimRow} (hm : m ∈ d.memoryClaims) :
    d.memoryClaims.rows.countP (·.candidateFingerprint = m.candidateFingerprint) = 1 ∧
      d.memoryClaims.rows.countP (·.claimId = m.claimId) = 1 := by
  have hnd : d.memoryClaims.rows.Nodup := d.memoryClaims.unique.imp fun {a b} hab heq => by
    subst heq
    simp [Keyed.clash] at hab
  have hone {p : ClaimRow → Bool} (hp : p m = true)
      (huniq : ∀ a ∈ d.memoryClaims, p a = true → a = m) : d.memoryClaims.rows.countP p = 1 := by
    rw [← List.count_eq_one_of_mem hnd (Table.mem_rows.2 hm), List.count_eq_countP]
    refine List.countP_congr fun a ha => ?_
    rw [beq_iff_eq]
    exact ⟨huniq a ha, fun h => h ▸ hp⟩
  constructor
  · refine hone (by simp) fun a ha h => Table.eq_of_clash ha hm ?_
    simpa [Keyed.clash] using Or.inr (of_decide_eq_true h)
  · refine hone (by simp) fun a ha h => Table.eq_of_clash ha hm ?_
    simpa [Keyed.clash] using Or.inl (of_decide_eq_true h)

/-- A written claim keeps the fingerprints that are there and has its own. -/
theorem fingerprints_upsert {claims claims' : Table ClaimRow} {m : ClaimRow} {own : String}
    {f : ClaimRow → ClaimRow} {hf}
    (hown : m.candidateFingerprint = own)
    (h : claims.upsert? m (·.candidateFingerprint = own) f hf = some claims')
    (hfp : ∀ old, (f old).candidateFingerprint = old.candidateFingerprint) (fp : String)
    (hold : (∃ a ∈ claims, a.candidateFingerprint = fp) ∨ own = fp) :
    ∃ a ∈ claims', a.candidateFingerprint = fp := by
  rcases hold with ⟨a, ha, rfl⟩ | rfl
  · by_cases hc : a.candidateFingerprint = own
    · exact ⟨f a, Table.mem_upsert_of_conflict h ha (by simpa using hc), hfp a⟩
    · exact ⟨a, Table.mem_upsert_of_not h ha (by simpa using hc), rfl⟩
  · rcases Table.exists_mem_upsert h with hm | ⟨b, -, hc, hb⟩
    · exact ⟨m, hm, hown⟩
    · exact ⟨f b, hb, (hfp b).trans (of_decide_eq_true hc)⟩

/-- Inserted facts: their rows at the end, and a claim under the fingerprint of each. -/
structure Inserted (nowMs : Int) (row : ReviewRow) (ts : List ActiveTriple) (d d' : Derived) :
    Prop where
  triples : d'.triples.rows = d.triples.rows ++ ts.map fun t =>
    t.row nowMs row.clusterId row.sourceEpisodeId row.provenance
  reviews : d'.tripleReviews = d.tripleReviews
  claims : ∀ fp, (∃ a ∈ d.memoryClaims, a.candidateFingerprint = fp) ∨
    (∃ t ∈ ts, activeClaimFingerprint t = fp) → ∃ a ∈ d'.memoryClaims, a.candidateFingerprint = fp

theorem insertActiveTriple_inserted {row : ReviewRow} {t : ActiveTriple}
    (h : d.insertActiveTriple s nowMs t row.clusterId row.sourceEpisodeId row.provenance =
      some d') :
    Inserted nowMs row [t] d d' := by
  obtain ⟨triples, claims, entities, edges, evidence, hins, hups, rfl⟩ :=
    insertActiveTriple_eq_some h
  have hown : (t.claim row.clusterId row.sourceEpisodeId).candidateFingerprint =
      activeClaimFingerprint t := rfl
  refine ⟨Table.insert?_rows hins, rfl, fun fp hfp => ?_⟩
  simp only [List.mem_singleton, exists_eq_left] at hfp
  generalize activeClaimFingerprint t = own at hown hups hfp
  refine fingerprints_upsert hown hups ?_ fp hfp
  intro old
  rfl

theorem insertRewritten_inserted {row : ReviewRow} {id : String} {r : ReviewRewrite}
    (h : d.insertRewrittenMemoryQualityFact s nowMs id row r = .ok d') :
    ∃ t : ActiveTriple, Inserted nowMs row [t] d d' := by
  obtain ⟨t, -, h⟩ := Result.bind_eq_ok.1 h
  split at h
  · cases h
  · exact ⟨t, insertActiveTriple_inserted (orStorage_eq_ok.1 h)⟩

/-- The loop over the replacement facts. -/
theorem insertRewrittens_inserted {row : ReviewRow} {newId : Nat → String}
    {rs : List (ReviewRewrite × Nat)}
    (h : rs.foldlM (fun d r => d.insertRewrittenMemoryQualityFact s nowMs (newId r.2) row r.1) d =
      .ok d') :
    ∃ ts : List ActiveTriple, ts.length = rs.length ∧ Inserted nowMs row ts d d' := by
  induction rs generalizing d with
  | nil =>
    rw [List.foldlM_nil, Result.pure_eq_ok] at h
    subst h
    exact ⟨[], rfl, by simp, rfl, fun fp hfp => by simpa using hfp⟩
  | cons r rs ih =>
    obtain ⟨d₁, h₁, h⟩ := Result.foldlM_cons_eq_ok.1 h
    obtain ⟨t, hone⟩ := insertRewritten_inserted h₁
    obtain ⟨ts, hlen, hrest⟩ := ih h
    refine ⟨t ::
      ts, by rw [List.length_cons, List.length_cons, hlen], ?_, hrest.reviews.trans hone.reviews,
      fun fp hfp => hrest.claims fp ?_⟩
    · rw [hrest.triples, hone.triples, List.append_assoc]
      rfl
    · rcases hfp with hold | ⟨u, hu, hfp⟩
      · exact .inl (hone.claims fp (.inl hold))
      · rcases List.mem_cons.1 hu with rfl | hu
        · exact .inl (hone.claims fp (.inr ⟨u, List.mem_singleton_self u, hfp⟩))
        · exact .inr ⟨u, hu, hfp⟩

/-- Promoting rewrites the triple of the review, or inserts it. -/
theorem promoteMemoryQualityReview_made {row : ReviewRow} {newId : String}
    (h : d.promoteMemoryQualityReview s nowMs newId row = .ok d') :
    d'.tripleReviews = d.tripleReviews ∧ ∃ t : ActiveTriple, t.tripleId = row.tripleId.getD newId ∧
      ((∃ r ∈ d.triples, r.tripleId = t.tripleId) ∧
          d'.triples.rows =
          d.triples.rows.map (fun r => if r.tripleId = t.tripleId then promoted t row r else r) ∨
        (∀ r ∈ d.triples, r.tripleId ≠ t.tripleId) ∧ Inserted nowMs row [t] d d') := by
  obtain ⟨t, ht, h⟩ := Result.bind_eq_ok.1 h
  have hid := (memoryQualityActiveTriple_eq_ok ht).1
  split at h
  · next hany =>
    obtain ⟨r, hr, hrid⟩ := List.any_eq_true.1 hany
    obtain ⟨-, -, h⟩ := Result.bind_eq_ok.1 h
    obtain ⟨d₁, h₁, h⟩ := Option.bind_eq_some_iff.1 (orStorage_eq_ok.1 h)
    obtain ⟨entities, rfl⟩ := upsertEntitiesForActiveTriple_eq_some h₁
    obtain ⟨edges, evidence, rfl⟩ := upsertRelationshipEdge_eq_some h
    refine ⟨rfl, t, hid, .inl ⟨⟨r, hr, (of_decide_eq_true hrid).trans hid.symm⟩, ?_⟩⟩
    simp only [promoteTriple, Table.updateWhere, decide_eq_true_eq]
  · next hany =>
    have hins := insertActiveTriple_inserted (orStorage_eq_ok.1 h)
    refine ⟨hins.reviews, t, hid, .inr ⟨fun r hr hrid => hany ?_, hins⟩⟩
    exact List.any_eq_true.2 ⟨r, hr, decide_eq_true (hrid.trans hid)⟩

/-- The claim of a review is there, or none has its fingerprint. -/
theorem exists_reviewClaimId (d : Derived) (row : ReviewRow) :
    (∃ m ∈ d.memoryClaims, m.claimId = d.reviewClaimId row) ∨
      ∀ m ∈ d.memoryClaims, m.candidateFingerprint ≠ row.candidateFingerprint := by
  unfold reviewClaimId
  split
  · next m hm => exact .inl ⟨m, (Table.find?_mem hm).1, rfl⟩
  split
  · next m hm => exact .inl ⟨m, (Table.find?_mem hm).1, rfl⟩
  · next hnone => exact .inr fun m hm => of_decide_eq_false (Table.find?_eq_none.1 hnone m hm)

/-- The claim of a decided review is there afterwards, and no fingerprint is lost. -/
theorem updateMemoryClaimForReview_decides {row : ReviewRow} {status : ReviewStatus}
    (h : d.updateMemoryClaimForReview s row status = some d') :
    (∃ claims, d' = { d with memoryClaims := claims }) ∧
      (∀ fp, (∃ a ∈ d.memoryClaims, a.candidateFingerprint = fp) →
        ∃ a ∈ d'.memoryClaims, a.candidateFingerprint = fp) ∧
      ∃ m ∈ d'.memoryClaims, m.reviewId = some row.reviewId ∧
      m.status = (claimDecision status).1 := by
  obtain ⟨d₁, h₁, h⟩ := Option.bind_eq_some_iff.1 h
  obtain ⟨claims₁, rfl, hkept, m, hm, hid⟩ : ∃ claims₁, d₁ = { d with memoryClaims := claims₁ } ∧
      (∀ a ∈ d.memoryClaims, a ∈ claims₁) ∧ ∃ m ∈ claims₁, m.claimId = d.reviewClaimId row := by
    unfold insertOrIgnoreClaim at h₁
    split at h₁
    · next claims hins =>
      obtain ⟨-, -, h₁⟩ := Option.bind_eq_some_iff.1 h₁
      exact ⟨claims, (Option.some.inj h₁).symm, fun a ha => (Table.mem_insert hins).2 (.inl ha),
        _, (Table.mem_insert hins).2 (.inr rfl), rfl⟩
    · next hins =>
      refine ⟨d.memoryClaims, (Option.some.inj h₁).symm, fun a ha => ha, ?_⟩
      obtain ⟨a, ha, hclash⟩ := Table.insert?_eq_none.1 hins
      rcases exists_reviewClaimId d row with hthere | hnone
      · exact hthere
      · have hne := hnone a ha
        rcases Bool.or_eq_true_iff.1 hclash with hid | hfp
        · exact ⟨a, ha, of_decide_eq_true hid⟩
        · exact absurd (of_decide_eq_true hfp) hne
  rw [← Option.some.inj h]
  have hmem {b : ClaimRow} (hb : b ∈ claims₁) :
      (if b.claimId = d.reviewClaimId row then decidedClaim row status b else b) ∈
        claims₁.updateWhere (·.claimId = d.reviewClaimId row) (decidedClaim row status) :=
    Table.mem_updateWhere.2 ⟨b, hb, by simp only [decide_eq_true_eq]⟩
  refine ⟨⟨_, rfl⟩, ?_,
    decidedClaim row status m, by simpa only [if_pos hid] using hmem hm, rfl, rfl⟩
  rintro fp ⟨a, ha, rfl⟩
  refine ⟨_, hmem (hkept a ha), ?_⟩
  split <;> rfl

/-- A decision leaves the reviews to the statement after it. -/
theorem applyReviewDecision_made {row : ReviewRow} {c : ReviewCall}
    (h : d.applyReviewDecision c.store c.nowMs c.newId row c.update = .ok d') :
    d'.tripleReviews = d.tripleReviews ∧
      ∀ d'' : Derived, d''.triples = d'.triples →
        (∀ fp, (∃ a ∈ d'.memoryClaims, a.candidateFingerprint = fp) →
          ∃ a ∈ d''.memoryClaims, a.candidateFingerprint = fp) → FactsMade c row d d'' := by
  have hnew {ts : List ActiveTriple} (hins : Inserted c.nowMs row ts d d') {d'' : Derived}
      (htriples : d''.triples = d'.triples)
      (hkept : ∀ fp, (∃ a ∈ d'.memoryClaims, a.candidateFingerprint = fp) →
        ∃ a ∈ d''.memoryClaims, a.candidateFingerprint = fp) : NewFacts c row ts d d'' := by
    refine ⟨htriples ▸ hins.triples, fun t ht => ?_⟩
    obtain ⟨m, hm, hfp⟩ := hkept _ (hins.claims _ (.inr ⟨t, ht, rfl⟩))
    rw [← hfp]
    exact (countP_claims hm).1
  unfold applyReviewDecision at h
  unfold FactsMade
  revert h
  cases c.update.status with
  | approved =>
    intro h
    obtain ⟨hreviews, t, hid, hmade⟩ := promoteMemoryQualityReview_made h
    refine ⟨hreviews, fun d'' htriples hkept => ⟨t, hid, ?_⟩⟩
    rcases hmade with ⟨hthere, hrows⟩ | ⟨hfresh, hins⟩
    · exact .inl ⟨hthere, htriples ▸ hrows⟩
    · exact .inr ⟨hfresh, hnew hins htriples hkept⟩
  | rewritten =>
    intro h
    dsimp only at h
    split at h
    · cases h
    · obtain ⟨ts, hlen, hins⟩ := insertRewrittens_inserted h
      refine ⟨hins.reviews, fun d'' htriples hkept => ⟨ts, ?_, hnew hins htriples hkept⟩⟩
      rw [hlen, List.length_zipIdx]
  | needsReview | dismissed =>
    intro h
    rw [Except.ok.injEq] at h
    exact ⟨by rw [h], fun d'' htriples _ => htriples.trans (by rw [h])⟩

end Derived

namespace Reviewed

/-- What a step does: refused, a repetition, or the decision on the open review that it names. -/
inductive StepEffect (st : Reviewed) (c : ReviewCall) : Reviewed × Except Error ReviewRow → Prop
  | refused (e : Error) : StepEffect st c (st, .error e)
  | repeated (st' : Reviewed) (reply : ReviewRow) : Inert st st' → StepEffect st c (st', .ok reply)
  | decided (st' : Reviewed) (row reply : ReviewRow) : st.derived.review? c.reviewId = some row →
      row.status = .needsReview → c.update.status ≠ .needsReview → Decided c row st st' →
      StepEffect st c (st', .ok reply)

theorem updateReview_decided {st st' : Reviewed} {c : ReviewCall} {row : ReviewRow} {d : Derived}
    {claimId : ClaimId}
    (hrow : st.derived.review? c.reviewId = some row) (hnew : c.update.status ≠ .needsReview)
    (hd : st.derived.applyReviewDecision c.store c.nowMs c.newId row c.update = .ok d)
    (hclaim : (d.setReviewStatus row.reviewId c.update.status).updateMemoryClaimForReview c.store
      row c.update.status = some st'.derived)
    (hrev : st.insertRevision c claimId row = some st'.revisions) : Decided c row st st' := by
  obtain ⟨hreviews, hfacts⟩ := Derived.applyReviewDecision_made hd
  obtain ⟨⟨claims, hd'⟩, hkept, m, hm, hreview, hstatus⟩ :=
    Derived.updateMemoryClaimForReview_decides hclaim
  have hlookup (r : ReviewId) : st'.derived.review? r =
      (st.derived.review? r).map fun a => if a.reviewId =
      row.reviewId then { a with status := c.update.status } else a := by
    have hafter : st'.derived.review? r = (d.setReviewStatus row.reviewId c.update.status).review?
        r := by rw [hd']; rfl
    rw [hafter, Derived.review?_setReviewStatus]
    unfold Derived.review?
    rw [hreviews]
  refine ⟨?_, fun r hr => ?_, hfacts _ (by rw [hd']; rfl) hkept,
    ⟨m, hm, hreview, hstatus, (Derived.countP_claims hm).2⟩, ?_⟩
  · have hself := Derived.review?_eq_some.2 ⟨(Derived.review?_eq_some.1 hrow).1, rfl⟩
    rw [hlookup, hself, Option.map_some, if_pos rfl]
  · rw [hlookup]
    cases ha : st.derived.review? r with
    | none => rfl
    | some a =>
      have hne : a.reviewId ≠ row.reviewId := (Derived.review?_eq_some.1 ha).2 ▸ hr
      rw [Option.map_some, if_neg hne]
  · unfold insertRevision at hrev
    split at hrev
    · next kind hkind => exact ⟨_, rfl, hkind, Table.insert?_rows hrev⟩
    · next hkind =>
      revert hkind hnew
      cases c.update.status <;> simp [revisionKind]

/-- A decision on an open review that nothing stands in the way of. -/
structure Valid (st : Reviewed) (c : ReviewCall) (row : ReviewRow) : Prop where
  review : st.derived.review? c.reviewId = some row
  needsReview : row.status = .needsReview
  decision : c.update.status ≠ .needsReview
  update : validateMemoryQualityReviewUpdate c.update = .ok ()
  facts : st.derived.FactsPass c.nowMs c.newId row c.update
  sound : st.derived.Sound c.store row
  revision : ∀ rev ∈ st.revisions, rev.revisionId ≠ c.revisionId

theorem Valid.updateReview {st : Reviewed} {c : ReviewCall} {row : ReviewRow} (h : st.Valid c row) :
    ∃ st', st.updateReview c = .ok (st', { row with status := c.update.status }) := by
  obtain ⟨d, hd⟩ := Derived.applyReviewDecision_isSome h.sound h.facts
  obtain ⟨d', hd'⟩ :=
    Derived.updateMemoryClaimForReview_isSome (d := d.setReviewStatus row.reviewId c.update.status)
    c.update.status h.sound.episode
  obtain ⟨revisions, hrev⟩ : ∃ revisions, st.insertRevision c
      ((d.setReviewStatus row.reviewId c.update.status).reviewClaimId row) row =
      some revisions := by
    unfold insertRevision
    cases revisionKind c.update.status with
    | none => exact ⟨_, rfl⟩
    | some kind =>
      refine Option.ne_none_iff_exists'.1 fun hins => ?_
      obtain ⟨rev, hmem, hclash⟩ := Table.insert?_eq_none.1 hins
      exact h.revision rev hmem (of_decide_eq_true hclash)
  refine ⟨⟨d', revisions⟩, Result.bind_eq_ok.2 ⟨(), h.update, ?_⟩⟩
  have hnew : row.status ≠ c.update.status := h.needsReview ▸ h.decision.symm
  simp only [h.review, if_neg hnew, if_neg (not_not.2 h.needsReview)]
  exact Result.bind_eq_ok.2 ⟨d, hd, Result.bind_eq_ok.2 ⟨d', orStorage_eq_ok.2 hd',
    Result.bind_eq_ok.2 ⟨revisions, orStorage_eq_ok.2 hrev, rfl⟩⟩⟩

theorem step_effect (st : Reviewed) (c : ReviewCall) : StepEffect st c (st.step c) := by
  unfold step
  cases h : st.updateReview c with
  | error e => exact .refused e
  | ok res =>
    obtain ⟨st', reply⟩ := res
    obtain ⟨row, hrow, ⟨hsame, rfl⟩ | ⟨hopen, hne, d, hd, hclaim, claimId, hrev⟩⟩ :=
      updateReview_cases h
    · refine .repeated _ _ ⟨rfl, fun r => ?_, rfl⟩
      rw [Derived.review?_setReviewStatus]
      cases ha : st.derived.review? r with
      | none => rfl
      | some a =>
        rw [Option.map_some, Option.some.injEq]
        split
        · next hid =>
          have hmem := (Derived.review?_eq_some.1 hrow).1
          have heq : a = row :=
            Table.eq_of_clash (Derived.review?_eq_some.1 ha).1 hmem (by simp [Keyed.clash, hid])
          rw [heq, ← hsame]
        · rfl
    · exact .decided st' row reply hrow hopen (hopen ▸ hne.symm)
        (updateReview_decided hrow (hopen ▸ hne.symm) hd hclaim hrev)

def isOpen (st : Reviewed) (r : ReviewId) : Bool :=
  (st.derived.review? r).any (·.status = .needsReview)

def isDecided (st : Reviewed) (r : ReviewId) : Bool :=
  (st.derived.review? r).any (·.status ≠ .needsReview)

/-- The step takes the review out of `needs_review`. -/
def Stepped.leaves (x : Stepped) (r : ReviewId) : Bool := x.before.isOpen r && x.after.isDecided r

theorem isOpen_iff {st : Reviewed} {r : ReviewId} :
    st.isOpen r = true ↔ ∃ row, st.derived.review? r = some row ∧ row.status = .needsReview := by
  simp [isOpen, Option.any_eq_true]

theorem isDecided_iff {st : Reviewed} {r : ReviewId} :
    st.isDecided r = true ↔ ∃ row, st.derived.review? r = some row ∧ row.status ≠ .needsReview := by
  simp [isDecided, Option.any_eq_true]

theorem isDecided_congr {st st' : Reviewed} {r : ReviewId}
    (h : st'.derived.review? r = st.derived.review? r) : st'.isDecided r = st.isDecided r := by
  rw [isDecided, isDecided, h]

theorem not_isDecided_of_isOpen {st : Reviewed} {r : ReviewId} (h : st.isOpen r = true) :
    st.isDecided r = false := by
  obtain ⟨row, hrow, hopen⟩ := isOpen_iff.1 h
  simp [isDecided, hrow, hopen]

/-- A review that the step does not change does not leave. -/
theorem leaves_eq_false {x : Stepped} {r : ReviewId}
    (h : x.after.derived.review? r = x.before.derived.review? r) : x.leaves r = false := by
  unfold Stepped.leaves
  rw [isDecided_congr h]
  cases hopen : x.before.isOpen r with
  | false => rfl
  | true => rw [not_isDecided_of_isOpen hopen, Bool.and_false]

/-- What a step of a run has done. -/
structure AppliedStep (x : Stepped) : Prop where
  refused : (∃ e, x.reply = .error e) → x.after = x.before
  applied : ∀ row, x.before.Valid x.call row →
    x.reply = .ok { row with status := x.call.update.status } ∧ Decided x.call row x.before x.after
  answered : ∀ reply, x.reply = .ok reply → ∃ row, x.before.derived.review? x.call.reviewId =
    some row ∧
    (row.status = x.call.update.status ∨ row.status = .needsReview ∧
      Decided x.call row x.before x.after)
  decided : ∀ r, x.leaves r = true → ∃ row, x.before.derived.review? r = some row ∧
    x.call.reviewId = r ∧ row.status = .needsReview ∧ Decided x.call row x.before x.after
  inert : (∀ r, x.leaves r = false) → Inert x.before x.after

/-- The review that a step decides leaves. -/
theorem leaves_of_decided {x : Stepped} {row : ReviewRow}
    (hrow : x.before.derived.review? x.call.reviewId = some row)
    (hopen : row.status = .needsReview) (hnew : x.call.update.status ≠ .needsReview)
    (h : Decided x.call row x.before x.after) : x.leaves x.call.reviewId = true := by
  have hid := (Derived.review?_eq_some.1 hrow).2
  exact Bool.and_eq_true_iff.2
    ⟨isOpen_iff.2 ⟨row, hrow, hopen⟩, isDecided_iff.2 ⟨_, hid ▸ h.review, hnew⟩⟩

theorem updateReview_answered {st st' : Reviewed} {c : ReviewCall} {reply : ReviewRow}
    (h : st.updateReview c = .ok (st', reply)) : ∃ row, st.derived.review? c.reviewId = some row ∧
      (row.status = c.update.status ∨ row.status = .needsReview ∧ Decided c row st st') := by
  obtain ⟨row, hrow, ⟨hsame, -⟩ | ⟨hopen, hne, d, hd, hclaim, claimId, hrev⟩⟩ :=
    updateReview_cases h
  · exact ⟨row, hrow, .inl hsame⟩
  · exact ⟨row, hrow, .inr ⟨hopen, updateReview_decided hrow (hopen ▸ hne.symm) hd hclaim hrev⟩⟩

theorem step_answered {st : Reviewed} {c : ReviewCall} {reply : ReviewRow}
    (h : (st.step c).2 = .ok reply) : ∃ row, st.derived.review? c.reviewId = some row ∧
      (row.status = c.update.status ∨ row.status = .needsReview ∧
        Decided c row st (st.step c).1) := by
  unfold step at h ⊢
  cases hup : st.updateReview c with
  | error e =>
    rw [hup] at h
    cases h
  | ok res => exact updateReview_answered hup

/-- A valid decision is answered `Ok`, and decides. -/
theorem Valid.applied {st : Reviewed} {c : ReviewCall} {row : ReviewRow} (h : st.Valid c row) :
    (st.step c).2 = .ok { row with status := c.update.status } ∧
    Decided c row st (st.step c).1 := by
  obtain ⟨st', hup⟩ := h.updateReview
  have hreply : (st.step c).2 = .ok { row with status := c.update.status } := by
    simp only [step, hup]
  refine ⟨hreply, ?_⟩
  obtain ⟨row', hrow, hsame | ⟨-, hdecided⟩⟩ := step_answered hreply
  · rw [h.review] at hrow
    obtain rfl := Option.some.inj hrow
    exact absurd (hsame.symm.trans h.needsReview) h.decision
  · rw [h.review] at hrow
    obtain rfl := Option.some.inj hrow
    exact hdecided

theorem stepped_applied (st : Reviewed) (c : ReviewCall) : AppliedStep (st.stepped c) := by
  have happlied (row : ReviewRow) (h : st.Valid c row) := h.applied
  have hanswered (reply : ReviewRow) (h : (st.step c).2 = .ok reply) := step_answered h
  unfold stepped
  have heffect := step_effect st c
  generalize st.step c = res at heffect happlied hanswered
  cases heffect with
  | refused e =>
    refine ⟨fun _ => rfl, happlied, hanswered, fun r hr => ?_, fun _ => Inert.refl st⟩
    rw [leaves_eq_false rfl] at hr
    cases hr
  | repeated st' reply hinert =>
    refine ⟨by rintro ⟨e, ⟨⟩⟩, happlied, hanswered, fun r hr => ?_, fun _ => hinert⟩
    rw [leaves_eq_false (hinert.reviews r)] at hr
    cases hr
  | decided st' row reply hrow hopen hnew hdecided =>
    refine ⟨by rintro ⟨e, ⟨⟩⟩, happlied, hanswered, fun r hr => ?_, fun hnone => ?_⟩
    · by_cases hid : c.reviewId = r
      · exact ⟨row, hid ▸ hrow, hid, hopen, hdecided⟩
      · have hne : r ≠ row.reviewId :=
          fun h => hid ((Derived.review?_eq_some.1 hrow).2.symm.trans h.symm)
        rw [leaves_eq_false (hdecided.others r hne)] at hr
        cases hr
    · have hleaves := leaves_of_decided (x := ⟨st, c, .ok reply, st'⟩) hrow hopen hnew hdecided
      rw [hnone] at hleaves
      cases hleaves

/-- A decided review stays decided. -/
theorem isDecided_step {st : Reviewed} {c : ReviewCall} {r : ReviewId} (h : st.isDecided r = true) :
    (st.step c).1.isDecided r = true := by
  have heffect := step_effect st c
  generalize st.step c = res at heffect ⊢
  cases heffect with
  | refused e => exact h
  | repeated st' reply hinert => rwa [isDecided_congr (hinert.reviews r)]
  | decided st' row reply hrow hopen hnew hdecided =>
    by_cases hid : r = row.reviewId
    · exact isDecided_iff.2 ⟨_, hid ▸ hdecided.review, hnew⟩
    · rwa [isDecided_congr (hdecided.others r hid)]

/-- A step logs one revision for the review that leaves, and none else. -/
theorem countP_revisions_step (st : Reviewed) (c : ReviewCall) (r : ReviewId) :
    (st.step c).1.revisions.rows.countP (·.previousId = r) =
      st.revisions.rows.countP (·.previousId = r) + if (st.stepped c).leaves r then 1 else 0 := by
  have happlied := stepped_applied st c
  by_cases hleaves : ∃ r', (st.stepped c).leaves r' = true
  · obtain ⟨r', hr'⟩ := hleaves
    obtain ⟨row, hrow, hcall, -, hdecided⟩ := happlied.decided r' hr'
    obtain ⟨rev, hprev, -, hrows⟩ := hdecided.revision
    have hid : rev.previousId = r' := hprev.trans (Derived.review?_eq_some.1 hrow).2
    have hafter : (st.step c).1.revisions.rows = st.revisions.rows ++ [rev] := hrows
    rw [hafter, List.countP_append, List.countP_singleton, hid]
    by_cases h : r' = r
    · rw [← h, hr']
      simp
    · have hnot : (st.stepped c).leaves r = false := by
        by_contra hr
        obtain ⟨-, -, hcall', -⟩ := happlied.decided r (by simpa using hr)
        exact h (hcall.symm.trans hcall')
      simp [h, hnot]
  · have hnone : ∀ r', (st.stepped c).leaves r' = false := by simpa using hleaves
    have hafter : (st.step c).1.revisions = st.revisions := (happlied.inert hnone).revisions
    rw [hafter, hnone r]
    simp

/-- A decided review leaves in no step of a run. -/
theorem countP_leaves_of_isDecided {st : Reviewed} {r : ReviewId} (h : st.isDecided r = true)
    (calls : List ReviewCall) : (st.trace calls).countP (·.leaves r) = 0 := by
  induction calls generalizing st with
  | nil => rfl
  | cons c calls ih =>
    have hnot : (st.stepped c).leaves r = false := by
      by_contra hr
      have hopen : st.isOpen r = true := (Bool.and_eq_true_iff.1 (eq_true_of_ne_false hr)).1
      rw [not_isDecided_of_isOpen hopen] at h
      cases h
    rw [trace, List.countP_cons, ih (isDecided_step h), hnot]
    simp

end Reviewed

/-- Each review leaves `needs_review` once at most, with one revision; every step is refused, inert
or the one that decides its review, and a valid decision is of the last kind. -/
structure AppliedOnce (st : Reviewed) (calls : List ReviewCall) : Prop where
  once : ∀ r, (st.trace calls).countP (·.leaves r) ≤ 1
  steps : ∀ x ∈ st.trace calls, Reviewed.AppliedStep x
  logged : ∀ r, (st.run calls).revisions.rows.countP (·.previousId = r) =
    st.revisions.rows.countP (·.previousId = r) + (st.trace calls).countP (·.leaves r)

theorem reviews_appliedOnce (st : Reviewed) (calls : List ReviewCall) : AppliedOnce st calls := by
  induction calls generalizing st with
  | nil => exact ⟨fun r => Nat.zero_le 1, by simp [Reviewed.trace], fun r => rfl⟩
  | cons c calls ih =>
    have hrest := ih (st.step c).1
    have hcount (r : ReviewId) : (st.trace (c :: calls)).countP (·.leaves r) =
        ((st.step c).1.trace calls).countP (·.leaves r) + if (st.stepped c).leaves r then 1
        else 0 := by
      rw [Reviewed.trace, List.countP_cons]
    refine ⟨fun r => ?_, fun x hx => ?_, fun r => ?_⟩
    · rw [hcount]
      split
      · next hleaves =>
        have hafter : (st.step c).1.isDecided r = true := (Bool.and_eq_true_iff.1 hleaves).2
        rw [Reviewed.countP_leaves_of_isDecided hafter]
      · exact hrest.once r
    · rcases List.mem_cons.1 hx with rfl | hx
      · exact Reviewed.stepped_applied st c
      · exact hrest.steps x hx
    · have hlogged : (st.run (c :: calls)).revisions.rows.countP (·.previousId = r) = _ :=
        hrest.logged r
      rw [hlogged, Reviewed.countP_revisions_step, hcount]
      omega

namespace OpenReview

/-- A fact that was held back. -/
def row : ReviewRow :=
  ⟨"trv-1", "1", none, none, none, "Ada Lovelace", "works_at", "Analytical Engines", .entity, 0.5,
    "low_confidence", "", ⟨[], "llm", "steward", 0⟩, .needsReview, 0⟩

def pending : Reviewed :=
  ⟨{ Derived.empty with tripleReviews := Table.empty.insertOrIgnore row }, .empty⟩

def decision (status : ReviewStatus) (rewrites : List ReviewRewrite) : ReviewCall :=
  ⟨.empty, 1, fun _ => "t1", "rev-1", ⟨"trv-1", status, rewrites⟩⟩

theorem sound : Derived.Sound .empty pending.derived row :=
  ⟨rfl, rfl, fun _ hv => absurd hv Table.not_mem_empty,
    fun _ hm => absurd hm Table.not_mem_empty⟩

end OpenReview

open OpenReview in
example : pending.Valid (decision .approved []) row :=
  ⟨by decide +kernel, rfl, by decide, rfl, ⟨_, rfl⟩, sound, by decide⟩

open OpenReview in
example : pending.Valid
    (decision .rewritten [⟨"Ada Lovelace", "works_at", "Analytical Engines", "entity", some 0.9⟩])
    row :=
  ⟨by decide +kernel, rfl, by decide, rfl,
    ⟨by simp [decision], _, rfl, by decide, by decide +kernel, trivial⟩, sound, by decide⟩

end Solo
