import Solo.Derived.Review

/-!
# Decisions that go through

The statements of a decision fail on a missing reference or on an id that is taken. `Acceptable`
says of a decision on an open review that its facts are well formed and pass the gate, and that the
ids drawn for it are new; `applyReviewDecision_isSome` and `updateMemoryClaimForReview_isSome` then
carry it through.
-/

namespace Solo

open Text

namespace Derived

variable {s : Store} {nowMs : Int} {d d' : Derived}

/-- Evidence and claims carry the ids that the code gives them. -/
structure IdsTrue (d : Derived) : Prop where
  evidence : ∀ v ∈ d.relationshipEvidence, v.evidenceId = v.tripleId
  claims : ∀ m ∈ d.memoryClaims, ∀ fp : String, m.claimId = s!"mc-{fp}" →
    m.candidateFingerprint = fp

/-! ### One statement -/

theorem upsertEntity_isSome (d : Derived) (id : EntityId) :
    ∃ entities, d.upsertEntity id = some { d with entities } ∧
    (∀ e ∈ d.entities, ∃ e' ∈ entities, e'.entityId = e.entityId) ∧
    (id.isEmpty = false → ∃ e ∈ entities, e.entityId = id) := by
  by_cases hid : id.isEmpty = true
  · exact ⟨d.entities, by simp only [upsertEntity, hid, if_true], fun e he => ⟨e, he, rfl⟩, by simp [hid]⟩
  obtain ⟨entities, hups⟩ : ∃ entities, d.entities.upsert? ⟨id, .active⟩ (·.entityId = id)
      (fun old =>
      { old with status := if old.status = .candidate then .active else old.status }) =
        some entities := by
    unfold Table.upsert?
    split
    · exact ⟨_, rfl⟩
    · next hnone =>
      refine Option.ne_none_iff_exists'.1 fun hins => ?_
      obtain ⟨e, he, hclash⟩ := Table.insert?_eq_none.1 hins
      exact hnone (List.any_eq_true.2 ⟨e, he, hclash⟩)
  refine ⟨entities, ?_, fun e he => ?_, fun _ => ?_⟩
  · simp only [upsertEntity, hid, hups]
    rfl
  · by_cases hc : e.entityId = id
    · exact ⟨_, Table.mem_upsert_of_conflict hups he (by simpa using hc), rfl⟩
    · exact ⟨e, Table.mem_upsert_of_not hups he (by simpa using hc), rfl⟩
  · rcases Table.exists_mem_upsert hups with hnew | ⟨e, -, hc, he⟩
    · exact ⟨_, hnew, rfl⟩
    · exact ⟨_, he, of_decide_eq_true hc⟩

/-- An active triple whose ends are names, its object too if it is an entity. -/
structure Ends (t : ActiveTriple) : Prop where
  subject : t.subjectId.isEmpty = false
  object : t.objectKind = .entity → t.objectAlias.isSome = true ∧ t.objectId.isEmpty = false

theorem upsertEntitiesForActiveTriple_isSome (d : Derived) {t : ActiveTriple} (ht : Ends t) :
    ∃ entities, d.upsertEntitiesForActiveTriple t = some { d with entities } ∧
      (∃ e ∈ entities, e.entityId = t.subjectId) ∧
      (t.objectKind = .entity → ∃ e ∈ entities, e.entityId = t.objectId) := by
  obtain ⟨e₁, h₁, -, hsubject⟩ := d.upsertEntity_isSome t.subjectId
  unfold upsertEntitiesForActiveTriple
  rw [h₁]
  cases halias : t.objectAlias with
  | none =>
    refine ⟨e₁, rfl, hsubject ht.subject, fun hkind => ?_⟩
    have hsome := (ht.object hkind).1
    rw [halias] at hsome
    cases hsome
  | some a =>
    obtain ⟨e₂, h₂, hkept, hobject⟩ :=
      ({ d with entities := e₁ } : Derived).upsertEntity_isSome t.objectId
    obtain ⟨e, he, hid⟩ := hsubject ht.subject
    obtain ⟨e', he', hid'⟩ := hkept e he
    exact ⟨e₂, h₂, ⟨e', he', hid'.trans hid⟩, fun hkind => hobject (ht.object hkind).2⟩

theorem upsertEdge_isSome {e : EdgeRow}
    (hsubject : ∃ x ∈ d.entities, x.entityId = e.subjectEntityId)
    (hobject : ∀ id, e.object.entityId? = some id → ∃ x ∈ d.entities, x.entityId = id) :
    ∃ edges, d.upsertEdge e = some { d with relationshipEdges := edges } ∧
    ∃ x ∈ edges, x.edgeId = e.edgeId := by
  obtain ⟨edges, hups⟩ : ∃ edges, d.relationshipEdges.upsert? e (·.edgeId = e.edgeId) (fun old =>
      { e with edgeId := old.edgeId, evidenceCount := old.evidenceCount }) = some edges := by
    unfold Table.upsert?
    split
    · exact ⟨_, rfl⟩
    · next hnone =>
      refine Option.ne_none_iff_exists'.1 fun hins => ?_
      obtain ⟨x, hx, hclash⟩ := Table.insert?_eq_none.1 hins
      exact hnone (List.any_eq_true.2 ⟨x, hx, hclash⟩)
  have href {id : Option EntityId} (h : ∀ i, id = some i → ∃ x ∈ d.entities, x.entityId = i) :
      d.entityRef id = true := by
    cases id with
    | none => rfl
    | some i =>
      obtain ⟨x, hx, hxi⟩ := h i rfl
      exact List.any_eq_true.2 ⟨x, hx, decide_eq_true hxi⟩
  have hs : d.entityRef (some e.subjectEntityId) = true :=
    href fun i hi => Option.some.inj hi ▸ hsubject
  refine ⟨edges, ?_, ?_⟩
  · simp only [upsertEdge, hs, href hobject, Bool.and_self, guard_true, hups]
    rfl
  · rcases Table.exists_mem_upsert hups with hnew | ⟨x, -, hc, hx⟩
    · exact ⟨_, hnew, rfl⟩
    · exact ⟨_, hx, of_decide_eq_true hc⟩

/-- Evidence of a triple goes in where its edge and its triple are. -/
theorem upsertEvidence_isSome {v : EvidenceRow}
    (hedge : ∃ e ∈ d.relationshipEdges, e.edgeId = v.edgeId)
    (htriple : ∃ t ∈ d.triples, t.tripleId = v.tripleId)
    (hcluster : d.clusterRef v.clusterId = true)
    (hepisode : s.episodeRef v.sourceEpisodeId = true) (hv : v.evidenceId = v.tripleId)
    (hids : ∀ w ∈ d.relationshipEvidence, w.evidenceId = w.tripleId) :
    ∃ edges evidence, d.upsertEvidence s v =
        some { d with relationshipEdges := edges, relationshipEvidence := evidence } ∧
      ∀ w ∈ evidence, w.evidenceId = w.tripleId := by
  obtain ⟨e, he, hee⟩ := hedge
  obtain ⟨t, ht, htt⟩ := htriple
  have hany : (d.relationshipEdges.rows.any (·.edgeId = v.edgeId)) = true :=
    List.any_eq_true.2 ⟨e, he, decide_eq_true hee⟩
  have hanyt : (d.triples.rows.any (·.tripleId = v.tripleId)) = true :=
    List.any_eq_true.2 ⟨t, ht, decide_eq_true htt⟩
  by_cases hthere : (d.relationshipEvidence.rows.any (·.tripleId = v.tripleId)) = true
  · refine ⟨d.relationshipEdges, d.relationshipEvidence.updateWhere (·.tripleId = v.tripleId)
      fun old =>
      { v with evidenceId := old.evidenceId, tripleId := old.tripleId, docId := old.docId, chunkId := old.chunkId }, ?_,
      fun w hw => ?_⟩
    · simp only [upsertEvidence, hany, hanyt, hcluster, hepisode, Bool.and_self, guard_true, hthere,
        if_true]
      rfl
    · obtain ⟨w₀, hw₀, rfl⟩ := Table.mem_updateWhere.1 hw
      split
      · exact hids w₀ hw₀
      · exact hids w₀ hw₀
  · obtain ⟨evidence, hins⟩ : ∃ evidence, d.relationshipEvidence.insert? v = some evidence := by
      refine Option.ne_none_iff_exists'.1 fun hins => ?_
      obtain ⟨w, hw, hclash⟩ := Table.insert?_eq_none.1 hins
      refine hthere (List.any_eq_true.2 ⟨w, hw, ?_⟩)
      rcases Bool.or_eq_true_iff.1 hclash with hid | hid
      · have hwv : w.evidenceId = v.evidenceId := of_decide_eq_true hid
        exact decide_eq_true ((hids w hw).symm.trans (hwv.trans hv))
      · exact hid
    refine ⟨(({ d with relationshipEvidence := evidence } : Derived).recount
      v.edgeId).relationshipEdges, evidence, ?_, fun w hw => ?_⟩
    · simp only [upsertEvidence, hany, hanyt, hcluster, hepisode, Bool.and_self, guard_true, hthere,
        hins]
      rfl
    · rcases (Table.mem_insert hins).1 hw with hw | rfl
      · exact hids w hw
      · exact hv

theorem upsertRelationshipEdge_isSome {t : ActiveTriple} {c : Option ClusterId} {src : Option Rowid}
    (hsubject : ∃ e ∈ d.entities, e.entityId = t.subjectId)
    (hobject : t.objectKind = .entity → ∃ e ∈ d.entities, e.entityId = t.objectId)
    (htriple : ∃ r ∈ d.triples, r.tripleId = t.tripleId) (hcluster : d.clusterRef c = true)
    (hepisode : s.episodeRef src = true)
    (hids : ∀ w ∈ d.relationshipEvidence, w.evidenceId = w.tripleId) :
    ∃ edges evidence, d.upsertRelationshipEdge s t c src =
        some { d with relationshipEdges := edges, relationshipEvidence := evidence } ∧
      ∀ w ∈ evidence, w.evidenceId = w.tripleId := by
  have hends : ∀ id, t.edge.object.entityId? = some id → ∃ x ∈ d.entities, x.entityId = id := by
    intro id hid
    cases hkind : t.objectKind with
    | entity =>
      rw [ActiveTriple.edge, hkind] at hid
      exact Option.some.inj hid ▸ hobject hkind
    | literal =>
      rw [ActiveTriple.edge, hkind] at hid
      cases hid
  obtain ⟨edges, hedge, hthere⟩ := upsertEdge_isSome (d := d) (e := t.edge) hsubject hends
  unfold upsertRelationshipEdge
  rw [hedge]
  exact upsertEvidence_isSome (d := { d with relationshipEdges := edges })
    hthere htriple hcluster hepisode rfl hids

theorem mc_injective {a b : String} (h : s!"mc-{a}" = s!"mc-{b}") : a = b := by
  have hlist := congrArg String.toList h
  simp only [toString, String.toList_append] at hlist
  exact String.toList_inj.1 (List.append_cancel_left hlist)

/-- The claim of an active triple goes in. -/
theorem upsertClaim_isSome {m : ClaimRow} {f : ClaimRow → ClaimRow} (hf)
    (hepisode : s.episodeRef m.sourceEpisodeId = true)
    (hm : m.claimId = s!"mc-{m.candidateFingerprint}") (hids : d.IdsTrue)
    (hkeys : ∀ old, (f old).claimId = old.claimId ∧
      (f old).candidateFingerprint = old.candidateFingerprint) :
    ∃ claims, d.upsertClaim s m f hf = some { d with memoryClaims := claims } ∧
      ({ d with memoryClaims := claims } : Derived).IdsTrue := by
  obtain ⟨claims, hups⟩ : ∃ claims,
      d.memoryClaims.upsert? m (·.candidateFingerprint = m.candidateFingerprint) f hf =
      some claims := by
    unfold Table.upsert?
    split
    · exact ⟨_, rfl⟩
    · next hnone =>
      refine Option.ne_none_iff_exists'.1 fun hins => ?_
      obtain ⟨x, hx, hclash⟩ := Table.insert?_eq_none.1 hins
      refine hnone (List.any_eq_true.2 ⟨x, hx, ?_⟩)
      rcases Bool.or_eq_true_iff.1 hclash with hid | hfp
      · exact decide_eq_true (hids.claims x hx _ ((of_decide_eq_true hid).trans hm))
      · exact hfp
  refine ⟨claims, ?_, hids.evidence, fun x hx fp hfp => ?_⟩
  · simp only [upsertClaim, hepisode, guard_true, hups]
    rfl
  · rcases Table.mem_of_mem_upsert hups hx with rfl | ⟨old, hold, -, rfl⟩ | ⟨hold, -⟩
    · exact mc_injective (hm.symm.trans hfp)
    · rw [(hkeys old).1] at hfp
      exact (hkeys old).2.trans (hids.claims old hold fp hfp)
    · exact hids.claims x hold fp hfp

/-- A well-formed fact with a new id is inserted. -/
theorem insertActiveTriple_isSome (nowMs : Int) {t : ActiveTriple} {c : Option ClusterId}
    {src : Option Rowid}
    (prov : Provenance) (ht : Ends t) (hfresh : ∀ r ∈ d.triples, r.tripleId ≠ t.tripleId)
    (hcluster : d.clusterRef c = true) (hepisode : s.episodeRef src = true) (hids : d.IdsTrue) :
    ∃ d', d.insertActiveTriple s nowMs t c src prov = some d' ∧ d'.IdsTrue ∧
    d'.clusters = d.clusters := by
  obtain ⟨entities, hentities, hsubject, hobject⟩ := d.upsertEntitiesForActiveTriple_isSome ht
  obtain ⟨triples, hins⟩ : ∃ triples, d.triples.insert? (t.row nowMs c src prov) =
      some triples := by
    refine Option.ne_none_iff_exists'.1 fun hins => ?_
    obtain ⟨r, hr, hclash⟩ := Table.insert?_eq_none.1 hins
    exact hfresh r hr (of_decide_eq_true hclash)
  have htriple :
      ({ d with entities := entities } : Derived).insertTriple s (t.row nowMs c src prov) =
      some { d with entities := entities, triples := triples } := by
    have hc : ({ d with entities := entities } : Derived).clusterRef c = true := hcluster
    simp only [insertTriple, ActiveTriple.row, hc, hepisode, Bool.and_self, guard_true]
    change (d.triples.insert? (t.row nowMs c src prov)).bind _ = _
    rw [hins]
    rfl
  obtain ⟨edges, evidence, hedge, hevidence⟩ :=
    upsertRelationshipEdge_isSome (d := { d with entities := entities, triples := triples })
      (c := c) (t := t)
      hsubject hobject ⟨_, (Table.mem_insert hins).2 (.inr rfl), rfl⟩
      hcluster hepisode hids.evidence
  obtain ⟨claims, hclaims, hids'⟩ := upsertClaim_isSome
    (d := { d with entities, triples, relationshipEdges := edges, relationshipEvidence := evidence })
    (m := t.claim c src) (f := fun old => { t.claim c src with
      claimId := old.claimId, candidateFingerprint := old.candidateFingerprint,
      sourceType := old.sourceType,
      userApproved := old.userApproved, docId := old.docId, chunkId := old.chunkId })
    (by intros; rfl) hepisode rfl ⟨hevidence, hids.claims⟩ fun old => ⟨rfl, rfl⟩
  refine ⟨_, ?_, hids', rfl⟩
  simp only [insertActiveTriple, hentities, htriple, hedge, insertMemoryClaimForActiveTriple,
    Option.bind_eq_bind, Option.bind_some]
  exact hclaims

/-! ### The facts of a decision -/

theorem canonicalEntityId_ends {tripleId : TripleId}
    {subjectId predicate objectId objectKind : String}
    {confidence : Float32} {validFromMs : Int} {t : ActiveTriple}
    (h : memoryQualityActiveTriple tripleId subjectId predicate objectId objectKind confidence
      validFromMs = .ok t) :
    Ends t := by
  simp only [memoryQualityActiveTriple] at h
  split at h
  · cases h
  next hsubject =>
  split at h
  · cases h
  obtain ⟨⟨id, a, kind⟩, hobject, h⟩ := Result.bind_eq_ok.1 h
  rw [Result.pure_eq_ok] at h
  subst h
  refine ⟨by simpa using hsubject, fun hkind => ?_⟩
  dsimp only at hkind ⊢
  subst hkind
  unfold memoryQualityObject at hobject
  split at hobject
  · dsimp only at hobject
    split at hobject
    · cases hobject
    next hne =>
    rw [Except.ok.injEq, Prod.mk.injEq, Prod.mk.injEq] at hobject
    obtain ⟨rfl, rfl, -⟩ := hobject
    exact ⟨rfl, by simpa using hne⟩
  · split at hobject
    · cases hobject
    · simp at hobject

/-- The fact that a promoted review stands for. -/
def promotedTriple (newId : String) (row : ReviewRow) : Except Error ActiveTriple :=
  memoryQualityActiveTriple (row.tripleId.getD newId) row.subjectId row.predicate row.objectId
    row.objectKind.asStr (Binary32.max row.confidence 0.9) row.createdAtMs

/-- The fact of a rewrite. -/
def rewrittenTriple (nowMs : Int) (newId : String) (row : ReviewRow) (r : ReviewRewrite) :
    Except Error ActiveTriple :=
  memoryQualityActiveTriple newId (trim r.subjectId) (trim r.predicate) (trim r.objectId)
    (trim r.objectKind) (r.confidence.getD (Binary32.max row.confidence 0.9)) nowMs

/-- Whether the facts so far have no active relationship of the subject. -/
def literalOnlyAmong (facts : List TripleRow) (subjectId : String) : Bool :=
  !facts.any fun t =>
    t.status = .active && t.objectKind = .entity &&
      (t.subjectId = subjectId || t.objectId = subjectId)

/-- Each rewrite is a well-formed fact with a new id, and passes the gate over the facts before
it. -/
def RewritesPass (nowMs : Int) (newId : Nat → String) (row : ReviewRow) :
    List TripleRow → List (ReviewRewrite × Nat) → Prop
  | _, [] => True
  | facts, r :: rs => ∃ t, rewrittenTriple nowMs (newId r.2) row r.1 = .ok t ∧
      (∀ f ∈ facts, f.tripleId ≠ t.tripleId) ∧
      activeTripleReviewReason t.subjectAlias t.predicate (t.objectAlias.getD t.objectId)
      t.objectKind t.confidence
        (literalOnlyAmong facts t.subjectId) = none ∧
      RewritesPass nowMs newId row
      (facts ++ [t.row nowMs row.clusterId row.sourceEpisodeId row.provenance]) rs

/-- The facts that the decision makes are well formed. -/
def FactsPass (nowMs : Int) (newId : Nat → String) (d : Derived) (row : ReviewRow)
    (u : ReviewUpdate) : Prop :=
  match u.status with
  | .approved => ∃ t, promotedTriple (newId 0) row = .ok t
  | .rewritten => u.rewrites ≠ [] ∧ RewritesPass nowMs newId row d.triples.rows u.rewrites.zipIdx
  | .needsReview | .dismissed => True

/-- What the review names is there, and ids tell rows apart. -/
structure Sound (s : Store) (d : Derived) (row : ReviewRow) : Prop where
  cluster : d.clusterRef row.clusterId = true
  episode : s.episodeRef row.sourceEpisodeId = true
  ids : d.IdsTrue

theorem insertRewrittens_isSome {newId : Nat → String} {row : ReviewRow}
    {rs : List (ReviewRewrite × Nat)}
    (h : Sound s d row) (hrs : RewritesPass nowMs newId row d.triples.rows rs) :
    ∃ d', rs.foldlM (fun d r => d.insertRewrittenMemoryQualityFact s nowMs (newId r.2) row r.1) d =
    .ok d' := by
  induction rs generalizing d with
  | nil => exact ⟨d, rfl⟩
  | cons r rs ih =>
    obtain ⟨t, ht, hfresh, hgate, hrest⟩ := hrs
    obtain ⟨d₁, hins, hids, hclusters⟩ := insertActiveTriple_isSome nowMs row.provenance
      (canonicalEntityId_ends ht) hfresh h.cluster h.episode h.ids
    have hone : d.insertRewrittenMemoryQualityFact s nowMs (newId r.2) row r.1 = .ok d₁ := by
      unfold insertRewrittenMemoryQualityFact
      refine Result.bind_eq_ok.2 ⟨t, ht, ?_⟩
      have hgate' :
          activeTripleReviewReason t.subjectAlias t.predicate (t.objectAlias.getD t.objectId)
          t.objectKind t.confidence (d.literalOnlySubject t.subjectId) = none := hgate
      rw [hgate']
      exact orStorage_eq_ok.2 hins
    obtain ⟨triples, _, _, _, _, hrow, -, rfl⟩ := insertActiveTriple_eq_some hins
    have hsound : Sound s _ row := ⟨by rw [clusterRef, hclusters]; exact h.cluster, h.episode, hids⟩
    have hpass : RewritesPass nowMs newId row triples.rows rs := by rwa [Table.insert?_rows hrow]
    obtain ⟨d', hd'⟩ := ih hsound hpass
    exact ⟨d', Result.foldlM_cons_eq_ok.2 ⟨_, hone, hd'⟩⟩

theorem promoteMemoryQualityReview_isSome {newId : String} {row : ReviewRow} {t : ActiveTriple}
    (h : Sound s d row)
    (ht : promotedTriple newId row = .ok t) : ∃ d', d.promoteMemoryQualityReview s nowMs newId row =
    .ok d' := by
  have hid : t.tripleId = row.tripleId.getD newId := (memoryQualityActiveTriple_eq_ok ht).1
  have hends := canonicalEntityId_ends ht
  by_cases hany : (d.triples.rows.any (·.tripleId = row.tripleId.getD newId)) = true
  · obtain ⟨r, hr, hrid⟩ := List.any_eq_true.1 hany
    obtain ⟨entities, hentities, hsubject, hobject⟩ :=
      (d.promoteTriple t row).upsertEntitiesForActiveTriple_isSome hends
    have hthere : ∃ r ∈ (d.promoteTriple t row).triples, r.tripleId = t.tripleId := by
      refine ⟨_, mem_promoteTriple.2 ⟨r, hr, rfl⟩, ?_⟩
      have hr' : r.tripleId = t.tripleId := (of_decide_eq_true hrid).trans hid.symm
      rw [if_pos hr']
      exact hr'
    obtain ⟨edges, evidence, hedge, -⟩ := upsertRelationshipEdge_isSome (s := s)
      (d := { d.promoteTriple t row with entities := entities }) (c := row.clusterId)
      hsubject hobject hthere h.cluster h.episode h.ids.evidence
    refine ⟨{ d.promoteTriple t row with entities, relationshipEdges := edges, relationshipEvidence := evidence },
      Result.bind_eq_ok.2 ⟨t, ht, ?_⟩⟩
    rw [if_pos hany]
    refine Result.bind_eq_ok.2 ⟨(), orStorage_eq_ok.2 (by rw [h.cluster, h.episode]; rfl), ?_⟩
    refine orStorage_eq_ok.2 ?_
    unfold upsertGraphForActiveTriple
    rw [hentities]
    exact hedge
  · have hfresh : ∀ r ∈ d.triples, r.tripleId ≠ t.tripleId := fun r hr hrid =>
      hany (List.any_eq_true.2 ⟨r, hr, decide_eq_true (hrid.trans hid)⟩)
    obtain ⟨d', hins, -, -⟩ := insertActiveTriple_isSome nowMs row.provenance hends hfresh
      h.cluster h.episode h.ids
    refine ⟨d', Result.bind_eq_ok.2 ⟨t, ht, ?_⟩⟩
    rw [if_neg hany]
    exact orStorage_eq_ok.2 hins

theorem applyReviewDecision_isSome {newId : Nat → String} {row : ReviewRow} {u : ReviewUpdate}
    (h : Sound s d row)
    (hfacts : FactsPass nowMs newId d row u) : ∃ d', d.applyReviewDecision s nowMs newId row u =
    .ok d' := by
  unfold FactsPass at hfacts
  unfold applyReviewDecision
  revert hfacts
  cases u.status with
  | approved =>
    rintro ⟨t, ht⟩
    exact promoteMemoryQualityReview_isSome h ht
  | rewritten =>
    rintro ⟨hne, hpass⟩
    dsimp only
    rw [if_neg (by simpa using hne)]
    exact insertRewrittens_isSome h hpass
  | needsReview | dismissed => exact fun _ => ⟨d, rfl⟩

/-- The claim of the review is written where its episode is. -/
theorem updateMemoryClaimForReview_isSome {row : ReviewRow} (status : ReviewStatus)
    (hepisode : s.episodeRef row.sourceEpisodeId = true) :
    ∃ d', d.updateMemoryClaimForReview s row status = some d' := by
  obtain ⟨d₁, hd₁⟩ : ∃ d₁, d.insertOrIgnoreClaim s (legacyReviewClaim row (d.reviewClaimId row)) =
      some d₁ := by
    unfold insertOrIgnoreClaim
    split
    · have hguard : s.episodeRef (legacyReviewClaim row (d.reviewClaimId row)).sourceEpisodeId =
          true := hepisode
      rw [hguard]
      exact ⟨_, rfl⟩
    · exact ⟨d, rfl⟩
  unfold updateMemoryClaimForReview
  dsimp only
  rw [hd₁]
  exact ⟨_, rfl⟩

end Derived

end Solo
