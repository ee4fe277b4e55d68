import Solo.Derived.AttachBatch
import Solo.Derived.Claims
import Solo.Derived.Mirror

/-!
# What attaching an abstraction does to the rows of its cluster

The abstraction, the facts and the edges of the cluster are always those of the new abstraction.
Claims and reviews are found by a fingerprint, and claims are never deleted: which of them are the
cluster's own is a question of who has the fingerprint.
-/

namespace Solo

/-- The rows that a cluster has in the tables that a batch writes. -/
@[ext]
structure ClusterRows where
  abstractions : List AbstractionRow
  triples : List TripleRow
  edges : List EdgeRow
  reviews : List ReviewRow
  claims : List ClaimRow
  deriving DecidableEq

/-- The fingerprint that a triple's claim is found by. -/
def claimFingerprint (s : Store) (c : ClusterId) (t : Triple) : String :=
  (evaluateForCluster s c t).claimFingerprint

/-- The facts that the gate lets through, as rows. -/
def factRows (s : Store) (nowMs : Int) (c : ClusterId) (ts : List Triple) : List TripleRow :=
  ts.filterMap fun t =>
    match evaluateForCluster s c t with
    | .active x => some (x.row nowMs (some c) (resolveSourceEpisodeId s t.provenance) t.provenance)
    | .review _ => none

/-- The candidates for review among the triples. -/
def candidates (s : Store) (c : ClusterId) (ts : List Triple) : List TripleReviewCandidate :=
  ts.filterMap fun t =>
    match evaluateForCluster s c t with
    | .active _ => none
    | .review r => some r

namespace SemanticAbstraction

/-- The fingerprints of the claims that an abstraction makes. -/
def proposed (s : Store) (a : SemanticAbstraction) : List String :=
  a.triples.map (claimFingerprint s a.clusterId)

/-- The fingerprints of the reviews that an abstraction asks for. -/
def underReview (s : Store) (a : SemanticAbstraction) : List String :=
  (candidates s a.clusterId a.triples).map (·.candidateFingerprint)

def row (a : SemanticAbstraction) : AbstractionRow :=
  ⟨a.abstractionId, a.clusterId, a.content, a.provenance, a.confidence⟩

end SemanticAbstraction

namespace Derived

def rowsOf (d : Derived) (c : ClusterId) : ClusterRows :=
  let triples := d.triples.rows.filter (·.clusterId = some c)
  { abstractions := d.semanticAbstractions.rows.filter (·.clusterId = c)
    triples
    edges := d.relationshipEdges.rows.filter fun e => triples.any (·.tripleId = e.edgeId)
    reviews := d.tripleReviews.rows.filter (·.clusterId = some c)
    claims := d.memoryClaims.rows.filter (·.clusterId = some c) }

/-- The rows are those of the abstraction and nothing else. -/
structure ReplacedBy (s : Store) (nowMs : Int) (a : SemanticAbstraction) (r : ClusterRows) :
    Prop where
  abstractions : r.abstractions = [a.row]
  triples : r.triples = factRows s nowMs a.clusterId a.triples
  edges : ∀ e ∈ r.edges, ∃ t ∈ r.triples, t.tripleId = e.edgeId ∧ Mirrors t e ∧ e.evidenceCount = 1
  edge : ∀ t ∈ r.triples, ∃ e ∈ r.edges, e.edgeId = t.tripleId
  reviews : r.reviews = (candidates s a.clusterId a.triples).map (·.row nowMs)
  claims : ∀ m ∈ r.claims, ∃ t ∈ a.triples, m.candidateFingerprint =
    claimFingerprint s a.clusterId t ∧ m.tripleId = some t.tripleId
  claim : ∀ t ∈ a.triples, ∃ m ∈ r.claims, m.candidateFingerprint = claimFingerprint s a.clusterId t

/-! ### One triple -/

theorem evaluateForCluster_active {s : Store} {c : ClusterId} {t : Triple} {x : ActiveTriple}
    (h : evaluateForCluster s c t = .active x) : x.tripleId = t.tripleId := by
  unfold evaluateForCluster at h
  simp only [evaluateExtractedTriple] at h
  split at h
  · cases h
  split at h
  · cases h
  split at h
  · cases h
  split at h
  · cases h
  split at h
  · cases h
  split at h
  · cases h
  · exact congrArg ActiveTriple.tripleId (TripleQualityDecision.active.inj h).symm

theorem evaluateForCluster_candidate {s : Store} {c : ClusterId} {t : Triple}
    {r : TripleReviewCandidate}
    (h : evaluateForCluster s c t = .review r) : r.clusterId = c ∧ r.tripleId = t.tripleId := by
  obtain ⟨reason, rfl⟩ := evaluateExtractedTriple_review h
  exact ⟨rfl, rfl⟩

section Triple

variable {s : Store} {nowMs : Int} {d d' : Derived} {P : TripleId → Bool}

theorem edges_recount {id : TripleId} (hP : P id = false) :
    (d.recount id).relationshipEdges.rows.filter (fun e => P e.edgeId) =
      d.relationshipEdges.rows.filter fun e => P e.edgeId := by
  unfold recount
  refine Table.filter_map_update fun e _ hid => ?_
  have hid : e.edgeId = id := of_decide_eq_true hid
  exact ⟨hid ▸ hP, hid ▸ hP⟩

/-- Edges of other triples stay when a relationship is written. -/
theorem edges_upsertRelationshipEdge {t : ActiveTriple} {c : Option ClusterId} {src : Option Rowid}
    (hP : P t.tripleId = false) (h : d.upsertRelationshipEdge s t c src = some d') :
    d'.relationshipEdges.rows.filter (fun e => P e.edgeId) =
    d.relationshipEdges.rows.filter fun e => P e.edgeId := by
  obtain ⟨d₁, h₁, h⟩ := Option.bind_eq_some_iff.1 h
  obtain ⟨edges, hups, rfl⟩ := upsertEdge_eq_some h₁
  have hedges : edges.rows.filter (fun e => P e.edgeId) = d.relationshipEdges.rows.filter fun e =>
      P e.edgeId := by
    refine Table.filter_upsert hups hP fun e _ hconflict => ?_
    have hid : e.edgeId = t.tripleId := of_decide_eq_true hconflict
    exact ⟨hid ▸ hP, hid ▸ hP⟩
  obtain ⟨-, ⟨-, rfl⟩ | ⟨-, evidence, -, rfl⟩⟩ := upsertEvidence_cases h
  · exact hedges
  · exact (edges_recount hP).trans hedges

theorem edges_insertActiveTriple {t : ActiveTriple} {c : Option ClusterId} {src : Option Rowid}
    {prov : Provenance}
    (hP : P t.tripleId = false) (h : d.insertActiveTriple s nowMs t c src prov = some d') :
    d'.relationshipEdges.rows.filter (fun e => P e.edgeId) =
    d.relationshipEdges.rows.filter fun e => P e.edgeId := by
  obtain ⟨d₁, h₁, h⟩ := Option.bind_eq_some_iff.1 h
  obtain ⟨d₂, h₂, h⟩ := Option.bind_eq_some_iff.1 h
  obtain ⟨d₃, h₃, h₄⟩ := Option.bind_eq_some_iff.1 h
  obtain ⟨entities, rfl⟩ := upsertEntitiesForActiveTriple_eq_some h₁
  obtain ⟨triples, -, rfl⟩ := insertTriple_eq_some h₂
  obtain ⟨claims, -, rfl⟩ := upsertClaim_eq_some h₄
  have hedges := edges_upsertRelationshipEdge hP h₃
  exact hedges

/-- Edges that lose no evidence stay. -/
theorem edges_deleteEvidence {p : EvidenceRow → Bool}
    (h : ∀ e ∈ d.relationshipEdges, P e.edgeId = true → ¬ d.LosesEvidence p e.edgeId) :
    (d.deleteEvidence p).relationshipEdges.rows.filter (fun e => P e.edgeId) =
      d.relationshipEdges.rows.filter fun e => P e.edgeId := by
  have htouched (e : EdgeRow) (he : e ∈ d.relationshipEdges)
      (hany : (d.relationshipEvidence.rows.any fun v => p v && decide (v.edgeId = e.edgeId)) =
        true) :
      P e.edgeId = false := by
    refine eq_false_of_ne_true fun hP => h e he hP ?_
    simpa [LosesEvidence] using hany
  unfold deleteEvidence
  refine (Table.filter_deleteWhere fun e he hP => ?_).trans
    (Table.filter_map_update fun e he hany => ?_)
  · obtain ⟨b, hb, rfl⟩ := Table.mem_updateWhere.1 he
    rw [Bool.and_eq_false_iff]
    left
    refine eq_false_of_ne_true fun hany => ?_
    by_cases htb : (d.relationshipEvidence.rows.any fun v => p v && decide (v.edgeId = b.edgeId)) =
      true
    · rw [if_pos htb] at hP
      rw [htouched b hb htb] at hP
      cases hP
    · rw [if_neg htb] at hany
      exact htb hany
  · exact ⟨htouched e he hany, htouched e he hany⟩

end Triple

/-! ### The triples of an abstraction, one after the other -/

/-- What the triples attached so far made of the tables: `d₀` is where the loop starts. -/
structure Attaching (s : Store) (nowMs : Int) (c : ClusterId) (d₀ : Derived) (done : List Triple)
    (d : Derived) : Prop where
  abstractions : d.semanticAbstractions = d₀.semanticAbstractions
  triples : d.triples.rows = d₀.triples.rows ++ factRows s nowMs c done
  edges : ∀ P : TripleId → Bool, (∀ t ∈ factRows s nowMs c done, P t.tripleId = false) →
    d.relationshipEdges.rows.filter (fun e => P e.edgeId) =
    d₀.relationshipEdges.rows.filter fun e => P e.edgeId
  freeClaims : ∀ P : String → Bool, (∀ t ∈ done, P (claimFingerprint s c t) = false) →
    d.memoryClaims.rows.filter (fun m => P m.candidateFingerprint) =
      d₀.memoryClaims.rows.filter fun m => P m.candidateFingerprint
  claimed : ∀ t ∈ done, ∃ m ∈ d.memoryClaims, m.candidateFingerprint = claimFingerprint s c t
  written : ∀ m ∈ d.memoryClaims, m.candidateFingerprint ∈ done.map (claimFingerprint s c) →
    m.clusterId = some c ∧ ∃ t ∈ done, m.candidateFingerprint = claimFingerprint s c t ∧
    m.tripleId = some t.tripleId
  keptReviews : ∀ r ∈ d₀.tripleReviews, ∃ r' ∈ d.tripleReviews,
    r'.candidateFingerprint = r.candidateFingerprint ∧ r'.clusterId = r.clusterId
  oldReviews : ∀ r ∈ d.tripleReviews, r.clusterId ≠ some c → ∃ r' ∈ d₀.tripleReviews,
    r'.candidateFingerprint = r.candidateFingerprint ∧ r'.clusterId = r.clusterId
  reviews :
    (∀ r ∈ d₀.tripleReviews, r.candidateFingerprint ∉ (candidates s c done).map
      (·.candidateFingerprint)) →
    ((candidates s c done).map (·.candidateFingerprint)).Nodup →
    d.tripleReviews.rows = d₀.tripleReviews.rows ++ (candidates s c done).map (·.row nowMs)

namespace Attaching

variable {s : Store} {nowMs : Int} {c : ClusterId} {d₀ d d' : Derived} {done : List Triple}
  {t : Triple}

theorem start (s : Store) (nowMs : Int) (c : ClusterId) (d : Derived) :
    Attaching s nowMs c d [] d where
  abstractions := rfl
  triples := by simp [factRows]
  edges _ _ := rfl
  freeClaims _ _ := rfl
  claimed _ ht := absurd ht List.not_mem_nil
  written _ _ hfp := absurd hfp List.not_mem_nil
  keptReviews r hr := ⟨r, hr, rfl, rfl⟩
  oldReviews r hr _ := ⟨r, hr, rfl, rfl⟩
  reviews _ _ := by simp [candidates]

/-- What an upsert of the claim of `t` does to the claims. -/
theorem upsertClaim {claims : Table ClaimRow} {m : ClaimRow} {f : ClaimRow → ClaimRow} {hf}
    (h : Attaching s nowMs c d₀ done d)
    (hups : d.memoryClaims.upsert? m (·.candidateFingerprint = m.candidateFingerprint) f hf =
      some claims)
    (hfp : m.candidateFingerprint = claimFingerprint s c t)
    (hm : m.clusterId = some c ∧ m.tripleId = some t.tripleId)
    (hfm : ∀ old, (f old).candidateFingerprint = old.candidateFingerprint ∧
      (f old).clusterId = some c ∧ (f old).tripleId = some t.tripleId) :
    (∀ P : String → Bool, (∀ t' ∈ done ++ [t], P (claimFingerprint s c t') = false) →
      claims.rows.filter (fun m => P m.candidateFingerprint) =
        d₀.memoryClaims.rows.filter fun m => P m.candidateFingerprint) ∧
    (∀ t' ∈ done ++ [t], ∃ m ∈ claims, m.candidateFingerprint = claimFingerprint s c t') ∧
    (∀ m ∈ claims, m.candidateFingerprint ∈ (done ++ [t]).map (claimFingerprint s c) →
      m.clusterId = some c ∧ ∃ t' ∈ done ++ [t], m.candidateFingerprint = claimFingerprint s c t' ∧
        m.tripleId = some t'.tripleId) := by
  refine ⟨fun P hP => ?_, fun t' ht' => ?_, fun m₀ hm₀ hmem => ?_⟩
  · rw [List.forall_mem_append, List.forall_mem_singleton] at hP
    have hfree : P m.candidateFingerprint = false := hfp ▸ hP.2
    refine (Table.filter_upsert hups hfree fun b _ hconflict => ?_).trans (h.freeClaims P hP.1)
    have hsame : b.candidateFingerprint = m.candidateFingerprint := of_decide_eq_true hconflict
    exact ⟨hsame ▸ hfree, ((hfm b).1.trans hsame) ▸ hfree⟩
  · rw [List.mem_append, List.mem_singleton] at ht'
    rcases ht' with ht' | rfl
    · obtain ⟨m₁, hm₁, hfp₁⟩ := h.claimed t' ht'
      by_cases hsame : m₁.candidateFingerprint = m.candidateFingerprint
      · exact ⟨f m₁, Table.mem_upsert_of_conflict hups hm₁ (decide_eq_true hsame),
          (hfm m₁).1.trans hfp₁⟩
      · exact ⟨m₁, Table.mem_upsert_of_not hups hm₁ (decide_eq_false hsame), hfp₁⟩
    · rcases Table.exists_mem_upsert hups with hnew | ⟨b, hb, hc, hfb⟩
      · exact ⟨m, hnew, hfp⟩
      · exact ⟨f b, hfb, (hfm b).1.trans ((of_decide_eq_true hc).trans hfp)⟩
  · have hnew (hcl : m₀.clusterId = some c) (htr : m₀.tripleId = some t.tripleId)
        (hfp₀ : m₀.candidateFingerprint = m.candidateFingerprint) :
        m₀.clusterId = some c ∧ ∃ t' ∈ done ++
        [t], m₀.candidateFingerprint = claimFingerprint s c t' ∧
          m₀.tripleId = some t'.tripleId :=
      ⟨hcl, t, List.mem_append_right _ (List.mem_singleton_self t), hfp₀.trans hfp, htr⟩
    rcases Table.mem_of_mem_upsert hups hm₀ with rfl | ⟨b, hb, hc, rfl⟩ | ⟨hold, hc⟩
    · exact hnew hm.1 hm.2 rfl
    · exact hnew (hfm b).2.1 (hfm b).2.2 ((hfm b).1.trans (of_decide_eq_true hc))
    · rw [List.map_append, List.mem_append, List.map_singleton, List.mem_singleton, ← hfp] at hmem
      obtain ⟨hcl, t', ht', hfp', htr⟩ :=
        h.written m₀ hold (hmem.resolve_right (of_decide_eq_false hc))
      exact ⟨hcl, t', List.mem_append_left _ ht', hfp', htr⟩

/-- What an upsert of the review of a candidate does to the reviews: one that is there keeps its
cluster. -/
theorem upsertReview {reviews : Table ReviewRow} {r : TripleReviewCandidate}
    {f : ReviewRow → ReviewRow} {hf} (h : Attaching s nowMs c d₀ done d)
    (hups : d.tripleReviews.upsert? (r.row nowMs) (·.candidateFingerprint = r.candidateFingerprint)
      f hf = some reviews)
    (hcluster : r.clusterId = c)
    (hfr : ∀ old, (f old).candidateFingerprint = old.candidateFingerprint ∧
      (f old).clusterId = old.clusterId) :
    (∀ x ∈ d₀.tripleReviews, ∃ x' ∈ reviews,
      x'.candidateFingerprint = x.candidateFingerprint ∧ x'.clusterId = x.clusterId) ∧
    (∀ x ∈ reviews, x.clusterId ≠ some c → ∃ x' ∈ d₀.tripleReviews,
      x'.candidateFingerprint = x.candidateFingerprint ∧ x'.clusterId = x.clusterId) := by
  refine ⟨fun x hx => ?_, fun x hx hne => ?_⟩
  · obtain ⟨x₁, hx₁, hfp, hcl⟩ := h.keptReviews x hx
    by_cases hsame : x₁.candidateFingerprint = r.candidateFingerprint
    · exact ⟨f x₁, Table.mem_upsert_of_conflict hups hx₁ (decide_eq_true hsame),
        (hfr x₁).1.trans hfp, (hfr x₁).2.trans hcl⟩
    · exact ⟨x₁, Table.mem_upsert_of_not hups hx₁ (decide_eq_false hsame), hfp, hcl⟩
  · rcases Table.mem_of_mem_upsert hups hx with rfl | ⟨b, hb, -, rfl⟩ | ⟨hold, -⟩
    · exact absurd (congrArg some hcluster) hne
    · rw [(hfr b).1, (hfr b).2]
      exact h.oldReviews b hb ((hfr b).2 ▸ hne)
    · exact h.oldReviews x hold hne

/-- A triple more. -/
theorem attachTriple (h : Attaching s nowMs c d₀ done d)
    (hstep : d.attachTriple s nowMs c t = some d') : Attaching s nowMs c d₀ (done ++ [t]) d' := by
  unfold Derived.attachTriple at hstep
  cases heval : evaluateForCluster s c t with
  | active x =>
    rw [heval] at hstep
    dsimp only at hstep
    have hid : x.tripleId = t.tripleId := evaluateForCluster_active heval
    have hfp : claimFingerprint s c t = activeClaimFingerprint x :=
      congrArg (·.claimFingerprint) heval
    have hfacts : factRows s nowMs c (done ++ [t]) = factRows s nowMs c done ++
        [x.row nowMs (some c) (resolveSourceEpisodeId s t.provenance) t.provenance] := by
      rw [factRows, List.filterMap_append, factRows]
      simp only [List.filterMap_cons, List.filterMap_nil, heval]
    have hcandidates : candidates s c (done ++ [t]) = candidates s c done := by
      rw [candidates, List.filterMap_append, candidates]
      simp only [List.filterMap_cons, List.filterMap_nil, heval, List.append_nil]
    obtain ⟨triples, claims, entities, edges, evidence, hins, hups, heq⟩ :=
      insertActiveTriple_eq_some hstep
    obtain ⟨hfree, hclaimed, hwritten⟩ :=
      h.upsertClaim (m := x.claim (some c) (resolveSourceEpisodeId s t.provenance)) hups hfp.symm
        ⟨rfl, congrArg some hid⟩ (fun old => ⟨rfl, rfl, congrArg some hid⟩)
    refine ⟨?_, ?_, fun P hP => ?_, ?_, ?_, ?_, ?_, ?_, ?_⟩
    · rw [heq]
      exact h.abstractions
    · rw [heq, hfacts, ← List.append_assoc, ← h.triples]
      exact Table.insert?_rows hins
    · rw [hfacts, List.forall_mem_append, List.forall_mem_singleton] at hP
      exact (edges_insertActiveTriple hP.2 hstep).trans (h.edges P hP.1)
    · rw [heq]
      exact hfree
    · rw [heq]
      exact hclaimed
    · rw [heq]
      exact hwritten
    · rw [heq]
      exact h.keptReviews
    · rw [heq]
      exact h.oldReviews
    · rw [heq, hcandidates]
      exact h.reviews
  | review r =>
    rw [heval] at hstep
    dsimp only at hstep
    obtain ⟨hcluster, hid⟩ := evaluateForCluster_candidate heval
    have hfp : claimFingerprint s c t = r.candidateFingerprint :=
      congrArg (·.claimFingerprint) heval
    have hfacts : factRows s nowMs c (done ++ [t]) = factRows s nowMs c done := by
      rw [factRows, List.filterMap_append, factRows]
      simp only [List.filterMap_cons, List.filterMap_nil, heval, List.append_nil]
    have hcandidates : candidates s c (done ++ [t]) = candidates s c done ++ [r] := by
      rw [candidates, List.filterMap_append, candidates]
      simp only [List.filterMap_cons, List.filterMap_nil, heval]
    obtain ⟨claims, reviews, hclaims, hreviews, heq⟩ := insertTripleReview_eq_some hstep
    obtain ⟨hfree, hclaimed, hwritten⟩ :=
      h.upsertClaim (m := r.claim) hclaims hfp.symm ⟨congrArg some hcluster, congrArg some hid⟩
        fun old => ⟨rfl, congrArg some hcluster, congrArg some hid⟩
    obtain ⟨hkept, hold⟩ := h.upsertReview hreviews hcluster fun old => ⟨rfl, rfl⟩
    refine ⟨?_, ?_, fun P hP => ?_, ?_, ?_, ?_, ?_, ?_, fun hfresh hnodup => ?_⟩
    · rw [heq]
      exact h.abstractions
    · rw [heq, hfacts]
      exact h.triples
    · rw [hfacts] at hP
      rw [heq]
      exact h.edges P hP
    · rw [heq]
      exact hfree
    · rw [heq]
      exact hclaimed
    · rw [heq]
      exact hwritten
    · rw [heq]
      exact hkept
    · rw [heq]
      exact hold
    · -- no review has the fingerprint, so this is an insert
      simp only [hcandidates, List.map_append, List.mem_append, not_or, List.map_singleton,
        List.mem_singleton] at hfresh
      rw [hcandidates, List.map_append, List.nodup_append] at hnodup
      have hrows := h.reviews (fun x hx => (hfresh x hx).1) hnodup.1
      have hins : d.tripleReviews.insert? (r.row nowMs) = some reviews := by
        rcases Table.upsert?_cases hreviews with ⟨⟨b, hb, hc⟩, -⟩ | ⟨-, hins⟩
        · have hc : b.candidateFingerprint = r.candidateFingerprint := of_decide_eq_true hc
          rw [← Table.mem_rows, hrows, List.mem_append] at hb
          rcases hb with hb | hb
          · exact absurd hc (hfresh b hb).2
          · obtain ⟨r', hr', rfl⟩ := List.mem_map.1 hb
            exact absurd hc (hnodup.2.2 _ (List.mem_map_of_mem hr') _ (List.mem_singleton_self _))
        · exact hins
      rw [heq, hcandidates, List.map_append, ← List.append_assoc, ← hrows]
      exact Table.insert?_rows hins

theorem foldlM {todo : List Triple} (h : Attaching s nowMs c d₀ done d)
    (hrun : todo.foldlM (Derived.attachTriple s nowMs c) d = some d') :
    Attaching s nowMs c d₀ (done ++ todo) d' := by
  induction todo generalizing done d with
  | nil =>
    rw [List.foldlM_nil, Option.pure_def, Option.some.injEq] at hrun
    rw [List.append_nil, ← hrun]
    exact h
  | cons t todo ih =>
    rw [List.foldlM_cons, Option.bind_eq_bind, Option.bind_eq_some_iff] at hrun
    obtain ⟨d₁, hstep, hrun⟩ := hrun
    have hsplit : done ++ t :: todo = done ++ [t] ++ todo := (List.append_assoc done [t] todo).symm
    rw [hsplit]
    exact ih (h.attachTriple hstep) hrun

end Attaching

/-! ### One cluster -/

section Cluster

variable {s : Store} {nowMs : Int} {c : ClusterId} {d d' : Derived} {a : SemanticAbstraction}

theorem mem_factRows {ts : List Triple} {t : TripleRow} (ht : t ∈ factRows s nowMs c ts) :
    t.clusterId = some c ∧ t.status = .active := by
  obtain ⟨t', -, heq⟩ := List.mem_filterMap.1 ht
  split at heq
  · obtain rfl := Option.some.inj heq
    exact ⟨rfl, rfl⟩
  · cases heq

theorem mem_candidates {ts : List Triple} {r : TripleReviewCandidate} (hr : r ∈ candidates s c ts) :
    ∃ t ∈ ts, evaluateForCluster s c t = .review r := by
  obtain ⟨t, ht, heq⟩ := List.mem_filterMap.1 hr
  refine ⟨t, ht, ?_⟩
  cases heval : evaluateForCluster s c t with
  | active _ =>
    rw [heval] at heq
    cases heq
  | review r' =>
    rw [heval] at heq
    rw [Option.some.inj heq]

theorem candidate_clusterId {ts : List Triple} {r : TripleReviewCandidate}
    (hr : r ∈ candidates s c ts) : r.clusterId = c := by
  obtain ⟨t, -, heval⟩ := mem_candidates hr
  exact (evaluateForCluster_candidate heval).1

/-- A candidate for review has a claim as well. -/
theorem mem_proposed {fp : String} (h : fp ∈ a.underReview s) : fp ∈ a.proposed s := by
  obtain ⟨r, hr, rfl⟩ := List.mem_map.1 h
  obtain ⟨t, ht, heval⟩ := mem_candidates hr
  exact List.mem_map.2 ⟨t, ht, congrArg (·.claimFingerprint) heval⟩

theorem evidenceCount_le_one (hmirror : Mirror d) (id : TripleId) : d.evidenceCount id ≤ 1 := by
  have hpairwise : (d.relationshipEvidence.rows.filter (·.edgeId = id)).Pairwise fun _ _ =>
      False := by
    rw [List.pairwise_filter]
    refine d.relationshipEvidence.unique.imp_of_mem fun {v v'} hv hv' hclash hid hid' => ?_
    rw [decide_eq_true_eq] at hid hid'
    have htriple : v.tripleId = v'.tripleId := by
      rw [← (hmirror.evidence_edge v hv).1, ← (hmirror.evidence_edge v' hv').1, hid, hid']
    simp [Keyed.clash, htriple] at hclash
  rw [evidenceCount, List.countP_eq_length_filter]
  generalize d.relationshipEvidence.rows.filter (·.edgeId = id) = l at hpairwise
  rcases l with _ | ⟨v, _ | ⟨v', l⟩⟩
  · exact Nat.zero_le 1
  · exact Nat.le_refl 1
  · exact ((List.pairwise_cons.1 hpairwise).1 _ List.mem_cons_self).elim

theorem evidenceCount_eq_one (hmirror : Mirror d) {e : EdgeRow} (he : e ∈ d.relationshipEdges) :
    e.evidenceCount = 1 := by
  obtain ⟨v, hv, hid⟩ := hmirror.backed e he
  have hpos : 0 < d.evidenceCount e.edgeId := List.countP_pos_iff.2 ⟨v, hv, decide_eq_true hid⟩
  have hle := evidenceCount_le_one hmirror e.edgeId
  rw [hmirror.counted e he]
  omega

/-- The abstraction, the facts and the edges are those of the abstraction and nothing else. -/
structure Rewritten (s : Store) (nowMs : Int) (a : SemanticAbstraction) (r : ClusterRows) :
    Prop where
  abstractions : r.abstractions = [a.row]
  triples : r.triples = factRows s nowMs a.clusterId a.triples
  edges : ∀ e ∈ r.edges, ∃ t ∈ r.triples, t.tripleId = e.edgeId ∧ Mirrors t e ∧ e.evidenceCount = 1
  edge : ∀ t ∈ r.triples, ∃ e ∈ r.edges, e.edgeId = t.tripleId

/-- Two states of a cluster with the same abstractions, facts and edges. -/
def SameFacts (r r' : ClusterRows) : Prop :=
  r.abstractions = r'.abstractions ∧ r.triples = r'.triples ∧ r.edges = r'.edges

theorem SameFacts.trans {r₁ r₂ r₃ : ClusterRows} (h : SameFacts r₁ r₂) (h' : SameFacts r₂ r₃) :
    SameFacts r₁ r₃ :=
  ⟨h.1.trans h'.1, h.2.1.trans h'.2.1, h.2.2.trans h'.2.2⟩

theorem Rewritten.of_sameFacts {r r' : ClusterRows} (h : Rewritten s nowMs a r)
    (hsame : SameFacts r' r) : Rewritten s nowMs a r' := by
  obtain ⟨habs, htriples, hedges⟩ := hsame
  exact ⟨habs ▸ h.abstractions, htriples ▸ h.triples, hedges ▸ htriples ▸ h.edges,
    hedges ▸ htriples ▸ h.edge⟩

/-- What attaching an abstraction to its cluster does. -/
structure Attached (s : Store) (nowMs : Int) (a : SemanticAbstraction) (d d' : Derived) : Prop where
  rewritten : Rewritten s nowMs a (d'.rowsOf a.clusterId)
  others : ∀ c, c ≠ a.clusterId → SameFacts (d'.rowsOf c) (d.rowsOf c)
  freeClaims : ∀ P : String → Bool, (∀ fp ∈ a.proposed s, P fp = false) →
    d'.memoryClaims.rows.filter (fun m => P m.candidateFingerprint) =
      d.memoryClaims.rows.filter fun m => P m.candidateFingerprint
  claimed : ∀ fp ∈ a.proposed s, ∃ m ∈ d'.memoryClaims, m.candidateFingerprint = fp
  written : ∀ m ∈ d'.memoryClaims, m.candidateFingerprint ∈ a.proposed s →
    m.clusterId = some a.clusterId ∧
    ∃ t ∈ a.triples, m.candidateFingerprint = claimFingerprint s a.clusterId t ∧
    m.tripleId = some t.tripleId
  keptReviews : ∀ r ∈ d.tripleReviews, r.clusterId ≠ some a.clusterId → ∃ r' ∈ d'.tripleReviews,
    r'.candidateFingerprint = r.candidateFingerprint ∧ r'.clusterId = r.clusterId
  oldReviews : ∀ r ∈ d'.tripleReviews, r.clusterId ≠ some a.clusterId → ∃ r' ∈ d.tripleReviews,
    r'.candidateFingerprint = r.candidateFingerprint ∧ r'.clusterId = r.clusterId
  reviews :
    (∀ r ∈ d.tripleReviews, r.candidateFingerprint ∈ a.underReview s →
      r.clusterId = some a.clusterId) →
    (a.underReview s).Nodup → d'.tripleReviews.rows =
      d.tripleReviews.rows.filter (fun r => !decide (r.clusterId = some a.clusterId)) ++
        (candidates s a.clusterId a.triples).map (·.row nowMs)

/-- Claims under the fingerprints that nobody wrote are those that were there. -/
theorem mem_claims_iff {S : String → Prop}
    (hfree : ∀ P : String → Bool, (∀ fp, S fp → P fp = false) →
      d'.memoryClaims.rows.filter (fun m => P m.candidateFingerprint) =
        d.memoryClaims.rows.filter fun m => P m.candidateFingerprint)
    {m : ClaimRow} (hm : ¬ S m.candidateFingerprint) : m ∈ d'.memoryClaims ↔
    m ∈ d.memoryClaims := by
  have hrows := hfree (fun fp => decide (fp = m.candidateFingerprint)) fun fp hfp =>
    decide_eq_false fun heq => hm (heq ▸ hfp)
  have hmem {t : Table ClaimRow} :
      m ∈ t ↔ m ∈ t.rows.filter fun x =>
      decide (x.candidateFingerprint = m.candidateFingerprint) := by
    rw [List.mem_filter, decide_eq_true_eq]
    exact (and_iff_left rfl).symm
  rw [hmem, hrows, ← hmem]

/-- The tables when the loop over the triples starts. -/
theorem attachAbstraction_attaching (h : d.attachAbstraction s nowMs a = some d') :
    ∃ abstractions, (d.semanticAbstractions.deleteWhere (·.clusterId = a.clusterId)).insert? a.row =
    some abstractions ∧
      Attaching s nowMs a.clusterId
      { ((d.deleteAbstractionsOf a.clusterId).deleteTriplesOf a.clusterId).deleteReviewsOf
        a.clusterId with semanticAbstractions := abstractions } a.triples d' := by
  obtain ⟨d₁, h₁, hfold⟩ := Option.bind_eq_some_iff.1 h
  obtain ⟨abstractions, hins, rfl⟩ := insertAbstraction_eq_some h₁
  exact ⟨abstractions, hins, (Attaching.start s nowMs a.clusterId _).foldlM hfold⟩

/-- The facts of the cluster are those of its new abstraction. -/
theorem attachAbstraction_rewritten (hmirror : Mirror d)
    (h : d.attachAbstraction s nowMs a = some d') :
    Rewritten s nowMs a (d'.rowsOf a.clusterId) := by
  obtain ⟨abstractions, hins, hrun⟩ := attachAbstraction_attaching h
  have hmirror' := hmirror.attachAbstraction h
  have hself {ρ : Type} [Keyed ρ] {t : Table ρ} {p : ρ → Bool} :
      (t.deleteWhere p).rows.filter p = [] := by
    rw [List.filter_eq_nil_iff]
    intro x hx hp
    rw [(Table.mem_deleteWhere.1 hx).2] at hp
    cases hp
  have htriples : (d'.rowsOf a.clusterId).triples = factRows s nowMs a.clusterId a.triples := by
    refine (congrArg (List.filter _) hrun.triples).trans ?_
    rw [List.filter_append, List.filter_eq_self.2 fun t ht => decide_eq_true (mem_factRows ht).1]
    exact congrArg (· ++ _) hself
  have hmem {t : TripleRow} (ht : t ∈ (d'.rowsOf a.clusterId).triples) : t ∈ d'.triples :=
    (List.mem_filter.1 ht).1
  refine ⟨?_, htriples, fun e he => ?_, fun t ht => ?_⟩
  · refine (congrArg (fun t => t.rows.filter fun x => x.clusterId = a.clusterId)
      hrun.abstractions).trans ?_
    refine (Table.filter_insert hins).trans ?_
    rw [hself, List.filter_cons_of_pos (by exact decide_eq_true rfl)]
    rfl
  · obtain ⟨he, hany⟩ := List.mem_filter.1 he
    obtain ⟨t, ht, hid⟩ := List.any_eq_true.1 hany
    rw [decide_eq_true_eq] at hid
    exact ⟨t, ht, hid, hmirror'.agrees t (hmem ht) e he hid.symm, evidenceCount_eq_one hmirror' he⟩
  · have hactive : t.status = .active := (mem_factRows (htriples ▸ ht)).2
    obtain ⟨e, he, hid⟩ := hmirror'.covered t (hmem ht) hactive
    exact ⟨e, List.mem_filter.2 ⟨he, List.any_eq_true.2 ⟨t, ht, decide_eq_true hid.symm⟩⟩, hid⟩

/-- The facts of the other clusters are as before. -/
theorem attachAbstraction_others (hmirror : Mirror d) (h : d.attachAbstraction s nowMs a = some d')
    (hc : c ≠ a.clusterId) : SameFacts (d'.rowsOf c) (d.rowsOf c) := by
  obtain ⟨abstractions, hins, hrun⟩ := attachAbstraction_attaching h
  have hne : some a.clusterId ≠ some c := fun heq => hc (Option.some.inj heq).symm
  have htriples : d'.triples.rows.filter (·.clusterId = some c) =
      d.triples.rows.filter (·.clusterId = some c) := by
    have hfacts : (factRows s nowMs a.clusterId a.triples).filter (·.clusterId = some c) = [] := by
      rw [List.filter_eq_nil_iff]
      intro t ht
      rw [decide_eq_true_eq, (mem_factRows ht).1]
      exact hne
    rw [hrun.triples, List.filter_append, hfacts, List.append_nil]
    refine Table.filter_deleteWhere fun t _ hcluster => ?_
    rw [decide_eq_true_eq] at hcluster
    exact decide_eq_false fun heq => hne (heq.symm.trans hcluster)
  have hedges : d'.relationshipEdges.rows.filter (fun e =>
      (d.triples.rows.filter (·.clusterId = some c)).any (·.tripleId = e.edgeId)) =
      d.relationshipEdges.rows.filter fun e =>
        (d.triples.rows.filter (·.clusterId = some c)).any (·.tripleId = e.edgeId) := by
    refine (hrun.edges
      (fun id => (d.triples.rows.filter (·.clusterId = some c)).any (·.tripleId = id)) ?_).trans ?_
    · -- a fact of another cluster has another id than the new facts
      intro t ht
      rw [List.any_eq_false]
      intro t' ht' hid
      rw [decide_eq_true_eq] at hid
      rw [← htriples] at ht'
      obtain ⟨ht', hcluster⟩ := List.mem_filter.1 ht'
      rw [decide_eq_true_eq] at hcluster
      have hnew : t ∈ d'.triples := by
        rw [← Table.mem_rows, hrun.triples]
        exact List.mem_append_right _ ht
      rw [triple_eq ht' hnew hid, (mem_factRows ht).1] at hcluster
      exact hne hcluster
    · refine edges_deleteEvidence (P := fun id =>
        (d.triples.rows.filter (·.clusterId = some c)).any (·.tripleId = id)) fun e he hany => ?_
      rintro ⟨v, hv, hp, hid⟩
      obtain ⟨t, ht, htid⟩ := List.any_eq_true.1 hany
      obtain ⟨ht, hcluster⟩ := List.mem_filter.1 ht
      obtain ⟨t', ht', hgone⟩ := List.any_eq_true.1 hp
      rw [Bool.and_eq_true, decide_eq_true_eq, decide_eq_true_eq] at hgone
      rw [decide_eq_true_eq] at hcluster htid
      have hsame : t' = t :=
        triple_eq ht' ht (by rw [hgone.2, ← (hmirror.evidence_edge v hv).1, hid, htid])
      rw [hsame, hcluster] at hgone
      exact hne hgone.1.symm
  have habstractions : d'.semanticAbstractions.rows.filter (·.clusterId = c) =
      d.semanticAbstractions.rows.filter (·.clusterId = c) := by
    rw [hrun.abstractions]
    refine (Table.filter_insert hins).trans ?_
    rw [List.filter_cons_of_neg (by rw [decide_eq_true_eq]; exact hc.symm), List.filter_nil,
      List.append_nil]
    refine Table.filter_deleteWhere fun x _ hcluster => ?_
    rw [decide_eq_true_eq] at hcluster
    exact decide_eq_false fun heq => hc (hcluster.symm.trans heq)
  refine ⟨habstractions, htriples, ?_⟩
  dsimp only [rowsOf]
  rw [htriples]
  exact hedges

theorem attachAbstraction_attached (hmirror : Mirror d)
    (h : d.attachAbstraction s nowMs a = some d') : Attached s nowMs a d d' := by
  obtain ⟨abstractions, hins, hrun⟩ := attachAbstraction_attaching h
  refine ⟨attachAbstraction_rewritten hmirror h, fun c hc => attachAbstraction_others hmirror h hc,
    fun P hP => ?_,
    fun fp hfp => ?_, hrun.written, fun r hr hne => ?_, fun r hr hne => ?_, fun hown hnodup => ?_⟩
  · exact hrun.freeClaims P fun t ht => hP _ (List.mem_map_of_mem ht)
  · obtain ⟨t, ht, rfl⟩ := List.mem_map.1 hfp
    exact hrun.claimed t ht
  · exact hrun.keptReviews r (Table.mem_deleteWhere.2 ⟨hr, decide_eq_false hne⟩)
  · obtain ⟨r', hr', hsame⟩ := hrun.oldReviews r hr hne
    exact ⟨r', (Table.mem_deleteWhere.1 hr').1, hsame⟩
  · refine hrun.reviews (fun r hr hfp => ?_) hnodup
    obtain ⟨hr, hother⟩ := Table.mem_deleteWhere.1 hr
    exact of_decide_eq_false hother (hown r hr hfp)

end Cluster

end Derived

end Solo
