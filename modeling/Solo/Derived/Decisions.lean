import Solo.Derived.Session

/-!
# Decisions of the user

`update_memory_quality_review` refuses to change a decided review, but attaching and repairing
delete reviews and propose their candidates again. `DecisionsStand` compares two states of a
session: no candidate decided in the first is open again in the second, and no approved fact is back
in quarantine. `KeepsDecisions` says what a command must find for that.
-/

namespace Solo

open Text

/-- Reviews of one candidate: same cluster, subject, predicate and object. -/
def SameCandidate (r r' : ReviewRow) : Prop :=
  r.clusterId = r'.clusterId ∧ r.subjectId = r'.subjectId ∧ r.predicate = r'.predicate ∧
    r.objectId = r'.objectId

/-- The decided reviews of `d`, seen from a later state `d'`. -/
structure DecisionsStand (d d' : Derived) : Prop where
  /-- An open review of a decided candidate was open before. -/
  reviews : ∀ r ∈ d.tripleReviews, r.status ≠ .needsReview →
    ∀ r' ∈ d'.tripleReviews, SameCandidate r r' → r'.status = .needsReview →
      ∃ r₀ ∈ d.tripleReviews, r₀.candidateFingerprint = r'.candidateFingerprint ∧
      SameCandidate r r₀ ∧
        r₀.status = .needsReview
  /-- An approved fact that is superseded was so before. -/
  facts : ∀ r ∈ d.tripleReviews, r.status = .approved →
    ∀ t' ∈ d'.triples, r.tripleId = some t'.tripleId → t'.status = .superseded →
      ∃ t ∈ d.triples, t.tripleId = t'.tripleId ∧ t.status = .superseded

/-- No review of the batch's clusters is decided, and no candidate it proposes is, or would turn
into one that is by the upsert on its fingerprint. -/
def AttachKeepsDecisions (s : Store) (nowMs : Int) (d : Derived)
    (items : List SemanticAbstraction) : Prop :=
  ∀ r ∈ d.tripleReviews, r.status ≠ .needsReview → ∀ a ∈ items, r.clusterId ≠ some a.clusterId ∧
    ∀ t ∈ a.triples, ∀ c, evaluateForCluster s a.clusterId t = .review c →
      r.candidateFingerprint ≠ c.candidateFingerprint ∧
      ∀ old ∈ d.tripleReviews, old.candidateFingerprint = c.candidateFingerprint →
        ¬ SameCandidate r { c.row nowMs with clusterId := old.clusterId }

/-- The repair drops no decided review, and quarantines no fact whose candidate is decided. -/
def RepairKeepsDecisions (nowMs : Int) (d : Derived) (scope : RepairScope) : Prop :=
  ∀ r ∈ d.tripleReviews, r.status ≠ .needsReview →
    match scope.mode with
    | .staleAbstractions => ∀ k ∈ d.staleCandidates scope, r.clusterId ≠ some k.clusterId
    | .qualityGate =>
      ∀ q ∈ (d.qualityWork scope).1,
        r.candidateFingerprint ≠ Derived.activeQualityReviewFingerprint q.1.tripleId
        q.2.reasonCode ∧ ¬ SameCandidate r (Derived.qualityReview nowMs q.1 q.2) ∧
        (r.status = .approved → r.tripleId ≠ some q.1.tripleId)
    | .rebuildAll => False

/-- What a command must find so that it leaves decisions alone. -/
def KeepsDecisions (s : Store) (d : Derived) (e : DerivedEvent) : Prop :=
  match e.command with
  | .attachAbstractionBatch _ items => AttachKeepsDecisions s e.nowMs d (items.map Prod.snd)
  | .repairDerived scope => scope.dryRun = false → RepairKeepsDecisions e.nowMs d scope
  | .updateMemoryQualityReview _ | .normalizeSubjects _ _ | .consolidate _ _ _ => True

/-- The decisions stand, and their reviews are still there. -/
structure KeptDecisions (d d' : Derived) : Prop extends DecisionsStand d d' where
  decided : ∀ r ∈ d.tripleReviews, r.status ≠ .needsReview → r ∈ d'.tripleReviews

namespace Derived

theorem review_eq {d : Derived} {r r' : ReviewRow} (hr : r ∈ d.tripleReviews)
    (hr' : r' ∈ d.tripleReviews) (h : r.reviewId = r'.reviewId) : r = r' :=
  Table.eq_of_clash hr hr' (by simp [Keyed.clash, h])

/-- Every superseded triple of `d'` was so in `d`. -/
def NoneSuperseded (d d' : Derived) : Prop :=
  ∀ t' ∈ d'.triples, t'.status = .superseded → ∃ t ∈ d.triples, t.tripleId = t'.tripleId ∧
    t.status = .superseded

namespace NoneSuperseded

variable {s : Store} {nowMs : Int} {d d₁ d' : Derived}

theorem refl (d : Derived) : NoneSuperseded d d := fun t ht hs => ⟨t, ht, rfl, hs⟩

theorem trans (h : NoneSuperseded d d₁) (h' : NoneSuperseded d₁ d') : NoneSuperseded d d' := by
  intro t' ht' hs'
  obtain ⟨t₁, ht₁, hid₁, hs₁⟩ := h' t' ht' hs'
  obtain ⟨t, ht, hid, hs⟩ := h t₁ ht₁ hs₁
  exact ⟨t, ht, hid.trans hid₁, hs⟩

theorem of_subset (h : ∀ t ∈ d'.triples, t ∈ d.triples) : NoneSuperseded d d' :=
  fun t ht hs => ⟨t, h t ht, rfl, hs⟩

theorem deleteTriples (d : Derived) (p : TripleRow → Bool) : NoneSuperseded d (d.deleteTriples p) :=
  of_subset fun _ ht => (Table.mem_deleteWhere.1 ht).1

theorem insertActiveTriple {t : ActiveTriple} {c : Option ClusterId} {src : Option Rowid}
    {prov : Provenance} (hw : d.insertActiveTriple s nowMs t c src prov = some d') :
    NoneSuperseded d d' ∧ d'.tripleReviews = d.tripleReviews := by
  obtain ⟨triples, _, _, _, _, hins, -, rfl⟩ := Derived.insertActiveTriple_eq_some hw
  refine ⟨fun r hr hs => ?_, rfl⟩
  rcases (Table.mem_insert hins).1 hr with hr | rfl
  · exact ⟨r, hr, rfl, hs⟩
  · cases hs

theorem promoteMemoryQualityReview {newId : String} {row : ReviewRow}
    (hw : d.promoteMemoryQualityReview s nowMs newId row = .ok d') :
    NoneSuperseded d d' ∧ d'.tripleReviews = d.tripleReviews := by
  obtain ⟨active, -, hw⟩ := Result.bind_eq_ok.1 hw
  split at hw
  · obtain ⟨-, -, hw⟩ := Result.bind_eq_ok.1 hw
    obtain ⟨d₁, h₁, hw⟩ := Option.bind_eq_some_iff.1 (orStorage_eq_ok.1 hw)
    obtain ⟨entities, rfl⟩ := Derived.upsertEntitiesForActiveTriple_eq_some h₁
    obtain ⟨edges, evidence, rfl⟩ := Derived.upsertRelationshipEdge_eq_some hw
    refine ⟨fun r hr hs => ?_, rfl⟩
    obtain ⟨r₀, hr₀, rfl⟩ := Derived.mem_promoteTriple.1 hr
    split at hs
    · cases hs
    · next hne => exact ⟨r₀, hr₀, by rw [if_neg hne], hs⟩
  · exact insertActiveTriple (orStorage_eq_ok.1 hw)

theorem applyReviewDecision {newId : Nat → String} {row : ReviewRow} {u : ReviewUpdate}
    (hw : d.applyReviewDecision s nowMs newId row u = .ok d') :
    NoneSuperseded d d' ∧ d'.tripleReviews = d.tripleReviews := by
  unfold Derived.applyReviewDecision at hw
  split at hw
  · exact promoteMemoryQualityReview hw
  · split at hw
    · cases hw
    · refine Result.foldlM_invariant
        (fun d' => NoneSuperseded d d' ∧ d'.tripleReviews = d.tripleReviews) ?_ ⟨.refl d, rfl⟩ hw
      rintro r - d₁ d₂ ⟨h₁, hr₁⟩ hstep
      obtain ⟨active, -, hstep⟩ := Result.bind_eq_ok.1 hstep
      split at hstep
      · cases hstep
      · obtain ⟨h₂, hr₂⟩ := insertActiveTriple (orStorage_eq_ok.1 hstep)
        exact ⟨h₁.trans h₂, hr₂.trans hr₁⟩
  · exact Except.ok.inj hw ▸ ⟨.refl d, rfl⟩
  · exact Except.ok.inj hw ▸ ⟨.refl d, rfl⟩

theorem persistPlan {plan : ConsolidationPlan} (hw : d.persistPlan s nowMs plan = .ok d') :
    NoneSuperseded d d' ∧ d'.tripleReviews = d.tripleReviews := by
  obtain ⟨d₁, h₁, hw⟩ := Result.bind_eq_ok.1 hw
  have hd₁ : NoneSuperseded d d₁ ∧ d₁.tripleReviews = d.tripleReviews := by
    refine Result.foldlM_invariant
      (fun d' => NoneSuperseded d d' ∧ d'.tripleReviews = d.tripleReviews)
      (fun c _ d₂ d₃ h₂ hc => ?_) ⟨.refl d, rfl⟩ h₁
    obtain ⟨clusters, members, rfl⟩ := Derived.persistCluster_eq_ok hc
    exact h₂
  rw [Result.pure_eq_ok] at hw
  refine hw ▸ List.foldlRecOn (motive :=
    fun d' => NoneSuperseded d d' ∧ d'.tripleReviews = d.tripleReviews) _
    Derived.refreshAbsorbed hd₁ fun d₂ ⟨h₂, hr₂⟩ a _ => ⟨h₂.trans (of_subset fun t ht => ?_), hr₂⟩
  exact (Table.mem_deleteWhere.1 ht).1

theorem applyMerges {merges : List MergeOp} (hw : d.applyMerges merges = .ok d') :
    NoneSuperseded d d' ∧ d'.tripleReviews = d.tripleReviews := by
  refine Result.foldlM_invariant_option
    (fun d' => NoneSuperseded d d' ∧ d'.tripleReviews = d.tripleReviews) ?_
    ⟨.refl d, rfl⟩ (orStorage_eq_ok.1 hw)
  rintro op - d₁ d₂ h₁ hstep
  obtain ⟨d₃, h₃, hstep⟩ := Option.bind_eq_some_iff.1 hstep
  have hd₃ : NoneSuperseded d d₃ ∧ d₃.tripleReviews = d.tripleReviews := by
    refine Result.foldlM_invariant_option
      (fun d' => NoneSuperseded d d' ∧ d'.tripleReviews = d.tripleReviews)
      (fun loser _ d₄ d₅ h₄ hmove => ?_) h₁ h₃
    obtain ⟨members, -, rfl⟩ := Derived.moveMembers_eq_some hmove
    exact h₄
  refine Option.some.inj hstep ▸ List.foldlRecOn
    (motive := fun d' => NoneSuperseded d d' ∧ d'.tripleReviews = d.tripleReviews) op.loserIds _ hd₃
    fun d₄ ⟨h₄, hr₄⟩ loser _ => ⟨h₄.trans (of_subset fun t ht => ?_), hr₄⟩
  exact (Table.mem_deleteWhere.1 ht).1

theorem handleConsolidate (env : ConsolidateEnv) (hash : HashOrder) (newId : Nat → ClusterId)
    (scope : ConsolidationScope) :
    NoneSuperseded d (d.handleConsolidate env s nowMs hash newId scope).1 ∧
      (d.handleConsolidate env s nowMs hash newId scope).1.tripleReviews = d.tripleReviews := by
  rcases Derived.handleConsolidate_cases env s nowMs hash newId d scope with
    heq | ⟨embedderId, plan, d₁, -, -, h₁, heq | ⟨merges, -, h₂⟩⟩
  · exact heq.symm ▸ ⟨.refl d, rfl⟩
  · exact heq.symm ▸ persistPlan h₁
  · obtain ⟨hs₁, hr₁⟩ := persistPlan h₁
    obtain ⟨hs₂, hr₂⟩ := applyMerges h₂
    exact ⟨hs₁.trans hs₂, hr₂.trans hr₁⟩

end NoneSuperseded

end Derived

namespace KeptDecisions

open Derived (NoneSuperseded)

variable {s : Store} {nowMs : Int} {d d₁ d' : Derived}

/-- Commands that open no review and supersede nothing. -/
theorem of_reviews (hopen : ∀ r ∈ d'.tripleReviews, r.status = .needsReview → r ∈ d.tripleReviews)
    (hdecided : ∀ r ∈ d.tripleReviews, r.status ≠ .needsReview → r ∈ d'.tripleReviews)
    (hs : NoneSuperseded d d') : KeptDecisions d d' where
  reviews _ _ _ r' hr' hsame hr'open := ⟨r', hopen r' hr' hr'open, rfl, hsame, hr'open⟩
  facts _ _ _ t' ht' _ hsup := hs t' ht' hsup
  decided := hdecided

theorem of_eq (hr : d'.tripleReviews = d.tripleReviews) (hs : NoneSuperseded d d') :
    KeptDecisions d d' :=
  of_reviews (fun _ h _ => hr ▸ h) (fun _ h _ => hr ▸ h) hs

theorem refl (d : Derived) : KeptDecisions d d := of_eq rfl (.refl d)

theorem trans (h : KeptDecisions d d₁) (h' : KeptDecisions d₁ d') : KeptDecisions d d' := by
  refine { reviews := ?_, facts := ?_, decided := ?_ }
  case refine_1 =>
    intro r hr hdec r' hr' hsame hopen
    obtain ⟨r₁, hr₁, hfp₁, hsame₁, hopen₁⟩ :=
      h'.reviews r (h.decided r hr hdec) hdec r' hr' hsame hopen
    obtain ⟨r₀, hr₀, hfp₀, hsame₀, hopen₀⟩ := h.reviews r hr hdec r₁ hr₁ hsame₁ hopen₁
    exact ⟨r₀, hr₀, hfp₀.trans hfp₁, hsame₀, hopen₀⟩
  case refine_2 =>
    intro r hr happ t' ht' hid hsup
    have hdec : r.status ≠ .needsReview := by simp [happ]
    obtain ⟨t₁, ht₁, hid₁, hsup₁⟩ := h'.facts r (h.decided r hr hdec) happ t' ht' hid hsup
    obtain ⟨t, ht, hidt, hsupt⟩ := h.facts r hr happ t₁ ht₁ (hid₁ ▸ hid) hsup₁
    exact ⟨t, ht, hidt.trans hid₁, hsupt⟩
  case refine_3 => exact fun r hr hdec => h'.decided r (h.decided r hr hdec) hdec

/-- A decision on an open review, or a repetition of a decision. -/
theorem handleMemoryQualityReviewUpdate {newId : Nat → String} {u : ReviewUpdate} {row : ReviewRow}
    (hw : d.handleMemoryQualityReviewUpdate s nowMs newId u = .ok (d', row)) :
    KeptDecisions d d' := by
  obtain ⟨row, hrow, hcase⟩ := Derived.handleMemoryQualityReviewUpdate_cases hw
  have hmem : row ∈ d.tripleReviews := (Table.find?_mem hrow).1
  rcases hcase with ⟨hsame, rfl⟩ | ⟨hopen, hnew, d₁, h₁, hw⟩
  · have hset (r : ReviewRow) (hr : r ∈ d.tripleReviews) :
        (if decide (r.reviewId = row.reviewId) = true then { r with status := u.status } else r) =
        r := by
      split
      · next hid =>
        obtain rfl := Derived.review_eq hr hmem (of_decide_eq_true hid)
        rw [← hsame]
      · rfl
    refine of_reviews (fun r hr _ => ?_) (fun r hr _ => ?_) (.refl d)
    · rw [Derived.setReviewStatus, Table.mem_updateWhere] at hr
      obtain ⟨r₀, hr₀, rfl⟩ := hr
      rwa [hset r₀ hr₀]
    · rw [Derived.setReviewStatus, Table.mem_updateWhere]
      exact ⟨r, hr, hset r hr⟩
  · obtain ⟨hs₁, hr₁⟩ := NoneSuperseded.applyReviewDecision h₁
    obtain ⟨claims, rfl, -⟩ := Derived.updateMemoryClaimForReview_eq_some hw
    refine of_reviews (fun r hr hropen => ?_) (fun r hr hdec => ?_) hs₁
    · simp only [Derived.setReviewStatus, Table.mem_updateWhere, hr₁] at hr
      obtain ⟨r₀, hr₀, rfl⟩ := hr
      split at hropen
      · exact absurd (hopen.trans hropen.symm) hnew
      · next hne => rwa [if_neg hne]
    · simp only [Derived.setReviewStatus, Table.mem_updateWhere, hr₁]
      refine ⟨r, hr, if_neg fun hid => hdec ?_⟩
      rw [Derived.review_eq hr hmem (of_decide_eq_true hid), hopen]

end KeptDecisions

/-! ### Proposing candidates -/

/-- What proposing may do to the reviews of `d`: the decided ones stay, and a new or rewritten one
is open, is of no decided candidate and satisfies `C`. -/
structure Proposes (C : ReviewRow → Prop) (d d' : Derived) : Prop where
  decided : ∀ r ∈ d.tripleReviews, r.status ≠ .needsReview → r ∈ d'.tripleReviews
  origin : ∀ r' ∈ d'.tripleReviews, r' ∈ d.tripleReviews ∨ r'.status = .needsReview ∧ C r' ∧
    ∀ r ∈ d.tripleReviews, r.status ≠ .needsReview → ¬ SameCandidate r r'
  facts : ∀ r ∈ d.tripleReviews, r.status = .approved →
    ∀ t' ∈ d'.triples, r.tripleId = some t'.tripleId → t'.status = .superseded →
      ∃ t ∈ d.triples, t.tripleId = t'.tripleId ∧ t.status = .superseded

namespace Proposes

open Derived (NoneSuperseded)

variable {C : ReviewRow → Prop} {s : Store} {nowMs : Int} {d d₁ d₂ d' : Derived}

theorem refl (d : Derived) : Proposes C d d :=
  ⟨fun _ hr _ => hr, fun _ => .inl, fun _ _ _ t ht _ hs => ⟨t, ht, rfl, hs⟩⟩

theorem kept (h : Proposes C d d') : KeptDecisions d d' where
  reviews r hr hdec r' hr' hsame hopen := by
    rcases h.origin r' hr' with hold | ⟨-, -, hnew⟩
    · exact ⟨r', hold, rfl, hsame, hopen⟩
    · exact absurd hsame (hnew r hr hdec)
  facts := h.facts
  decided := h.decided

/-- Statements that supersede nothing and at most delete open reviews. -/
theorem delete (h : Proposes C d d₁) (hsub : ∀ r ∈ d₂.tripleReviews, r ∈ d₁.tripleReviews)
    (hdecided : ∀ r ∈ d.tripleReviews, r.status ≠ .needsReview → r ∈ d₁.tripleReviews →
      r ∈ d₂.tripleReviews)
    (hs : NoneSuperseded d₁ d₂) : Proposes C d d₂ where
  decided r hr hdec := hdecided r hr hdec (h.decided r hr hdec)
  origin r' hr' := h.origin r' (hsub r' hr')
  facts r hr happ t' ht' hid hsup := by
    obtain ⟨t₁, ht₁, hid₁, hsup₁⟩ := hs t' ht' hsup
    obtain ⟨t, ht, hidt, hsupt⟩ := h.facts r hr happ t₁ ht₁ (hid₁ ▸ hid) hsup₁
    exact ⟨t, ht, hidt.trans hid₁, hsupt⟩

/-- The review upsert of a candidate. -/
theorem upsert (h : Proposes C d d₁) {row : ReviewRow} {f : ReviewRow → ReviewRow} {hf}
    {reviews : Table ReviewRow}
    (hups : d₁.tripleReviews.upsert? row (·.candidateFingerprint = row.candidateFingerprint) f hf =
      some reviews)
    (hfp : ∀ r ∈ d.tripleReviews, r.status ≠ .needsReview →
      r.candidateFingerprint ≠ row.candidateFingerprint)
    (hrow : row.status = .needsReview ∧ C row ∧ ∀ r ∈ d.tripleReviews, r.status ≠ .needsReview →
      ¬ SameCandidate r row)
    (hupdate : ∀ b ∈ d₁.tripleReviews, b.candidateFingerprint = row.candidateFingerprint →
      b.status = .needsReview →
      (f b).status = .needsReview ∧ C (f b) ∧ ∀ r ∈ d.tripleReviews, r.status ≠ .needsReview →
        ¬ SameCandidate r (f b)) :
    Proposes C d { d₁ with tripleReviews := reviews } where
  decided r hr hdec :=
    Table.mem_upsert_of_not hups (h.decided r hr hdec) (decide_eq_false (hfp r hr hdec))
  origin r' hr' := by
    rcases Table.mem_of_mem_upsert hups hr' with rfl | ⟨b, hb, hbfp, rfl⟩ | ⟨hold, -⟩
    · exact .inr hrow
    · refine .inr (hupdate b hb (of_decide_eq_true hbfp) ?_)
      rcases h.origin b hb with hb | ⟨hopen, -⟩
      · by_contra hdec
        exact hfp b hb hdec (of_decide_eq_true hbfp)
      · exact hopen
    · exact h.origin r' hold
  facts := h.facts

/-- Where a row of the batch's candidates may sit: in a cluster of the batch, or where its
fingerprint was. -/
def InBatch (d : Derived) (items : List SemanticAbstraction) (r : ReviewRow) : Prop :=
  (∃ a ∈ items, r.clusterId = some a.clusterId) ∨
    ∃ old ∈ d.tripleReviews, old.candidateFingerprint = r.candidateFingerprint ∧
    old.clusterId = r.clusterId

theorem evaluateForCluster_review {s : Store} {clusterId : ClusterId} {t : Triple}
    {c : TripleReviewCandidate}
    (h : evaluateForCluster s clusterId t = .review c) : c.clusterId = clusterId := by
  obtain ⟨r, rfl⟩ := evaluateExtractedTriple_review h
  rfl

theorem insertTripleReview {items : List SemanticAbstraction}
    (hk : AttachKeepsDecisions s nowMs d items)
    {a : SemanticAbstraction} (ha : a ∈ items) {t : Triple} (ht : t ∈ a.triples)
    {c : TripleReviewCandidate}
    (hc : evaluateForCluster s a.clusterId t = .review c) (h : Proposes (InBatch d items) d d₁)
    (hw : d₁.insertTripleReview s nowMs c = some d₂) : Proposes (InBatch d items) d d₂ := by
  obtain ⟨claims, reviews, -, hups, rfl⟩ := Derived.insertTripleReview_eq_some hw
  have hcluster : c.clusterId = a.clusterId := evaluateForCluster_review hc
  have hnew (r : ReviewRow) (hr : r ∈ d.tripleReviews) (hdec : r.status ≠ .needsReview)
      {k : Option ClusterId} (hk' : ∃ a ∈ items, k = some a.clusterId) : r.clusterId ≠ k := by
    obtain ⟨a', ha', rfl⟩ := hk'
    exact (hk r hr hdec a' ha').1
  have hrow : ∃ a ∈ items, (c.row nowMs).clusterId = some a.clusterId :=
    ⟨a, ha, congrArg some hcluster⟩
  have hups' := h.upsert hups (fun r hr hdec => ((hk r hr hdec a ha).2 t ht c hc).1)
    ⟨rfl, .inl hrow, fun r hr hdec hsame => hnew r hr hdec hrow hsame.1⟩ ?_
  · exact ⟨hups'.decided, hups'.origin, hups'.facts⟩
  · intro b hb hfp hopen
    have hplace : InBatch d items b := by
      rcases h.origin b hb with hb | ⟨-, hplace, -⟩
      · exact .inr ⟨b, hb, rfl, rfl⟩
      · exact hplace
    refine ⟨hopen, hplace, fun r hr hdec hsame => ?_⟩
    rcases hplace with hbatch | ⟨old, hold, holdfp, holdcl⟩
    · exact hnew r hr hdec hbatch hsame.1
    · exact ((hk r hr hdec a ha).2 t ht c hc).2 old hold (holdfp.trans hfp)
        ⟨hsame.1.trans holdcl.symm, hsame.2⟩

theorem attachAbstraction {items : List SemanticAbstraction}
    (hk : AttachKeepsDecisions s nowMs d items)
    {a : SemanticAbstraction} (ha : a ∈ items) (h : Proposes (InBatch d items) d d₁)
    (hw : d₁.attachAbstraction s nowMs a = some d₂) : Proposes (InBatch d items) d d₂ := by
  obtain ⟨d₃, h₃, hfold⟩ := Option.bind_eq_some_iff.1 hw
  obtain ⟨abstractions, -, rfl⟩ := Derived.insertAbstraction_eq_some h₃
  refine Result.foldlM_invariant_option (Proposes (InBatch d items) d) ?_ ?_ hfold
  · intro t ht d₄ d₅ h₄ hstep
    unfold Derived.attachTriple at hstep
    split at hstep
    · obtain ⟨hs, hr⟩ := NoneSuperseded.insertActiveTriple hstep
      exact h₄.delete (fun r hmem => hr ▸ hmem) (fun r _ _ hmem => hr ▸ hmem) hs
    · next c hc => exact h₄.insertTripleReview hk ha ht hc hstep
  · refine h.delete (fun r hr => (Table.mem_deleteWhere.1 hr).1) (fun r hr hdec hmem => ?_)
      (.of_subset fun t ht => ?_)
    · exact Table.mem_deleteWhere.2 ⟨hmem, decide_eq_false (hk r hr hdec a ha).1⟩
    · exact (Table.mem_deleteWhere.1 ht).1

theorem attachClusters {items : List SemanticAbstraction} {report : AttachReport}
    (hk : AttachKeepsDecisions s nowMs d items) :
    Proposes (InBatch d items) d (items.foldl (Derived.attachCluster s nowMs) (d, report)).1 := by
  refine List.foldlRecOn (motive := fun st => Proposes (InBatch d items) d st.1)
    items (Derived.attachCluster s nowMs) (b := (d, report)) (.refl d) fun st hst a ha => ?_
  unfold Derived.attachCluster
  split
  · next d₁ hd₁ => exact hst.attachAbstraction hk ha hd₁
  · exact hst

/-- Quarantining a fact proposes its candidate. -/
theorem quarantineTriple {q : TripleRow × TripleQualityReviewReason} (h : Proposes C d d₁)
    (hC : ∀ r, C r) (hq : ∀ r ∈ d.tripleReviews, r.status ≠ .needsReview →
      r.candidateFingerprint ≠ Derived.activeQualityReviewFingerprint q.1.tripleId q.2.reasonCode ∧
      ¬ SameCandidate r (Derived.qualityReview nowMs q.1 q.2) ∧
        (r.status = .approved → r.tripleId ≠ some q.1.tripleId))
    (hw : d₁.quarantineTriple s nowMs q = .ok d₂) : Proposes C d d₂ := by
  obtain ⟨d₃, h₃, hw⟩ := Result.bind_eq_ok.1 hw
  obtain ⟨d₄, h₄, hw⟩ := Result.bind_eq_ok.1 hw
  obtain ⟨reviews, hups, rfl⟩ := Derived.upsertReview_eq_some (orStorage_eq_ok.1 h₃)
  obtain ⟨claims, -, rfl⟩ := Derived.upsertClaim_eq_some (orStorage_eq_ok.1 h₄)
  rw [Result.pure_eq_ok] at hw
  subst hw
  obtain ⟨hdecided, horigin, hfacts⟩ := h.upsert hups (fun r hr hdec => (hq r hr hdec).1)
    ⟨rfl, hC _, fun r hr hdec => (hq r hr hdec).2.1⟩
    fun b _ _ _ => ⟨rfl, hC _, fun r hr hdec => (hq r hr hdec).2.1⟩
  refine ⟨hdecided, horigin, fun r hr happ t' ht' hid hsup => ?_⟩
  rw [Derived.supersedeTriple, Table.mem_updateWhere] at ht'
  obtain ⟨t₁, ht₁, rfl⟩ := ht'
  have hne : t₁.tripleId ≠ q.1.tripleId := fun heq =>
    (hq r hr (by simp [happ])).2.2 happ (by rw [hid, ← heq]; split <;> rfl)
  simp only [hne, decide_false, Bool.false_and, Bool.false_eq_true, if_false] at hid hsup ⊢
  exact hfacts r hr happ t₁ ht₁ hid hsup

theorem runQualityRepair {work : List (TripleRow × TripleQualityReviewReason) × List TripleRow}
    (hwork : ∀ r ∈ d.tripleReviews, r.status ≠ .needsReview → ∀ q ∈ work.1,
      r.candidateFingerprint ≠ Derived.activeQualityReviewFingerprint q.1.tripleId q.2.reasonCode ∧
      ¬ SameCandidate r (Derived.qualityReview nowMs q.1 q.2) ∧
        (r.status = .approved → r.tripleId ≠ some q.1.tripleId))
    (hw : d.runQualityRepair s nowMs work = .ok d') : Proposes (fun _ => True) d d' := by
  refine Result.foldlM_invariant (Proposes (fun _ => True) d) (fun q hq d₁ d₂ h₁ hstep =>
    h₁.quarantineTriple (fun _ => trivial) (fun r hr hdec => hwork r hr hdec q hq) hstep) ?_ hw
  refine List.foldlRecOn (motive := Proposes (fun _ => True) d) work.2 Derived.rewriteToLiteral
    (.refl d) fun d₁ h₁ t _ => h₁.delete (fun _ hr => hr) (fun _ _ _ hr => hr) fun t' ht' hsup => ?_
  rw [Derived.rewriteToLiteral, Table.mem_updateWhere] at ht'
  obtain ⟨t₁, ht₁, rfl⟩ := ht'
  exact ⟨t₁, ht₁, by split <;> rfl, by split at hsup <;> exact hsup⟩

end Proposes

namespace KeptDecisions

open Derived (NoneSuperseded)

variable {s : Store} {nowMs : Int} {d d₁ d' : Derived}

theorem handleRepairDerived {scope : RepairScope} {report : RepairReport}
    (hk : scope.dryRun = false → RepairKeepsDecisions nowMs d scope)
    (hw : d.handleRepairDerived s nowMs scope = .ok (d', report)) : KeptDecisions d d' := by
  unfold Derived.handleRepairDerived at hw
  unfold RepairKeepsDecisions at hk
  split at hw
  · cases hw
  split at hw
  · next hmode =>
    rw [hmode] at hk
    simp only [Derived.repairStaleAbstractions] at hw
    split at hw
    · cases hw
      exact .refl d
    · next hdry =>
      cases hw
      have hstale := hk (Bool.eq_false_iff.2 hdry)
      refine Proposes.kept (C := fun _ => True)
        (List.foldlRecOn (motive := Proposes (fun _ => True) d) _
        Derived.repairStaleCluster (.refl d) fun d₁ h₁ c hc => ?_)
      obtain ⟨k, hk', rfl⟩ := List.mem_map.1 hc
      refine h₁.delete (fun r hr => (Table.mem_deleteWhere.1 hr).1) (fun r hr hdec hmem => ?_)
        (.of_subset fun t ht => ?_)
      · exact Table.mem_deleteWhere.2 ⟨hmem, decide_eq_false (hstale r hr hdec k hk')⟩
      · exact (Table.mem_deleteWhere.1 ht).1
  · next hmode =>
    rw [hmode] at hk
    simp only [Derived.repairActiveTripleQuality] at hw
    split at hw
    · cases hw
      exact .refl d
    · next hdry =>
      obtain ⟨d₁, h₁, hw⟩ := Result.bind_eq_ok.1 hw
      rw [Result.pure_eq_ok, Prod.mk.injEq] at hw
      exact hw.1 ▸ (Proposes.runQualityRepair (hk (Bool.eq_false_iff.2 hdry)) h₁).kept
  · next hmode =>
    rw [hmode] at hk
    simp only [Derived.rebuildAllDerived] at hw
    cases hw
    split
    · exact .refl d
    · next hdry =>
      -- Nothing was decided, and no review or triple is left.
      refine of_reviews (fun r hr => absurd hr Table.not_mem_empty) (fun r hr hdec => ?_)
        (.of_subset fun t ht => absurd ht Table.not_mem_empty)
      exact (hk (Bool.eq_false_iff.2 hdry) r hr hdec).elim

theorem handleNormalizeSubjects (aliases : List (String × String)) (dryRun : Bool) :
    KeptDecisions d (d.handleNormalizeSubjects aliases dryRun).1 := by
  show KeptDecisions d
      (if dryRun = true then d else (aliases.foldl Derived.normalizeStep (d, 0, 0)).1)
  split
  · exact .refl d
  · refine List.foldlRecOn (motive := fun st => KeptDecisions d st.1) aliases Derived.normalizeStep
      (b := (d, 0, 0)) (.refl d) fun st hst pair _ => hst.trans (of_eq rfl fun t' ht' hsup => ?_)
    obtain ⟨t, ht, rfl⟩ := Derived.mem_triples_normalizeAlias.1 ht'
    exact ⟨t, ht, rfl, hsup⟩

/-- One command that meets the condition. -/
theorem step {e : DerivedEvent} (hk : KeepsDecisions s d e) : KeptDecisions d (d.step s e) := by
  have hcommitted {α : Type} {r : Except Error (Derived × α)}
      (hr : ∀ d' a, r = .ok (d', a) → KeptDecisions d d') : KeptDecisions d (d.committed r) := by
    cases r with
    | error e => exact .refl d
    | ok p => exact hr p.1 p.2 rfl
  obtain ⟨nowMs, newId, command⟩ := e
  cases command with
  | attachAbstractionBatch deferred items =>
    refine hcommitted fun d' report hw => ?_
    unfold Derived.handleAttachAbstractionBatch at hw
    split at hw
    · cases hw
    · have hfold : KeptDecisions d
          ((items.map Prod.snd).foldl (Derived.attachCluster s nowMs)
            (d, ⟨0, 0, 0, 0, deferred⟩)).1 :=
        (Proposes.attachClusters hk).kept
      rwa [Except.ok.inj hw] at hfold
  | updateMemoryQualityReview u =>
    exact hcommitted fun d' row hw => handleMemoryQualityReviewUpdate hw
  | repairDerived scope => exact hcommitted fun d' report hw => handleRepairDerived hk hw
  | normalizeSubjects aliases dryRun => exact handleNormalizeSubjects aliases dryRun
  | consolidate env hash scope =>
    have h : NoneSuperseded d (d.handleConsolidate env s nowMs hash newId scope).1 ∧
        (d.handleConsolidate env s nowMs hash newId scope).1.tripleReviews = d.tripleReviews :=
      NoneSuperseded.handleConsolidate env hash newId scope
    exact of_eq h.2 h.1

end KeptDecisions

/-- From any state of a session, commands that leave decisions alone reach only states where they
stand. -/
theorem decisionsStand_always (s : Store) (legacy : Derived) (es es' : List DerivedEvent)
    (hes' : Run.Guarded (Derived.step s) (KeepsDecisions s)
      (Run.run (Derived.step s) (legacy.migrated s) es) es') :
    Run.Always (Derived.step s) (DecisionsStand (Run.run (Derived.step s) (legacy.migrated s) es))
      (Run.run (Derived.step s) (legacy.migrated s) es) es' :=
  Run.Guarded.always (KeptDecisions _) (fun _ _ h hk => h.trans (.step hk))
    (fun _ h => h.toDecisionsStand) hes' (.refl _)

/-! ### A dismissed candidate that comes back -/

namespace DismissedCandidate

def legacy : Derived :=
  { Derived.empty with
    clusters := (Table.empty.insertOrIgnore ⟨"k", none, 1, 0⟩).insertOrIgnore ⟨"j", none, 1, 0⟩ }

def provenance : Provenance := ⟨[], "llm", "steward", 0⟩

/-- A fact below the confidence floor. -/
def guess (id : TripleId) : Triple :=
  ⟨id, "Ada Lovelace", "works_at", "Analytical Engines", .entity, 0, none, 0.5, provenance⟩

def attach (cluster : ClusterId) (facts : List Triple) : DerivedEvent :=
  ⟨1, fun _ => "",
    .attachAbstractionBatch 0 [(cluster, ⟨"a" ++ cluster, cluster, "", facts, provenance, 0.9⟩)]⟩

def dismiss : DerivedEvent :=
  ⟨2, fun _ => "", .updateMemoryQualityReview ⟨"trv-46bc3afbc32bd67c", .dismissed, []⟩⟩

/-- The guess was dismissed. -/
def dismissed : Derived :=
  Run.run (Derived.step .empty) (legacy.migrated .empty) [attach "k" [guess "t1"], dismiss]

end DismissedCandidate

open DismissedCandidate in
/-- The other cluster proposes the guess again, as a candidate of its own. -/
theorem decisionsStand_always_otherCluster :
    dismissed.tripleReviews.rows.map (fun r => (r.clusterId, r.status)) = [(some "k", .dismissed)] ∧
      (dismissed.step .empty (attach "j" [guess "t2"])).tripleReviews.rows.map
      (fun r => (r.clusterId, r.status)) =
        [(some "k", .dismissed), (some "j", .needsReview)] ∧
      Run.Always (Derived.step .empty) (DecisionsStand dismissed)
      dismissed [attach "j" [guess "t2"]] := by
  have hfresh : ∀ r ∈ dismissed.tripleReviews.rows, r.clusterId ≠ some "j" ∧
      r.candidateFingerprint ≠ (evaluateForCluster .empty "j" (guess "t2")).claimFingerprint := by
        decide +kernel
  have hguard : KeepsDecisions .empty dismissed (attach "j" [guess "t2"]) := by
    intro r hr _ a ha
    obtain rfl := List.mem_singleton.1 ha
    refine ⟨(hfresh r (Table.mem_rows.2 hr)).1, fun t ht c hc => ?_⟩
    obtain rfl := List.mem_singleton.1 ht
    have hfp (old : ReviewRow) (hold : old ∈ dismissed.tripleReviews) :
        old.candidateFingerprint ≠ c.candidateFingerprint := by
      have hne := (hfresh old (Table.mem_rows.2 hold)).2
      rwa [hc] at hne
    exact ⟨hfp r hr, fun old hold heq => absurd heq (hfp old hold)⟩
  exact ⟨by decide +kernel, by decide +kernel,
    decisionsStand_always .empty legacy [attach "k" [guess "t1"], dismiss] _ ⟨hguard, trivial⟩⟩

open DismissedCandidate in
/-- Abstracting the cluster again deletes the dismissed review and opens its candidate anew. -/
theorem dismissedCandidate_not_decisionsStand :
    ¬ ∀ (s : Store) (legacy : Derived) (es es' : List DerivedEvent),
      Run.Always (Derived.step s) (DecisionsStand (Run.run (Derived.step s) (legacy.migrated s) es))
        (Run.run (Derived.step s) (legacy.migrated s) es) es' := by
  intro h
  have hrun : Run.Always (Derived.step .empty) (DecisionsStand dismissed)
      dismissed [attach "k" [guess "t2"]] :=
    h .empty legacy [attach "k" [guess "t1"], dismiss] [attach "k" [guess "t2"]]
  have hlast : DecisionsStand dismissed (dismissed.step .empty (attach "k" [guess "t2"])) := hrun.2
  have hopen : ∃ r ∈ dismissed.tripleReviews.rows, r.status = .dismissed ∧
      ∃ r' ∈ (dismissed.step .empty (attach "k" [guess "t2"])).tripleReviews.rows,
        (r.clusterId = r'.clusterId ∧ r.subjectId = r'.subjectId ∧ r.predicate = r'.predicate ∧
          r.objectId = r'.objectId) ∧ r'.status = .needsReview := by
    decide +kernel
  obtain ⟨r, hr, hdismissed, r', hr', hsame, hr'open⟩ := hopen
  obtain ⟨r₀, hr₀, -, -, hr₀open⟩ := hlast.reviews r hr (by simp [hdismissed]) r' hr' hsame hr'open
  have hdecided : ∀ r ∈ dismissed.tripleReviews.rows, r.status ≠ .needsReview := by decide +kernel
  exact hdecided r₀ hr₀ hr₀open

end Solo
