import Solo.Derived.Session

/-!
# Active claims and the facts behind them

A claim names its triple by id with no foreign key, and nothing that deletes or supersedes triples
looks at the claims. `ClaimsBacked` therefore holds along a run whose commands leave the facts with
an active claim alone: `KeepsClaims` says, command by command, what that asks of the state the
command starts from.
-/

namespace Solo

open Text

/-- Every active claim names an active triple, and no two of them the same one. -/
structure ClaimsBacked (d : Derived) : Prop where
  backed : ∀ c ∈ d.memoryClaims, c.status = .active →
    ∃ t ∈ d.triples, c.tripleId = some t.tripleId ∧ t.status = .active
  one : ∀ c ∈ d.memoryClaims, ∀ c' ∈ d.memoryClaims, c.status = .active → c'.status = .active →
    c.tripleId = c'.tripleId → c = c'

namespace Derived

/-- Some active claim names the triple. -/
def Claimed (d : Derived) (id : TripleId) : Prop :=
  ∃ c ∈ d.memoryClaims, c.status = .active ∧ c.tripleId = some id

/-- Some triple of the cluster has an active claim. -/
def ClusterClaimed (d : Derived) (c : ClusterId) : Prop :=
  ∃ t ∈ d.triples, t.clusterId = some c ∧ d.Claimed t.tripleId

/-- Some review candidate of the abstraction falls on a claim that the user approved. -/
def ProposesApproved (s : Store) (d : Derived) (a : SemanticAbstraction) : Prop :=
  ∃ t ∈ a.triples, ∃ c, evaluateForCluster s a.clusterId t = .review c ∧
    ∃ m ∈ d.memoryClaims, m.userApproved = true ∧ m.candidateFingerprint = c.candidateFingerprint

theorem claim_eq {d : Derived} {c c' : ClaimRow} (hc : c ∈ d.memoryClaims)
    (hc' : c' ∈ d.memoryClaims)
    (h : c.claimId = c'.claimId ∨ c.candidateFingerprint = c'.candidateFingerprint) : c = c' :=
  Table.eq_of_clash hc hc' (by simpa [Keyed.clash] using h)

end Derived

/-- Some triple of the abstraction passes the gate. -/
def Activates (s : Store) (a : SemanticAbstraction) : Prop :=
  ∃ t ∈ a.triples, ∃ active, evaluateForCluster s a.clusterId t = .active active

/-- The batch drops no fact with an active claim and proposes nothing the user approved. -/
def AttachKeepsClaims (s : Store) (d : Derived) (items : List SemanticAbstraction) : Prop :=
  (∀ a ∈ items, ¬ d.ClusterClaimed a.clusterId ∧ ¬ d.ProposesApproved s a) ∧
    items.Pairwise fun a b => a.clusterId = b.clusterId → ¬ Activates s a

/-- An approved review has a fact, which no active claim but the review's names. -/
def ReviewKeepsClaims (d : Derived) (u : ReviewUpdate) : Prop :=
  u.status = .approved → ∀ row, d.review? (trim u.reviewId) = some row → row.status = .needsReview →
    ∃ t ∈ d.triples, row.tripleId = some t.tripleId ∧
      ∀ c ∈ d.memoryClaims, c.status = .active → c.tripleId = some t.tripleId →
      c.claimId = d.reviewClaimId row

/-- The repair drops no fact with an active claim, and quarantines none but by that claim's own
review. -/
def RepairKeepsClaims (d : Derived) (scope : RepairScope) : Prop :=
  match scope.mode with
  | .staleAbstractions => ∀ k ∈ d.staleCandidates scope, ¬ d.ClusterClaimed k.clusterId
  | .qualityGate =>
    ∀ q ∈ (d.qualityWork scope).1, ∀ c ∈ d.memoryClaims, c.status = .active →
      c.tripleId = some q.1.tripleId →
      c.candidateFingerprint = Derived.activeQualityReviewFingerprint q.1.tripleId q.2.reasonCode
  | .rebuildAll => ∀ c ∈ d.memoryClaims, c.status ≠ .active

/-- No fact of a cluster that absorbs, or that merges into another, has an active claim. -/
def ConsolidateKeepsClaims (s : Store) (d : Derived) (nowMs : Int) (newId : Nat → String)
    (env : ConsolidateEnv) (hash : HashOrder) (scope : ConsolidationScope) : Prop :=
  ∀ embedderId plan, env.embedderId = some embedderId →
    Derived.planConsolidation env hash newId d embedderId (cutoffMs nowMs scope)
      (Derived.consolidateCandidates s d embedderId (cutoffMs nowMs scope)) = .ok plan →
    (∀ a ∈ plan.absorptions, ¬ d.ClusterClaimed a.existingClusterId) ∧
      ∀ d₁ merges, d.persistPlan s nowMs plan = .ok d₁ →
        Derived.planMerges env plan (cutoffMs nowMs scope) d₁ = .ok merges →
        ∀ op ∈ merges, ∀ loser ∈ op.loserIds, ¬ d.ClusterClaimed loser

/-- What a command must find so that it leaves active claims backed. -/
def KeepsClaims (s : Store) (d : Derived) (e : DerivedEvent) : Prop :=
  match e.command with
  | .attachAbstractionBatch _ items => AttachKeepsClaims s d (items.map Prod.snd)
  | .updateMemoryQualityReview u => ReviewKeepsClaims d u
  | .repairDerived scope => scope.dryRun = false → RepairKeepsClaims d scope
  | .normalizeSubjects _ _ => True
  | .consolidate env hash scope => ConsolidateKeepsClaims s d e.nowMs e.newId env hash scope

/-! ### Statements that only take activity away -/

/-- No claim became active and no triple new. -/
structure Shrinks (d d' : Derived) : Prop where
  claims : ∀ c ∈ d'.memoryClaims, c.status = .active → c ∈ d.memoryClaims
  triples : ∀ t' ∈ d'.triples, ∃ t ∈ d.triples, t.tripleId = t'.tripleId ∧
    t.clusterId = t'.clusterId

namespace Shrinks

variable {d d₁ d' : Derived}

theorem refl (d : Derived) : Shrinks d d := ⟨fun _ hc _ => hc, fun t ht => ⟨t, ht, rfl, rfl⟩⟩

theorem trans (h : Shrinks d d₁) (h' : Shrinks d₁ d') : Shrinks d d' := by
  constructor
  case claims => exact fun c hc hactive => h.claims c (h'.claims c hc hactive) hactive
  case triples =>
    intro t' ht'
    obtain ⟨t₁, ht₁, hid₁, hcl₁⟩ := h'.triples t' ht'
    obtain ⟨t, ht, hid, hcl⟩ := h.triples t₁ ht₁
    exact ⟨t, ht, hid.trans hid₁, hcl.trans hcl₁⟩

theorem claimed (h : Shrinks d d') {id : TripleId} (hid : d'.Claimed id) : d.Claimed id := by
  obtain ⟨c, hc, hactive, hct⟩ := hid
  exact ⟨c, h.claims c hc hactive, hactive, hct⟩

theorem clusterClaimed (h : Shrinks d d') {c : ClusterId} (hc : d'.ClusterClaimed c) :
    d.ClusterClaimed c := by
  obtain ⟨t', ht', hcl, hclaimed⟩ := hc
  obtain ⟨t, ht, hid, hclt⟩ := h.triples t' ht'
  exact ⟨t, ht, hclt.trans hcl, hid ▸ h.claimed hclaimed⟩

theorem deleteTriples (d : Derived) (p : TripleRow → Bool) : Shrinks d (d.deleteTriples p) :=
  ⟨fun _ hc _ => hc, fun t ht => ⟨t, (Table.mem_deleteWhere.1 ht).1, rfl, rfl⟩⟩

end Shrinks

namespace ClaimsBacked

variable {s : Store} {nowMs : Int} {d d₁ d' : Derived}

/-- Where nothing became active, it is enough that the claimed facts stay. -/
theorem shrink (h : ClaimsBacked d) (hs : Shrinks d d')
    (hkept : ∀ t ∈ d.triples, t.status = .active → d'.Claimed t.tripleId →
      ∃ t' ∈ d'.triples, t'.tripleId = t.tripleId ∧ t'.status = .active) : ClaimsBacked d' := by
  constructor
  case backed =>
    intro c hc hactive
    obtain ⟨t, ht, hid, hstatus⟩ := h.backed c (hs.claims c hc hactive) hactive
    obtain ⟨t', ht', hid', hstatus'⟩ := hkept t ht hstatus ⟨c, hc, hactive, hid⟩
    exact ⟨t', ht', hid'.symm ▸ hid, hstatus'⟩
  case one =>
    intro c hc c' hc' hactive hactive'
    exact h.one c (hs.claims c hc hactive) c' (hs.claims c' hc' hactive') hactive hactive'

/-- Statements on the other tables. -/
theorem congr (h : ClaimsBacked d) (ht : d'.triples = d.triples)
    (hc : d'.memoryClaims = d.memoryClaims) : ClaimsBacked d' := by
  obtain ⟨h₁, h₂⟩ := h
  constructor <;> simp only [ht, hc]
  exacts [h₁, h₂]

/-- A fact that becomes active with the claim that names it, the only one to do so. -/
theorem activate (h : ClaimsBacked d) (id : TripleId)
    (hclaims : ∀ c ∈ d'.memoryClaims, c.status = .active →
      c.tripleId = some id ∨ c ∈ d.memoryClaims ∧ c.tripleId ≠ some id)
    (hone : ∀ c ∈ d'.memoryClaims, ∀ c' ∈ d'.memoryClaims, c.status = .active →
      c'.status = .active → c.tripleId = some id → c'.tripleId = some id → c = c')
    (hfact : ∃ t ∈ d'.triples, t.tripleId = id ∧ t.status = .active)
    (hother : ∀ t ∈ d.triples, t.tripleId ≠ id → t ∈ d'.triples) : ClaimsBacked d' := by
  constructor
  case backed =>
    intro c hc hactive
    rcases hclaims c hc hactive with hid | ⟨hold, hne⟩
    · obtain ⟨t, ht, rfl, hstatus⟩ := hfact
      exact ⟨t, ht, hid, hstatus⟩
    · obtain ⟨t, ht, hid, hstatus⟩ := h.backed c hold hactive
      exact ⟨t, hother t ht fun heq => hne (heq ▸ hid), hid, hstatus⟩
  case one =>
    intro c hc c' hc' hactive hactive' heq
    by_cases hid : c.tripleId = some id
    · exact hone c hc c' hc' hactive hactive' hid (heq ▸ hid)
    · have hold := (hclaims c hc hactive).resolve_left hid
      have hold' := (hclaims c' hc' hactive').resolve_left (heq ▸ hid)
      exact h.one c hold.1 c' hold'.1 hactive hactive' heq

theorem deleteTriples (h : ClaimsBacked d) {p : TripleRow → Bool}
    (hp : ∀ t ∈ d.triples, p t = true → ¬ d.Claimed t.tripleId) :
    ClaimsBacked (d.deleteTriples p) := by
  refine h.shrink (.deleteTriples d p) fun t ht hactive hclaimed =>
    ⟨t, Table.mem_deleteWhere.2 ⟨ht, ?_⟩, rfl, hactive⟩
  by_contra hpt
  exact hp t ht (by simpa using hpt) hclaimed

theorem deleteTriplesOf (h : ClaimsBacked d) {c : ClusterId} (hc : ¬ d.ClusterClaimed c) :
    ClaimsBacked (d.deleteTriplesOf c) :=
  h.deleteTriples fun t ht hcl hclaimed => hc ⟨t, ht, of_decide_eq_true hcl, hclaimed⟩

end ClaimsBacked

theorem claimStatusForReviewReason_ne_active (code : String) :
    claimStatusForReviewReason code ≠ .active := by
  unfold claimStatusForReviewReason
  split
  · simp
  · split <;> simp

/-! ### Attaching -/

/-- What attaching may add: active claims for triples of the clusters with `C`, and no user
approval. -/
structure Attaches (C : ClusterId → Prop) (d d' : Derived) : Prop where
  claimed : ∀ c, d'.ClusterClaimed c → d.ClusterClaimed c ∨ C c
  approved : ∀ m ∈ d'.memoryClaims, m.userApproved = true →
    ∃ m₀ ∈ d.memoryClaims, m₀.userApproved = true ∧ m₀.candidateFingerprint = m.candidateFingerprint

namespace Attaches

variable {C C' : ClusterId → Prop} {s : Store} {nowMs : Int} {d d₁ d' : Derived}

theorem refl (d : Derived) : Attaches C d d := ⟨fun _ => .inl, fun m hm ha => ⟨m, hm, ha, rfl⟩⟩

theorem trans (h : Attaches C d d₁) (h' : Attaches C d₁ d') : Attaches C d d' := by
  constructor
  case claimed =>
    intro c hc
    rcases h'.claimed c hc with hc | hc
    · exact h.claimed c hc
    · exact .inr hc
  case approved =>
    intro m hm ha
    obtain ⟨m₁, hm₁, ha₁, hfp₁⟩ := h'.approved m hm ha
    obtain ⟨m₀, hm₀, ha₀, hfp₀⟩ := h.approved m₁ hm₁ ha₁
    exact ⟨m₀, hm₀, ha₀, hfp₀.trans hfp₁⟩

theorem mono (hC : ∀ c, C c → C' c) (h : Attaches C d d') : Attaches C' d d' :=
  ⟨fun c hc => (h.claimed c hc).imp_right (hC c), h.approved⟩

theorem of_shrinks (h : Shrinks d d') (hclaims : d'.memoryClaims = d.memoryClaims) :
    Attaches C d d' :=
  ⟨fun _ hc => .inl (h.clusterClaimed hc), fun m hm ha => ⟨m, hclaims ▸ hm, ha, rfl⟩⟩

theorem proposesApproved (h : Attaches C d d') {a : SemanticAbstraction}
    (ha : d'.ProposesApproved s a) : d.ProposesApproved s a := by
  obtain ⟨t, ht, c, hc, m, hm, hma, hfp⟩ := ha
  obtain ⟨m₀, hm₀, hma₀, hfp₀⟩ := h.approved m hm hma
  exact ⟨t, ht, c, hc, m₀, hm₀, hma₀, hfp₀.trans hfp⟩

end Attaches

namespace ClaimsBacked

variable {s : Store} {nowMs : Int} {d d₁ d' : Derived}

/-- The claim upsert of a new fact: the row it writes names the fact, the others do not. -/
theorem insertActiveTriple (h : ClaimsBacked d) {t : ActiveTriple} {c : Option ClusterId}
    {src : Option Rowid}
    {prov : Provenance} (hw : d.insertActiveTriple s nowMs t c src prov = some d') :
    ClaimsBacked d' ∧ Attaches (fun k => c = some k) d d' := by
  obtain ⟨triples, claims, _, _, _, hins, hups, rfl⟩ := Derived.insertActiveTriple_eq_some hw
  have hfresh (r : TripleRow) (hr : r ∈ d.triples) : r.tripleId ≠ t.tripleId :=
    of_decide_eq_false (Table.insert?_fresh hins hr)
  have hwritten (m : ClaimRow) (hm : m ∈ claims) :
      m.candidateFingerprint = activeClaimFingerprint t ∧ m.tripleId = some t.tripleId ∨
        m ∈ d.memoryClaims ∧ m.candidateFingerprint ≠ activeClaimFingerprint t := by
    rcases Table.mem_of_mem_upsert hups hm with rfl | ⟨b, -, hb, rfl⟩ | ⟨hm, hne⟩
    · exact .inl ⟨rfl, rfl⟩
    · exact .inl ⟨of_decide_eq_true hb, rfl⟩
    · exact .inr ⟨hm, of_decide_eq_false hne⟩
  have hunclaimed (m : ClaimRow) (hm : m ∈ d.memoryClaims) (hactive : m.status = .active) :
      m.tripleId ≠ some t.tripleId := by
    intro hid
    obtain ⟨r, hr, hmr, -⟩ := h.backed m hm hactive
    exact hfresh r hr (Option.some.inj (hmr.symm.trans hid))
  refine ⟨h.activate t.tripleId ?_ ?_ ?_ ?_, ?_, ?_⟩
  · intro m hm hactive
    rcases hwritten m hm with ⟨-, hid⟩ | ⟨hm, -⟩
    · exact .inl hid
    · exact .inr ⟨hm, hunclaimed m hm hactive⟩
  · intro m hm m' hm' hactive hactive' hid hid'
    have hfp (m : ClaimRow) (hm : m ∈ claims) (hactive : m.status = .active)
        (hid : m.tripleId = some t.tripleId) :
        m.candidateFingerprint = activeClaimFingerprint t := by
      rcases hwritten m hm with ⟨hfp, -⟩ | ⟨hm, -⟩
      · exact hfp
      · exact absurd hid (hunclaimed m hm hactive)
    refine Table.eq_of_clash hm hm' ?_
    simp [Keyed.clash, hfp m hm hactive hid, hfp m' hm' hactive' hid']
  · exact ⟨_, (Table.mem_insert hins).2 (.inr rfl), rfl, rfl⟩
  · exact fun r hr _ => (Table.mem_insert hins).2 (.inl hr)
  · rintro k ⟨r, hr, hk, m, hm, hactive, hid⟩
    rcases (Table.mem_insert hins).1 hr with hr | rfl
    · rcases hwritten m hm with ⟨-, hid'⟩ | ⟨hm, -⟩
      · exact absurd (Option.some.inj (hid.symm.trans hid')) (hfresh r hr)
      · exact .inl ⟨r, hr, hk, m, hm, hactive, hid⟩
    · exact .inr hk
  · intro m hm ha
    rcases Table.mem_of_mem_upsert hups hm with rfl | ⟨b, hb, -, rfl⟩ | ⟨hm, -⟩
    · cases ha
    · exact ⟨b, hb, ha, rfl⟩
    · exact ⟨m, hm, ha, rfl⟩

theorem insertTripleReview (h : ClaimsBacked d) {c : TripleReviewCandidate} {C : ClusterId → Prop}
    (hc : ∀ m ∈ d.memoryClaims, m.userApproved = true →
      m.candidateFingerprint ≠ c.candidateFingerprint)
    (hw : d.insertTripleReview s nowMs c = some d') : ClaimsBacked d' ∧ Attaches C d d' := by
  obtain ⟨claims, reviews, hups, -, rfl⟩ := Derived.insertTripleReview_eq_some hw
  have hs : Shrinks d { d with memoryClaims := claims, tripleReviews := reviews } := by
    refine ⟨fun m hm hactive => ?_, fun t ht => ⟨t, ht, rfl, rfl⟩⟩
    rcases Table.mem_of_mem_upsert hups hm with rfl | ⟨b, hb, hfp, rfl⟩ | ⟨hm, -⟩
    · exact absurd hactive (claimStatusForReviewReason_ne_active _)
    · -- A claim the user approved would keep its status.
      cases ha : b.userApproved with
      | true => exact absurd (of_decide_eq_true hfp) (hc b hb ha)
      | false =>
        simp only [ha, Bool.false_eq_true, if_false] at hactive
        exact absurd hactive (claimStatusForReviewReason_ne_active _)
    · exact hm
  refine ⟨h.shrink hs fun t ht hactive _ => ⟨t, ht, rfl, hactive⟩,
    fun _ hk => .inl (hs.clusterClaimed hk), ?_⟩
  intro m hm ha
  rcases Table.mem_of_mem_upsert hups hm with rfl | ⟨b, hb, -, rfl⟩ | ⟨hm, -⟩
  · cases ha
  · exact ⟨b, hb, ha, rfl⟩
  · exact ⟨m, hm, ha, rfl⟩

theorem attachAbstraction (h : ClaimsBacked d) {a : SemanticAbstraction}
    (hcluster : ¬ d.ClusterClaimed a.clusterId)
    (happroved : ¬ d.ProposesApproved s a) (hw : d.attachAbstraction s nowMs a = some d') :
    ClaimsBacked d' ∧ Attaches (fun k => k = a.clusterId ∧ Activates s a) d d' := by
  obtain ⟨d₁, h₁, hfold⟩ := Option.bind_eq_some_iff.1 hw
  obtain ⟨abstractions, -, rfl⟩ := Derived.insertAbstraction_eq_some h₁
  refine Result.foldlM_invariant_option
    (fun d' => ClaimsBacked d' ∧ Attaches (fun k => k = a.clusterId ∧ Activates s a) d d')
    ?_ ⟨?_, ?_⟩ hfold
  · intro t ht d₂ d₃ ⟨h₂, ha₂⟩ hstep
    unfold Derived.attachTriple at hstep
    split at hstep
    · next active hactive =>
      obtain ⟨h₃, ha₃⟩ := h₂.insertActiveTriple hstep
      exact ⟨h₃,
        ha₂.trans (ha₃.mono fun k hk => ⟨(Option.some.inj hk).symm, t, ht, active, hactive⟩)⟩
    · next c hc =>
      obtain ⟨h₃, ha₃⟩ := h₂.insertTripleReview (fun m hm hma hfp =>
        happroved (ha₂.proposesApproved ⟨t, ht, c, hc, m, hm, hma, hfp⟩)) hstep
      exact ⟨h₃, ha₂.trans ha₃⟩
  · refine congr (d := (d.deleteAbstractionsOf a.clusterId).deleteTriplesOf a.clusterId) ?_ rfl rfl
    refine deleteTriplesOf ?_ hcluster
    exact congr h rfl rfl
  · exact .of_shrinks ⟨fun _ hc _ => hc, fun t ht => ⟨t, (Table.mem_deleteWhere.1 ht).1, rfl, rfl⟩⟩
      rfl

/-- The items of a batch: a cluster that comes twice must not have been given a fact the first
time. -/
theorem attachClusters (h : ClaimsBacked d) {items : List SemanticAbstraction}
    {report : AttachReport}
    (hk : AttachKeepsClaims s d items) :
    ClaimsBacked (items.foldl (Derived.attachCluster s nowMs) (d, report)).1 := by
  induction items generalizing d report with
  | nil => exact h
  | cons a items ih =>
    obtain ⟨hitems, htwice⟩ := hk
    obtain ⟨hfirst, htwice⟩ := List.pairwise_cons.1 htwice
    obtain ⟨hcluster, happroved⟩ := hitems a List.mem_cons_self
    have hrest (b : SemanticAbstraction) (hb : b ∈ items) := hitems b (List.mem_cons_of_mem _ hb)
    rw [List.foldl_cons]
    unfold Derived.attachCluster
    split
    · next d₁ hd₁ =>
      obtain ⟨h₁, ha₁⟩ := h.attachAbstraction hcluster happroved hd₁
      refine ih h₁
        ⟨fun b hb => ⟨fun hclaimed => ?_, fun hp => (hrest b hb).2 (ha₁.proposesApproved hp)⟩,
          htwice⟩
      rcases ha₁.claimed _ hclaimed with hold | ⟨heq, hactivates⟩
      · exact (hrest b hb).1 hold
      · exact hfirst b hb heq.symm hactivates
    · exact ih h ⟨hrest, htwice⟩

/-! ### Deciding reviews -/

/-- A decision other than approval leaves no active claim where it decides. -/
theorem updateMemoryClaimForReview (h : ClaimsBacked d) {row : ReviewRow} {status : ReviewStatus}
    (hstatus : status ≠ .approved) (hw : d.updateMemoryClaimForReview s row status = some d') :
    ClaimsBacked d' := by
  obtain ⟨claims, rfl, hclaims⟩ := Derived.updateMemoryClaimForReview_eq_some hw
  refine h.shrink ⟨fun c hc hactive => ?_, fun t ht => ⟨t, ht, rfl, rfl⟩⟩ fun t ht hactive _ =>
    ⟨t, ht, rfl, hactive⟩
  rcases hclaims c hc with ⟨b, -, rfl⟩ | ⟨hold, -⟩
  · cases status with
    | approved => exact absurd rfl hstatus
    | _ => cases hactive
  · exact hold

/-- Approving a review whose fact exists, if no claim but the review's names that fact. -/
theorem approve (h : ClaimsBacked d) {newId : Nat → String} {row : ReviewRow} {u : ReviewUpdate}
    (hu : u.status = .approved) {t : TripleRow} (ht : t ∈ d.triples)
    (hid : row.tripleId = some t.tripleId)
    (hnamed : ∀ c ∈ d.memoryClaims, c.status = .active → c.tripleId = some t.tripleId →
      c.claimId = d.reviewClaimId row)
    (h₁ : d.applyReviewDecision s nowMs newId row u = .ok d₁)
    (hw : (d₁.setReviewStatus row.reviewId u.status).updateMemoryClaimForReview s row u.status =
      some d') :
    ClaimsBacked d' := by
  unfold Derived.applyReviewDecision at h₁
  rw [hu] at h₁ hw
  obtain ⟨active, hactive, h₁⟩ := Result.bind_eq_ok.1 h₁
  obtain ⟨hactive, -⟩ := memoryQualityActiveTriple_eq_ok hactive
  rw [hid, Option.getD_some] at hactive h₁
  have hany : (d.triples.rows.any fun r => decide (r.tripleId = t.tripleId)) = true :=
    List.any_eq_true.2 ⟨t, ht, decide_eq_true rfl⟩
  rw [if_pos hany] at h₁
  obtain ⟨-, -, h₁⟩ := Result.bind_eq_ok.1 h₁
  obtain ⟨d₂, h₂, h₁⟩ := Option.bind_eq_some_iff.1 (orStorage_eq_ok.1 h₁)
  obtain ⟨entities, rfl⟩ := Derived.upsertEntitiesForActiveTriple_eq_some h₂
  obtain ⟨edges, evidence, rfl⟩ := Derived.upsertRelationshipEdge_eq_some h₁
  obtain ⟨claims, rfl, hclaims⟩ := Derived.updateMemoryClaimForReview_eq_some hw
  have hdecided (c : ClaimRow) (hc : c ∈ claims) (hcactive : c.status = .active)
      (hct : c.tripleId = some t.tripleId) : c.claimId = d.reviewClaimId row := by
    rcases hclaims c hc with ⟨b, hb, rfl⟩ | ⟨hold, -⟩
    · exact hb
    · exact hnamed c hold hcactive hct
  refine h.activate t.tripleId ?_ ?_ ?_ ?_
  · intro c hc hcactive
    rcases hclaims c hc with ⟨b, -, rfl⟩ | ⟨hold, hne⟩
    · exact .inl (by simp [Derived.decidedClaim, hid])
    · exact .inr ⟨hold, fun hct => hne (hnamed c hold hcactive hct)⟩
  · intro c hc c' hc' hcactive hcactive' hct hct'
    exact Derived.claim_eq hc hc'
      (.inl ((hdecided c hc hcactive hct).trans (hdecided c' hc' hcactive' hct').symm))
  · refine ⟨Derived.promoted active row t, Derived.mem_promoteTriple.2 ⟨t, ht, if_pos hactive.symm⟩,
      rfl, rfl⟩
  · exact fun r hr hne => Derived.mem_promoteTriple.2 ⟨r, hr, if_neg (hactive ▸ hne)⟩

theorem insertRewrittenMemoryQualityFact (h : ClaimsBacked d) {newId : String} {row : ReviewRow}
    {r : ReviewRewrite}
    (hw : d.insertRewrittenMemoryQualityFact s nowMs newId row r = .ok d') : ClaimsBacked d' := by
  obtain ⟨active, -, hw⟩ := Result.bind_eq_ok.1 hw
  split at hw
  · cases hw
  · exact (h.insertActiveTriple (orStorage_eq_ok.1 hw)).1

theorem handleMemoryQualityReviewUpdate (h : ClaimsBacked d) {newId : Nat → String}
    {u : ReviewUpdate} {row : ReviewRow}
    (hk : ReviewKeepsClaims d u)
    (hw : d.handleMemoryQualityReviewUpdate s nowMs newId u = .ok (d', row)) : ClaimsBacked d' := by
  obtain ⟨row, hrow, ⟨-, rfl⟩ | ⟨hopen, -, d₁, h₁, hw⟩⟩ :=
    Derived.handleMemoryQualityReviewUpdate_cases hw
  · exact h.congr rfl rfl
  by_cases hu : u.status = .approved
  · obtain ⟨t, ht, hid, hnamed⟩ := hk hu row hrow hopen
    exact h.approve hu ht hid hnamed h₁ hw
  have hd₁ : ClaimsBacked d₁ := by
    unfold Derived.applyReviewDecision at h₁
    split at h₁
    · next happroved => exact absurd happroved hu
    · split at h₁
      · cases h₁
      · exact Result.foldlM_invariant ClaimsBacked
          (fun r _ d₂ d₃ h₂ hr => h₂.insertRewrittenMemoryQualityFact hr) h h₁
    · exact Except.ok.inj h₁ ▸ h
    · exact Except.ok.inj h₁ ▸ h
  refine updateMemoryClaimForReview ?_ hu hw
  exact hd₁.congr rfl rfl

/-! ### Repairing, renaming and consolidating -/

theorem deleteTriplesOfAll (h : ClaimsBacked d) {f : Derived → ClusterId → Derived}
    (hf : ∀ d c, (f d c).triples = (d.deleteTriplesOf c).triples ∧
      (f d c).memoryClaims = d.memoryClaims)
    {cs : List ClusterId} (hcs : ∀ c ∈ cs, ¬ d.ClusterClaimed c) : ClaimsBacked (cs.foldl f d) ∧
    Shrinks d (cs.foldl f d) := by
  refine List.foldlRecOn (motive := fun d' => ClaimsBacked d' ∧ Shrinks d d') cs f ⟨h, .refl d⟩ ?_
  intro d₁ ⟨h₁, hs₁⟩ c hc
  obtain ⟨htriples, hclaims⟩ := hf d₁ c
  have hstep := h₁.deleteTriplesOf fun hclaimed => hcs c hc (hs₁.clusterClaimed hclaimed)
  refine ⟨hstep.congr htriples hclaims, hs₁.trans ⟨fun m hm _ => hclaims ▸ hm, fun t ht => ?_⟩⟩
  exact (Shrinks.deleteTriples d₁ _).triples t (htriples ▸ ht)

/-- A quarantined fact may have the active claim that the quarantine takes back, and no other. -/
theorem quarantineTriple (h : ClaimsBacked d) {q : TripleRow × TripleQualityReviewReason}
    (hq : ∀ c ∈ d.memoryClaims, c.status = .active → c.tripleId = some q.1.tripleId →
      c.candidateFingerprint = Derived.activeQualityReviewFingerprint q.1.tripleId q.2.reasonCode)
    (hw : d.quarantineTriple s nowMs q = .ok d') : ClaimsBacked d' ∧ Shrinks d d' := by
  obtain ⟨d₁, h₁, hw⟩ := Result.bind_eq_ok.1 hw
  obtain ⟨d₂, h₂, hw⟩ := Result.bind_eq_ok.1 hw
  obtain ⟨reviews, -, rfl⟩ := Derived.upsertReview_eq_some (orStorage_eq_ok.1 h₁)
  obtain ⟨claims, hups, rfl⟩ := Derived.upsertClaim_eq_some (orStorage_eq_ok.1 h₂)
  rw [Result.pure_eq_ok] at hw
  subst hw
  have hold (c : ClaimRow) (hc : c ∈ claims) (hactive : c.status = .active) :
      c ∈ d.memoryClaims ∧ c.candidateFingerprint ≠
        Derived.activeQualityReviewFingerprint q.1.tripleId q.2.reasonCode := by
    rcases Table.mem_of_mem_upsert hups hc with rfl | ⟨b, -, -, rfl⟩ | ⟨hc, hne⟩
    · exact absurd hactive (claimStatusForReviewReason_ne_active _)
    · exact absurd hactive (claimStatusForReviewReason_ne_active _)
    · exact ⟨hc, of_decide_eq_false hne⟩
  have hs :
      Shrinks d (Derived.supersedeTriple { d with tripleReviews := reviews, memoryClaims := claims }
        q.1.tripleId) := by
    refine ⟨fun c hc hactive => (hold c hc hactive).1, fun t ht => ?_⟩
    rw [Derived.supersedeTriple, Table.mem_updateWhere] at ht
    obtain ⟨r, hr, rfl⟩ := ht
    exact ⟨r, hr, by split <;> rfl, by split <;> rfl⟩
  refine ⟨h.shrink hs fun t ht hactive hclaimed => ?_, hs⟩
  obtain ⟨c, hc, hcactive, hct⟩ := hclaimed
  obtain ⟨hc, hne⟩ := hold c hc hcactive
  have hid : t.tripleId ≠ q.1.tripleId := fun heq => hne (hq c hc hcactive (heq ▸ hct))
  exact ⟨t, by rw [Derived.supersedeTriple, Table.mem_updateWhere]; exact ⟨t, ht, by simp [hid]⟩, rfl, hactive⟩

/-- An update of triples that keeps ids, clusters and statuses. -/
theorem rewrite (h : ClaimsBacked d) {f : TripleRow → TripleRow}
    (ht : ∀ r, r ∈ d'.triples ↔ ∃ r₀ ∈ d.triples, f r₀ = r) (hc : d'.memoryClaims = d.memoryClaims)
    (hf : ∀ r, (f r).tripleId = r.tripleId ∧ (f r).clusterId = r.clusterId ∧
      (f r).status = r.status) :
    ClaimsBacked d' ∧ Shrinks d d' := by
  have hs : Shrinks d d' := by
    refine ⟨fun c hcmem _ => hc ▸ hcmem, fun t htmem => ?_⟩
    obtain ⟨r, hr, rfl⟩ := (ht t).1 htmem
    exact ⟨r, hr, (hf r).1.symm, (hf r).2.1.symm⟩
  refine ⟨h.shrink hs fun t htmem hactive _ => ⟨f t, (ht _).2 ⟨t, htmem, rfl⟩, (hf t).1, ?_⟩, hs⟩
  rw [(hf t).2.2, hactive]

theorem rewriteToLiteral (h : ClaimsBacked d) (t : TripleRow) :
    ClaimsBacked (d.rewriteToLiteral t) ∧ Shrinks d (d.rewriteToLiteral t) := by
  refine h.rewrite (fun r => by rw [Derived.rewriteToLiteral, Table.mem_updateWhere]) rfl fun r =>
    ?_
  split <;> exact ⟨rfl, rfl, rfl⟩

theorem runQualityRepair (h : ClaimsBacked d)
    {work : List (TripleRow × TripleQualityReviewReason) × List TripleRow}
    (hwork : ∀ q ∈ work.1, ∀ c ∈ d.memoryClaims, c.status = .active →
      c.tripleId = some q.1.tripleId →
      c.candidateFingerprint = Derived.activeQualityReviewFingerprint q.1.tripleId q.2.reasonCode)
    (hw : d.runQualityRepair s nowMs work = .ok d') : ClaimsBacked d' := by
  have hrewrites := List.foldlRecOn (motive := fun d' => ClaimsBacked d' ∧ Shrinks d d') work.2
    Derived.rewriteToLiteral ⟨h, .refl d⟩ fun d₁ h₁ t _ =>
      ⟨(h₁.1.rewriteToLiteral t).1, h₁.2.trans (h₁.1.rewriteToLiteral t).2⟩
  refine And.left
    (Result.foldlM_invariant (fun d' => ClaimsBacked d' ∧ Shrinks d d') ?_ hrewrites hw)
  intro q hq d₁ d₂ ⟨h₁, hs₁⟩ hstep
  obtain ⟨h₂, hs₂⟩ := h₁.quarantineTriple (fun c hc hactive hct =>
    hwork q hq c (hs₁.claims c hc hactive) hactive hct) hstep
  exact ⟨h₂, hs₁.trans hs₂⟩

theorem handleRepairDerived (h : ClaimsBacked d) {scope : RepairScope} {report : RepairReport}
    (hk : scope.dryRun = false → RepairKeepsClaims d scope)
    (hw : d.handleRepairDerived s nowMs scope = .ok (d', report)) : ClaimsBacked d' := by
  unfold Derived.handleRepairDerived at hw
  unfold RepairKeepsClaims at hk
  split at hw
  · cases hw
  split at hw
  · next hmode =>
    rw [hmode] at hk
    simp only [Derived.repairStaleAbstractions] at hw
    split at hw
    · cases hw
      exact h
    · next hdry =>
      cases hw
      refine (h.deleteTriplesOfAll (f := Derived.repairStaleCluster) (fun d c => ⟨rfl, rfl⟩)
        fun c hc => ?_).1
      obtain ⟨k, hk', rfl⟩ := List.mem_map.1 hc
      exact hk (Bool.eq_false_iff.2 hdry) k hk'
  · next hmode =>
    rw [hmode] at hk
    simp only [Derived.repairActiveTripleQuality] at hw
    split at hw
    · cases hw
      exact h
    · next hdry =>
      obtain ⟨d₁, h₁, hw⟩ := Result.bind_eq_ok.1 hw
      rw [Result.pure_eq_ok, Prod.mk.injEq] at hw
      exact hw.1 ▸ h.runQualityRepair (hk (Bool.eq_false_iff.2 hdry)) h₁
  · next hmode =>
    rw [hmode] at hk
    simp only [Derived.rebuildAllDerived] at hw
    cases hw
    split
    · exact h
    · next hdry =>
      have hnone := hk (Bool.eq_false_iff.2 hdry)
      exact ⟨fun c hc hactive => absurd hactive (hnone c hc), fun c hc _ _ hactive =>
        absurd hactive (hnone c hc)⟩

theorem handleNormalizeSubjects (h : ClaimsBacked d) (aliases : List (String × String))
    (dryRun : Bool) : ClaimsBacked (d.handleNormalizeSubjects aliases dryRun).1 := by
  show ClaimsBacked (if dryRun = true then d else (aliases.foldl Derived.normalizeStep (d, 0, 0)).1)
  split
  · exact h
  · refine List.foldlRecOn (motive := fun st => ClaimsBacked st.1) aliases Derived.normalizeStep
      (b := (d, 0, 0)) h ?_
    intro st hst pair _
    exact (hst.rewrite (fun r => Derived.mem_triples_normalizeAlias) rfl fun r => ⟨rfl, rfl, rfl⟩).1

theorem deleteCluster (h : ClaimsBacked d) {c : ClusterId} (hc : ¬ d.ClusterClaimed c) :
    ClaimsBacked (d.deleteClusters (·.clusterId = c)) ∧
    Shrinks d (d.deleteClusters (·.clusterId = c)) := by
  set p : TripleRow → Bool := fun t =>
    t.clusterId.any fun k => d.clusters.rows.any fun r => decide (r.clusterId = c) &&
      decide (r.clusterId = k) with hp
  have hdel : ClaimsBacked (d.deleteTriples p) := by
    refine h.deleteTriples fun t ht hpt hclaimed => hc ⟨t, ht, ?_, hclaimed⟩
    simp only [hp, Option.any_eq_true, List.any_eq_true, Bool.and_eq_true, decide_eq_true_eq] at hpt
    obtain ⟨k, hk, r, -, hrc, hrk⟩ := hpt
    rw [hk, ← hrk, hrc]
  exact ⟨hdel.congr rfl rfl, fun _ hm _ => hm, (Shrinks.deleteTriples d p).triples⟩

theorem persistPlan (h : ClaimsBacked d) {plan : Derived.ConsolidationPlan}
    (hplan : ∀ a ∈ plan.absorptions, ¬ d.ClusterClaimed a.existingClusterId)
    (hw : d.persistPlan s nowMs plan = .ok d') : ClaimsBacked d' ∧ Shrinks d d' := by
  obtain ⟨d₁, h₁, hw⟩ := Result.bind_eq_ok.1 hw
  obtain ⟨hd₁, hs₁⟩ : ClaimsBacked d₁ ∧ Shrinks d d₁ := by
    refine Result.foldlM_invariant (fun d' => ClaimsBacked d' ∧ Shrinks d d')
      (fun c _ d₂ d₃ h₂ hc => ?_) ⟨h, .refl d⟩ h₁
    obtain ⟨clusters, members, rfl⟩ := Derived.persistCluster_eq_ok hc
    exact ⟨h₂.1.congr rfl rfl, h₂.2.claims, h₂.2.triples⟩
  rw [Result.pure_eq_ok] at hw
  refine hw ▸ List.foldlRecOn (motive := fun d' => ClaimsBacked d' ∧ Shrinks d d')
    _ Derived.refreshAbsorbed ⟨hd₁, hs₁⟩ fun d₂ ⟨h₂, hs₂⟩ a ha => ?_
  have hmem : a ∈ plan.absorptions := by
    simp only [Derived.lastPerExisting, List.mem_filterMap] at ha
    obtain ⟨k, -, hfind⟩ := ha
    exact List.mem_reverse.1 (List.mem_of_find?_eq_some hfind)
  refine ⟨deleteTriplesOf ?_ fun hclaimed => hplan a hmem (hs₂.clusterClaimed hclaimed),
    hs₂.trans ⟨fun m hm _ => hm, ?_⟩⟩
  · exact h₂.congr rfl rfl
  · exact fun t ht => ⟨t, (Table.mem_deleteWhere.1 ht).1, rfl, rfl⟩

theorem applyMerges (h : ClaimsBacked d) {merges : List MergeOp}
    (hmerges : ∀ op ∈ merges, ∀ loser ∈ op.loserIds, ¬ d.ClusterClaimed loser)
    (hw : d.applyMerges merges = .ok d') : ClaimsBacked d' := by
  refine And.left
    (Result.foldlM_invariant_option (fun d' => ClaimsBacked d' ∧ Shrinks d d') ?_ ⟨h, .refl d⟩
    (orStorage_eq_ok.1 hw))
  intro op hop d₁ d₂ ⟨h₁, hs₁⟩ hstep
  obtain ⟨d₃, h₃, hstep⟩ := Option.bind_eq_some_iff.1 hstep
  have hd₃ : ClaimsBacked d₃ ∧ Shrinks d d₃ := by
    refine Result.foldlM_invariant_option (fun d' => ClaimsBacked d' ∧ Shrinks d d')
      (fun loser _ d₄ d₅ h₄ hmove => ?_) ⟨h₁, hs₁⟩ h₃
    obtain ⟨members, -, rfl⟩ := Derived.moveMembers_eq_some hmove
    exact ⟨h₄.1.congr rfl rfl, h₄.2.claims, h₄.2.triples⟩
  refine Option.some.inj hstep ▸ List.foldlRecOn (motive :=
    fun d' => ClaimsBacked d' ∧ Shrinks d d') op.loserIds _
    ⟨hd₃.1.congr rfl rfl, hd₃.2.claims, hd₃.2.triples⟩ fun d₄ ⟨h₄, hs₄⟩ loser hloser => ?_
  obtain ⟨h₅, hs₅⟩ :=
    h₄.deleteCluster fun hclaimed => hmerges op hop loser hloser (hs₄.clusterClaimed hclaimed)
  exact ⟨h₅, hs₄.trans hs₅⟩

/-! ### Runs -/

/-- One command that meets the condition. -/
theorem step (h : ClaimsBacked d) {e : DerivedEvent} (hk : KeepsClaims s d e) :
    ClaimsBacked (d.step s e) := by
  have hcommitted {α : Type} {r : Except Error (Derived × α)}
      (hr : ∀ d' a, r = .ok (d', a) → ClaimsBacked d') : ClaimsBacked (d.committed r) := by
    cases r with
    | error e => exact h
    | ok p => exact hr p.1 p.2 rfl
  obtain ⟨nowMs, newId, command⟩ := e
  cases command with
  | attachAbstractionBatch deferred items =>
    refine hcommitted fun d' report hw => ?_
    unfold Derived.handleAttachAbstractionBatch at hw
    split at hw
    · cases hw
    · have hfold :
          ClaimsBacked
          ((items.map Prod.snd).foldl (Derived.attachCluster s nowMs)
            (d, ⟨0, 0, 0, 0, deferred⟩)).1 :=
        h.attachClusters hk
      rwa [Except.ok.inj hw] at hfold
  | updateMemoryQualityReview u =>
    exact hcommitted fun d' row hw => h.handleMemoryQualityReviewUpdate hk hw
  | repairDerived scope => exact hcommitted fun d' report hw => h.handleRepairDerived hk hw
  | normalizeSubjects aliases dryRun => exact h.handleNormalizeSubjects aliases dryRun
  | consolidate env hash scope =>
    show ClaimsBacked (Derived.handleConsolidate env s nowMs hash newId d scope).1
    rcases Derived.handleConsolidate_cases env s nowMs hash newId d scope with
      heq | ⟨embedderId, plan, d₁, henv, hplan, h₁, hd'⟩
    · rwa [heq]
    obtain ⟨habsorbed, hmerged⟩ := hk embedderId plan henv hplan
    obtain ⟨hd₁, hs₁⟩ := h.persistPlan habsorbed h₁
    rcases hd' with heq | ⟨merges, hmerges, h₂⟩
    · rwa [heq]
    · exact hd₁.applyMerges (fun op hop loser hloser hclaimed =>
        hmerged d₁ merges h₁ hmerges op hop loser hloser (hs₁.clusterClaimed hclaimed)) h₂

/-- Migration `0018` claims each active triple once, if no review was approved before. -/
theorem migrated (s : Store) {legacy : Derived}
    (h : ∀ r ∈ legacy.tripleReviews, r.status ≠ .approved) : ClaimsBacked (legacy.migrated s) := by
  obtain ⟨_, _, _, heq⟩ := Derived.migrated_eq s legacy
  rw [heq]
  have hclaim {c : ClaimRow} (hc : c ∈ (legacy.activeTriples.map Derived.legacyTripleClaim ++
      legacy.tripleReviews.rows.map Derived.migratedReviewClaim).foldl Table.insertOrIgnore .empty)
      (hactive : c.status = .active) :
      ∃ t ∈ legacy.activeTriples, c = Derived.legacyTripleClaim t := by
    rcases Table.mem_foldl_insertOrIgnore hc with hc | hc
    · exact absurd hc Table.not_mem_empty
    rcases List.mem_append.1 hc with hc | hc
    · obtain ⟨t, ht, rfl⟩ := List.mem_map.1 hc
      exact ⟨t, ht, rfl⟩
    · obtain ⟨r, hr, rfl⟩ := List.mem_map.1 hc
      simp only [Derived.migratedReviewClaim, Derived.migratedClaimStatus] at hactive
      split at hactive
      · next happroved => exact absurd happroved (h r hr)
      · cases hactive
      · cases hactive
      · exact absurd hactive (claimStatusForReviewReason_ne_active _)
  have hmem {t : TripleRow} (ht : t ∈ legacy.activeTriples) : t ∈ legacy.triples ∧
      t.status = .active := by
    simpa [Derived.activeTriples] using ht
  constructor
  case backed =>
    intro c hc hactive
    obtain ⟨t, ht, rfl⟩ := hclaim hc hactive
    exact ⟨t, (hmem ht).1, rfl, (hmem ht).2⟩
  case one =>
    intro c hc c' hc' hactive hactive' hid
    obtain ⟨t, ht, rfl⟩ := hclaim hc hactive
    obtain ⟨t', ht', rfl⟩ := hclaim hc' hactive'
    rw [Derived.triple_eq (hmem ht).1 (hmem ht').1 (Option.some.inj hid)]

end ClaimsBacked

/-- Along a run of commands that leave claimed facts alone, every active claim stays backed. -/
theorem claimsBacked_always (s : Store) (legacy : Derived) (es : List DerivedEvent)
    (hlegacy : ∀ r ∈ legacy.tripleReviews, r.status ≠ .approved)
    (hes : Run.Guarded (Derived.step s) (KeepsClaims s) (legacy.migrated s) es) :
    Run.Always (Derived.step s) ClaimsBacked (legacy.migrated s) es :=
  Run.Guarded.always ClaimsBacked (fun _ _ h hk => h.step hk) (fun _ h => h)
    hes (.migrated s hlegacy)

/-! ### A cluster abstracted once, and again -/

namespace ReabstractedCluster

def cluster : ClusterRow := ⟨"k", none, 1, 0⟩

def legacy : Derived := { Derived.empty with clusters := Table.empty.insertOrIgnore cluster }

def provenance : Provenance := ⟨[], "llm", "steward", 0⟩

def fact (id : TripleId) : Triple :=
  ⟨id, "Ada Lovelace", "works_at", "Analytical Engines", .entity, 0, none, 0.95, provenance⟩

def attach (abstractionId : String) (facts : List Triple) : DerivedEvent :=
  ⟨1, fun _ => "",
    .attachAbstractionBatch 0 [("k", ⟨abstractionId, "k", "", facts, provenance, 0.9⟩)]⟩

/-- The clean-up that follows finds nothing to drop. -/
def cleanUp : DerivedEvent := ⟨2, fun _ => "", .repairDerived {}⟩

end ReabstractedCluster

open ReabstractedCluster in
theorem claimsBacked_always_abstracted :
    Run.Always (Derived.step .empty) ClaimsBacked (legacy.migrated .empty)
    [attach "a1" [fact "t1"], cleanUp] := by
  have hstale :
      (((legacy.migrated .empty).step .empty (attach "a1" [fact "t1"])).staleCandidates {}) =
      [] := by
    decide +kernel
  refine claimsBacked_always .empty legacy _ (fun r hr => absurd hr Table.not_mem_empty)
    ⟨⟨fun a _ => ⟨?_, ?_⟩, ?_⟩, ?_, trivial⟩
  · rintro ⟨t, ht, -⟩
    exact absurd ht List.not_mem_nil
  · rintro ⟨-, -, -, -, m, hm, -⟩
    exact absurd hm List.not_mem_nil
  · exact List.pairwise_singleton _ _
  · intro _ k hk
    rw [hstale] at hk
    exact absurd hk List.not_mem_nil

open ReabstractedCluster in
/-- Attaching a cluster again deletes the fact and leaves its claim active. -/
theorem reabstracted_not_claimsBacked :
    ¬ ∀ (s : Store) (legacy : Derived) (es : List DerivedEvent),
      Run.Always (Derived.step s) ClaimsBacked (legacy.migrated s) es := by
  intro h
  set d := Run.run (Derived.step .empty) (legacy.migrated .empty)
    [attach "a1" [fact "t1"], attach "a2" [fact "t2"]] with hd
  have hlast : ClaimsBacked d :=
    (h .empty legacy [attach "a1" [fact "t1"], attach "a2" [fact "t2"]]).last
  obtain ⟨c, hc, hactive, hid⟩ : ∃ c ∈ d.memoryClaims.rows, c.status = .active ∧
      c.tripleId = some "t1" := by
    rw [hd]
    decide +kernel
  obtain ⟨t, ht, hct, -⟩ := hlast.backed c hc hactive
  have hgone : ∀ t ∈ d.triples.rows, t.tripleId ≠ "t1" := by
    rw [hd]
    decide +kernel
  exact hgone t ht (Option.some.inj (hct.symm.trans hid))

end Solo
