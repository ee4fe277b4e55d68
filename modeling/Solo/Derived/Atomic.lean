import Solo.Derived.Replaced

/-!
# A batch of abstractions is atomic per cluster

A cluster that is booked as failed leaves every table as it was; one that goes through has its rows
replaced by those of the new abstraction, and the counts are those of the rows. That is so exactly
where the clusters that go through own what they write (`Owned`): claims are never deleted, and
claims and reviews are found by a fingerprint that others can have.
-/

namespace Solo

namespace Derived

/-! ### What becomes of the clusters of a batch -/

/-- What became of the clusters of a batch, the last one first: those that went through and those
that are booked as failed. `left` are the failed ones whose rows were left in the tables. -/
structure Booking where
  built : List SemanticAbstraction
  failed : List SemanticAbstraction
  left : List SemanticAbstraction
  tables : Derived

namespace Booking

def fail (k : Booking) (a : SemanticAbstraction) : Booking := { k with failed := a :: k.failed }

def build (k : Booking) (a : SemanticAbstraction) (d : Derived) : Booking :=
  { k with built := a :: k.built, tables := d }

def leave (k : Booking) (a : SemanticAbstraction) (d : Derived) : Booking :=
  { k with failed := a :: k.failed, left := a :: k.left, tables := d }

end Booking

/-- A cluster goes through if no fault stops it and the tables take its rows. A rollback that fails
ends the batch, or leaves the rows of a cluster whose `RELEASE` failed. -/
def book (s : Store) (nowMs : Int) (k : Booking) (e : ClusterFault × SemanticAbstraction) :
    Option Booking :=
  if e.1.skip then some (k.fail e.2)
  else if e.1.statement then if e.1.rollback then none else some (k.fail e.2)
  else
    match k.tables.attachAbstraction s nowMs e.2 with
    | none => if e.1.rollback then none else some (k.fail e.2)
    | some d =>
      if e.1.release then some (if e.1.rollback then k.leave e.2 d else k.fail e.2)
        else some (k.build e.2 d)

/-- The clusters of a batch from the tables before it; none where a failed rollback ends the
batch. -/
def booking (s : Store) (nowMs : Int) (clusterFault : Nat → ClusterFault) (c : AttachBatch)
    (d : Derived) : Option Booking :=
  ((c.items.map Prod.snd).mapIdx fun i a => (clusterFault i, a)).foldlM (book s nowMs)
    ⟨[], [], [], d⟩

/-- The clusters that go through have the reviews that they ask for: no two clusters propose one
fingerprint and no cluster asks for one review twice, and a review that is there is of a cluster
that goes through before, or of the same one, whose reviews are deleted. `built` has the last
cluster first. -/
structure OwnsReviews (s : Store) (d : Derived) (built : List SemanticAbstraction) : Prop where
  apart : built.Pairwise fun a b => ∀ fp ∈ a.proposed s, fp ∉ b.proposed s
  reviews : ∀ later a before, built = later ++ a :: before → ∀ r ∈ d.tripleReviews,
    r.candidateFingerprint ∈ a.underReview s → ∃ b ∈ a :: before, r.clusterId = some b.clusterId
  distinct : ∀ a ∈ built, (a.underReview s).Nodup

/-- The clusters that go through own what they write: their reviews; every claim that one of them
has is proposed again by one of them; and they propose no claim of a cluster that fails. And no
cluster that fails leaves its rows. -/
structure Owned (s : Store) (d : Derived) (k : Booking) : Prop extends OwnsReviews s d k.built where
  left : k.left = []
  claims : ∀ a ∈ k.built, ∀ m ∈ d.memoryClaims, m.clusterId = some a.clusterId →
    ∃ b ∈ k.built, m.candidateFingerprint ∈ b.proposed s
  failedClaims : ∀ a ∈ k.failed, ∀ m ∈ d.memoryClaims, m.clusterId = some a.clusterId →
    ∀ b ∈ k.built, m.candidateFingerprint ∉ b.proposed s

/-! ### The rows of the clusters written -/

/-- The tables after some clusters were written, the last one first. -/
structure Written (s : Store) (nowMs : Int) (d₀ : Derived) (ws : List SemanticAbstraction)
    (d : Derived) : Prop where
  mirror : Mirror d
  distinct : ws.Pairwise (·.clusterId ≠ ·.clusterId)
  rewritten : ∀ a ∈ ws, Rewritten s nowMs a (d.rowsOf a.clusterId)
  kept : ∀ c, (∀ a ∈ ws, a.clusterId ≠ c) → SameFacts (d.rowsOf c) (d₀.rowsOf c)
  freeClaims : ∀ P : String → Bool, (∀ a ∈ ws, ∀ fp ∈ a.proposed s, P fp = false) →
    d.memoryClaims.rows.filter (fun m => P m.candidateFingerprint) =
      d₀.memoryClaims.rows.filter fun m => P m.candidateFingerprint
  claimed : ∀ a ∈ ws, ∀ fp ∈ a.proposed s, ∃ m ∈ d.memoryClaims, m.candidateFingerprint = fp
  held : ∀ later a before, ws = later ++ a :: before →
    ∀ m ∈ d.memoryClaims, m.candidateFingerprint ∈ a.proposed s →
    (∀ b ∈ later, m.candidateFingerprint ∉ b.proposed s) → m.clusterId = some a.clusterId ∧
      ∃ t ∈ a.triples, m.candidateFingerprint = claimFingerprint s a.clusterId t ∧
      m.tripleId = some t.tripleId
  keptReviews : ∀ r ∈ d₀.tripleReviews, (∀ a ∈ ws, r.clusterId ≠ some a.clusterId) →
    ∃ r' ∈ d.tripleReviews,
    r'.candidateFingerprint = r.candidateFingerprint ∧ r'.clusterId = r.clusterId
  lost : ∀ later a before, ws = later ++ a :: before → ∀ x ∈ d₀.tripleReviews,
    x.candidateFingerprint ∈ a.underReview s → (∀ b ∈ a :: before, x.clusterId ≠ some b.clusterId) →
    ∀ r ∈ d.tripleReviews, r.candidateFingerprint = x.candidateFingerprint →
    r.clusterId ≠ some a.clusterId
  reviews : OwnsReviews s d₀ ws →
    (∀ a ∈ ws, (d.rowsOf a.clusterId).reviews = (candidates s a.clusterId a.triples).map
      (·.row nowMs)) ∧
    (∀ c, (∀ a ∈ ws, a.clusterId ≠ c) → (d.rowsOf c).reviews = (d₀.rowsOf c).reviews) ∧
    ∀ r ∈ d.tripleReviews, (r ∈ d₀.tripleReviews ∧ ∀ a ∈ ws, r.clusterId ≠ some a.clusterId) ∨
      ∃ a ∈ ws, r.candidateFingerprint ∈ a.underReview s

/-- A list that ends as another one does, from a split of the longer one. -/
theorem cons_split {α : Type} {a b : α} {l later before : List α}
    (h : a :: l = later ++ b :: before) :
    (later = [] ∧ b = a ∧ before = l) ∨ ∃ later', later = a :: later' ∧ l = later' ++
    b :: before := by
  cases later with
  | nil =>
    obtain ⟨rfl, rfl⟩ := List.cons.inj h
    exact .inl ⟨rfl, rfl, rfl⟩
  | cons x later =>
    rw [List.cons_append] at h
    obtain ⟨rfl, hl⟩ := List.cons.inj h
    exact .inr ⟨later, rfl, hl⟩

theorem OwnsReviews.of_cons {s : Store} {d : Derived} {a : SemanticAbstraction}
    {ws : List SemanticAbstraction} (h : OwnsReviews s d (a :: ws)) : OwnsReviews s d ws where
  apart := (List.pairwise_cons.1 h.apart).2
  reviews later b before heq := h.reviews (a :: later) b before (by rw [heq]; rfl)
  distinct b hb := h.distinct b (List.mem_cons_of_mem a hb)

theorem eq_of_fingerprint {d : Derived} {r r' : ReviewRow} (hr : r ∈ d.tripleReviews)
    (hr' : r' ∈ d.tripleReviews) (h : r.candidateFingerprint = r'.candidateFingerprint) : r = r' :=
  Table.eq_of_clash hr hr' (Bool.or_eq_true_iff.2 (.inr (decide_eq_true h)))

namespace Written

variable {s : Store} {nowMs : Int} {d₀ d d' : Derived} {ws : List SemanticAbstraction}
  {a : SemanticAbstraction}

theorem start (s : Store) (nowMs : Int) (hmirror : Mirror d) : Written s nowMs d [] d where
  mirror := hmirror
  distinct := .nil
  rewritten _ ha := absurd ha List.not_mem_nil
  kept _ _ := ⟨rfl, rfl, rfl⟩
  freeClaims _ _ := rfl
  claimed _ ha := absurd ha List.not_mem_nil
  held _ _ _ heq := absurd heq (by simp)
  keptReviews r hr _ := ⟨r, hr, rfl, rfl⟩
  lost _ _ _ heq := absurd heq (by simp)
  reviews _ := ⟨fun _ ha => absurd ha List.not_mem_nil, fun _ _ => rfl,
    fun r hr => .inl ⟨hr, fun _ ha => absurd ha List.not_mem_nil⟩⟩

/-- The reviews of the clusters after one more is written. -/
theorem attachReviews (h : Written s nowMs d₀ ws d) (hnew : ∀ b ∈ ws, a.clusterId ≠ b.clusterId)
    (hattached : Attached s nowMs a d d') (hown : OwnsReviews s d₀ (a :: ws)) :
    (∀ b ∈ a :: ws, (d'.rowsOf b.clusterId).reviews = (candidates s b.clusterId b.triples).map
      (·.row nowMs)) ∧
    (∀ c, (∀ b ∈ a :: ws, b.clusterId ≠ c) → (d'.rowsOf c).reviews = (d₀.rowsOf c).reviews) ∧
    ∀ r ∈ d'.tripleReviews, (r ∈ d₀.tripleReviews ∧ ∀ b ∈ a :: ws, r.clusterId ≠ some b.clusterId) ∨
      ∃ b ∈ a :: ws, r.candidateFingerprint ∈ b.underReview s := by
  obtain ⟨hbuilt, hkept, hold⟩ := h.reviews hown.of_cons
  have hrows := hattached.reviews (fun r hr hfp => ?_) (hown.distinct a List.mem_cons_self)
  case refine_1 =>
    rcases hold r hr with ⟨hr, hother⟩ | ⟨b, hb, hfp'⟩
    · obtain ⟨b, hb, hcl⟩ := hown.reviews [] a ws rfl r hr hfp
      rcases List.mem_cons.1 hb with rfl | hb
      · exact hcl
      · exact absurd hcl (hother b hb)
    · exact absurd (mem_proposed hfp')
        ((List.pairwise_cons.1 hown.apart).1 b hb _ (mem_proposed hfp))
  have hothers (c : ClusterId) (hc : a.clusterId ≠ c) :
      (d'.rowsOf c).reviews = (d.rowsOf c).reviews := by
    have hne : some a.clusterId ≠ some c := fun heq => hc (Option.some.inj heq)
    have hcandidates : ((candidates s a.clusterId a.triples).map (·.row nowMs)).filter
        (·.clusterId = some c) = [] := by
      rw [List.filter_eq_nil_iff, List.forall_mem_map]
      intro r hr
      rw [decide_eq_true_eq]
      exact fun heq => hne ((congrArg some (candidate_clusterId hr)).symm.trans heq)
    refine (congrArg (List.filter _) hrows).trans ?_
    rw [List.filter_append, hcandidates, List.append_nil, List.filter_filter]
    refine List.filter_congr fun r _ => ?_
    by_cases hcl : r.clusterId = some c
    · simp [hcl, hne.symm]
    · simp [hcl]
  refine ⟨fun b hb => ?_, fun c hc => ?_, fun r hr => ?_⟩
  · rcases List.mem_cons.1 hb with rfl | hb
    · refine (congrArg (List.filter _) hrows).trans ?_
      rw [List.filter_append, List.filter_filter,
        List.filter_eq_nil_iff.2 fun r _ hboth => by simp at hboth,
        List.nil_append, List.filter_eq_self, List.forall_mem_map]
      exact fun r hr => decide_eq_true (congrArg some (candidate_clusterId hr))
    · exact (hothers _ (hnew b hb)).trans (hbuilt b hb)
  · rw [List.forall_mem_cons] at hc
    exact (hothers c hc.1).trans (hkept c hc.2)
  · rw [← Table.mem_rows, hrows, List.mem_append] at hr
    rcases hr with hr | hr
    · obtain ⟨hr, hne⟩ := List.mem_filter.1 hr
      rw [Bool.not_eq_true', decide_eq_false_iff_not] at hne
      rcases hold r hr with ⟨hr, hother⟩ | ⟨b, hb, hfp⟩
      · exact .inl ⟨hr, List.forall_mem_cons.2 ⟨hne, hother⟩⟩
      · exact .inr ⟨b, List.mem_cons_of_mem a hb, hfp⟩
    · obtain ⟨r', hr', rfl⟩ := List.mem_map.1 hr
      exact .inr ⟨a, List.mem_cons_self, List.mem_map_of_mem hr'⟩

/-- One more cluster is written. -/
theorem attach (h : Written s nowMs d₀ ws d) (hnew : ∀ b ∈ ws, a.clusterId ≠ b.clusterId)
    (hattach : d.attachAbstraction s nowMs a = some d') : Written s nowMs d₀ (a :: ws) d' := by
  have hattached := attachAbstraction_attached h.mirror hattach
  refine ⟨h.mirror.attachAbstraction hattach, List.pairwise_cons.2 ⟨hnew, h.distinct⟩,
    fun b hb => ?_, fun c hc => ?_,
    fun P hP => ?_, fun b hb fp hfp => ?_, fun later b before heq m hm hfp hlater => ?_,
    fun r hr hother => ?_,
    fun later b before heq x hx hfp hother r hr hsame => ?_, h.attachReviews hnew hattached⟩
  · rcases List.mem_cons.1 hb with rfl | hb
    · exact hattached.rewritten
    · exact (h.rewritten b hb).of_sameFacts (hattached.others _ (hnew b hb).symm)
  · rw [List.forall_mem_cons] at hc
    exact (hattached.others c hc.1.symm).trans (h.kept c hc.2)
  · rw [List.forall_mem_cons] at hP
    exact (hattached.freeClaims P hP.1).trans (h.freeClaims P hP.2)
  · by_cases hmine : fp ∈ a.proposed s
    · exact hattached.claimed fp hmine
    · obtain ⟨m, hm, hmfp⟩ :=
        h.claimed b ((List.mem_cons.1 hb).resolve_left fun heq => hmine (heq ▸ hfp)) fp hfp
      exact ⟨m, (mem_claims_iff hattached.freeClaims (hmfp ▸ hmine)).2 hm, hmfp⟩
  · rcases cons_split heq with ⟨rfl, rfl, rfl⟩ | ⟨later', rfl, hws⟩
    · exact hattached.written m hm hfp
    · rw [List.forall_mem_cons] at hlater
      exact h.held later' b before hws m ((mem_claims_iff hattached.freeClaims hlater.1).1 hm)
        hfp hlater.2
  · rw [List.forall_mem_cons] at hother
    obtain ⟨r₁, hr₁, hfp₁, hcl₁⟩ := h.keptReviews r hr hother.2
    obtain ⟨r₂, hr₂, hfp₂, hcl₂⟩ := hattached.keptReviews r₁ hr₁ (hcl₁ ▸ hother.1)
    exact ⟨r₂, hr₂, hfp₂.trans hfp₁, hcl₂.trans hcl₁⟩
  · rcases cons_split heq with ⟨rfl, rfl, rfl⟩ | ⟨later', rfl, hws⟩
    · -- the review is still there, and an upsert keeps its cluster
      rw [List.forall_mem_cons] at hother
      obtain ⟨x₁, hx₁, hfp₁, hcl₁⟩ := h.keptReviews x hx hother.2
      obtain ⟨x₂, hx₂, hfp₂, hcl₂⟩ := hattached.keptReviews x₁ hx₁ (hcl₁ ▸ hother.1)
      rw [eq_of_fingerprint hr hx₂ (hsame.trans (hfp₂.trans hfp₁).symm), hcl₂, hcl₁]
      exact hother.1
    · intro hcl
      have hb : b ∈ ws := hws ▸ List.mem_append_right _ List.mem_cons_self
      have hne : r.clusterId ≠ some a.clusterId :=
        fun hra => hnew b hb (Option.some.inj (hra.symm.trans hcl))
      obtain ⟨r', hr', hfp', hcl'⟩ := hattached.oldReviews r hr hne
      exact h.lost later' b before hws x hx hfp hother r' hr' (hfp'.trans hsame) (hcl'.trans hcl)

/-- The claim of a fingerprint that was written is of the last cluster that proposes it. -/
theorem holder (h : Written s nowMs d₀ ws d) {fp : String} (hfp : ∃ a ∈ ws, fp ∈ a.proposed s) :
    ∃ a ∈ ws, fp ∈ a.proposed s ∧ ∀ m ∈ d.memoryClaims, m.candidateFingerprint = fp →
      m.clusterId = some a.clusterId ∧
        ∃ t ∈ a.triples, m.candidateFingerprint = claimFingerprint s a.clusterId t ∧
        m.tripleId = some t.tripleId := by
  obtain ⟨a, hfind⟩ : ∃ a, ws.find? (fun a => decide (fp ∈ a.proposed s)) = some a := by
    rw [← Option.isSome_iff_exists, List.find?_isSome]
    exact hfp.imp fun a ha => ⟨ha.1, decide_eq_true ha.2⟩
  obtain ⟨hp, later, before, heq, hlater⟩ := List.find?_eq_some_iff_append.1 hfind
  have hp : fp ∈ a.proposed s := of_decide_eq_true hp
  refine ⟨a, heq ▸ List.mem_append_right _ List.mem_cons_self, hp, fun m hm hmfp => ?_⟩
  refine h.held later a before heq m hm (hmfp ▸ hp) fun b hb hmem => ?_
  have hnot := hlater b hb
  rw [Bool.not_eq_true', decide_eq_false_iff_not] at hnot
  exact hnot (hmfp ▸ hmem)

theorem mem_claims_iff (h : Written s nowMs d₀ ws d) {m : ClaimRow}
    (hm : ∀ a ∈ ws, m.candidateFingerprint ∉ a.proposed s) : m ∈ d.memoryClaims ↔
    m ∈ d₀.memoryClaims :=
  Derived.mem_claims_iff (S := fun fp => ∃ a ∈ ws, fp ∈ a.proposed s)
    (fun P hP => h.freeClaims P fun a ha fp hfp => hP fp ⟨a, ha, hfp⟩) fun ⟨a, ha, hfp⟩ =>
    hm a ha hfp

theorem eq_of_clusterId (h : Written s nowMs d₀ ws d) {a b : SemanticAbstraction} (ha : a ∈ ws)
    (hb : b ∈ ws) (hcl : a.clusterId = b.clusterId) : a = b :=
  List.inj_on_of_nodup_map (List.pairwise_map.2 h.distinct) ha hb hcl

/-- Where the clusters own what they write, their rows are replaced. -/
theorem replaced (h : Written s nowMs d₀ ws d) (hown : OwnsReviews s d₀ ws)
    (hclaims : ∀ a ∈ ws, ∀ m ∈ d₀.memoryClaims, m.clusterId = some a.clusterId →
      ∃ b ∈ ws, m.candidateFingerprint ∈ b.proposed s) {a : SemanticAbstraction} (ha : a ∈ ws) :
    ReplacedBy s nowMs a (d.rowsOf a.clusterId) := by
  obtain ⟨habstractions, htriples, hedges, hedge⟩ := h.rewritten a ha
  refine ⟨habstractions, htriples, hedges, hedge, (h.reviews hown).1 a ha, fun m hm => ?_,
    fun t ht => ?_⟩
  · obtain ⟨hm, hcl⟩ := List.mem_filter.1 hm
    have hcl : m.clusterId = some a.clusterId := of_decide_eq_true hcl
    have hproposed : ∃ b ∈ ws, m.candidateFingerprint ∈ b.proposed s := by
      by_contra hnone
      refine hnone (hclaims a ha m ?_ hcl)
      exact (h.mem_claims_iff fun b hb hfp => hnone ⟨b, hb, hfp⟩).1 hm
    obtain ⟨b, hb, -, hwritten⟩ := h.holder hproposed
    obtain ⟨hclb, ht⟩ := hwritten m hm rfl
    obtain rfl := h.eq_of_clusterId ha hb (Option.some.inj (hcl.symm.trans hclb))
    exact ht
  · have hfp : claimFingerprint s a.clusterId t ∈ a.proposed s := List.mem_map_of_mem ht
    obtain ⟨m, hm, hmfp⟩ := h.claimed a ha _ hfp
    obtain ⟨b, hb, hbfp, hwritten⟩ := h.holder ⟨a, ha, hfp⟩
    -- no other cluster proposes it
    have hab : b = a := by
      by_contra hne
      have hsymm : Std.Symm fun a b :
          SemanticAbstraction => ∀ fp ∈ a.proposed s, fp ∉ b.proposed s :=
        ⟨fun a b hab fp hb ha => hab fp ha hb⟩
      exact hown.apart.forall hb ha hne _ hbfp hfp
    obtain ⟨hcl, -⟩ := hwritten m hm hmfp
    exact ⟨m, List.mem_filter.2 ⟨hm, decide_eq_true (hab ▸ hcl)⟩, hmfp⟩

/-- Where, moreover, they propose no claim of a cluster, its rows are as before. -/
theorem rowsOf_eq (h : Written s nowMs d₀ ws d) (hown : OwnsReviews s d₀ ws) {c : ClusterId}
    (hc : ∀ a ∈ ws, a.clusterId ≠ c) (hclaims : ∀ m ∈ d₀.memoryClaims, m.clusterId = some c →
      ∀ b ∈ ws, m.candidateFingerprint ∉ b.proposed s) : d.rowsOf c = d₀.rowsOf c := by
  obtain ⟨habstractions, htriples, hedges⟩ := h.kept c hc
  have hfree := h.freeClaims (fun fp => !decide (∃ a ∈ ws, fp ∈ a.proposed s)) fun a ha fp hfp => by
    rw [Bool.not_eq_false', decide_eq_true_eq]
    exact ⟨a, ha, hfp⟩
  have hwhole {t : Table ClaimRow} (ht : ∀ m ∈ t, m.clusterId = some c →
      ∀ b ∈ ws, m.candidateFingerprint ∉ b.proposed s) :
      t.rows.filter (fun m => decide (m.clusterId = some c)) =
        (t.rows.filter fun m => !decide (∃ a ∈ ws, m.candidateFingerprint ∈ a.proposed s)).filter
          fun m => decide (m.clusterId = some c) := by
    rw [List.filter_filter]
    refine List.filter_congr fun m hm => ?_
    by_cases hcl : m.clusterId = some c
    · have hnone : ¬ ∃ a ∈ ws, m.candidateFingerprint ∈ a.proposed s :=
        fun ⟨a, ha, hfp⟩ => ht m hm hcl a ha hfp
      rw [decide_eq_true hcl, decide_eq_false hnone]
      rfl
    · rw [decide_eq_false hcl, Bool.false_and]
  have hrows : (d.rowsOf c).claims = (d₀.rowsOf c).claims := by
    refine (hwhole fun m hm hcl b hb hfp => ?_).trans
      ((congrArg (List.filter _) hfree).trans (hwhole hclaims).symm)
    obtain ⟨a, ha, -, hwritten⟩ := h.holder ⟨b, hb, hfp⟩
    exact hc a ha (Option.some.inj ((hwritten m hm rfl).1.symm.trans hcl))
  exact ClusterRows.ext habstractions htriples hedges ((h.reviews hown).2.1 c hc) hrows

/-- The other direction: clusters whose rows are all replaced own their reviews and claims. -/
theorem owns_of_replaced (h : Written s nowMs d₀ ws d)
    (hreplaced : ∀ a ∈ ws, ReplacedBy s nowMs a (d.rowsOf a.clusterId)) :
    OwnsReviews s d₀ ws ∧ ∀ a ∈ ws, ∀ m ∈ d₀.memoryClaims, m.clusterId = some a.clusterId →
      ∃ b ∈ ws, m.candidateFingerprint ∈ b.proposed s := by
  -- a fingerprint that a cluster proposes is the cluster's after the batch
  have hmine {a : SemanticAbstraction} (ha : a ∈ ws) {fp : String} (hfp : fp ∈ a.proposed s) :
      ∃ m ∈ d.memoryClaims, m.candidateFingerprint = fp ∧ m.clusterId = some a.clusterId := by
    obtain ⟨t, ht, rfl⟩ := List.mem_map.1 hfp
    obtain ⟨m, hm, hmfp⟩ := (hreplaced a ha).claim t ht
    obtain ⟨hm, hcl⟩ := List.mem_filter.1 hm
    exact ⟨m, hm, hmfp, of_decide_eq_true hcl⟩
  refine ⟨⟨?_, fun later a before heq r hr hfp => ?_, fun a ha => ?_⟩, fun a ha m hm hcl => ?_⟩
  · refine h.distinct.imp_of_mem fun {a b} ha hb hne fp hfa hfb => hne ?_
    obtain ⟨m, hm, hmfp, hma⟩ := hmine ha hfa
    obtain ⟨m', hm', hmfp', hmb⟩ := hmine hb hfb
    have hsame : m = m' :=
      Table.eq_of_clash hm hm'
        (Bool.or_eq_true_iff.2 (.inr (decide_eq_true (hmfp.trans hmfp'.symm))))
    rw [hsame, hmb] at hma
    exact (Option.some.inj hma).symm
  · by_contra hnone
    have ha : a ∈ ws := heq ▸ List.mem_append_right _ List.mem_cons_self
    obtain ⟨x, hx, hxfp⟩ := List.mem_map.1 hfp
    have hrow : x.row nowMs ∈ (d.rowsOf a.clusterId).reviews :=
      (hreplaced a ha).reviews ▸ List.mem_map_of_mem hx
    refine h.lost later a before heq r hr hfp (fun b hb hcl => hnone ⟨b, hb, hcl⟩)
      _ (List.mem_filter.1 hrow).1 hxfp ?_
    exact congrArg some (candidate_clusterId hx)
  · have hunique :=
      d.tripleReviews.unique.filter fun r : ReviewRow => decide (r.clusterId = some a.clusterId)
    have hrows : (d.rowsOf a.clusterId).reviews.Pairwise fun r r' => Keyed.clash r r' = false :=
      hunique
    rw [(hreplaced a ha).reviews, List.pairwise_map] at hrows
    refine List.pairwise_map.2 (hrows.imp fun {x y} hclash hsame => ?_)
    exact of_decide_eq_false ((Bool.or_eq_false_iff.1 hclash).2) hsame
  · by_contra hnone
    have hleft : m ∈ (d.rowsOf a.clusterId).claims :=
      List.mem_filter.2 ⟨(h.mem_claims_iff fun b hb hfp => hnone ⟨b, hb, hfp⟩).2 hm,
        decide_eq_true hcl⟩
    obtain ⟨t, ht, hfp, -⟩ := (hreplaced a ha).claims m hleft
    exact hnone ⟨a, ha, hfp ▸ List.mem_map_of_mem ht⟩

end Written

/-! ### A batch that is committed -/

/-- A batch that was committed: one audit row; the rows of the clusters that were built are those of
their abstractions, the rows of those that failed are as before; no edge is left without its fact;
and the report counts the rows. -/
structure Committed (s : Store) (nowMs : Int) (c : AttachBatch) (db db' : DerivedDb)
    (report : AttachReport) (built failed : List SemanticAbstraction) : Prop where
  items : (c.items.map Prod.snd).Perm (built ++ failed)
  audit : db'.audit = db.audit ++ [attachAuditEvent c nowMs report]
  replaced : ∀ a ∈ built, ReplacedBy s nowMs a (db'.derived.rowsOf a.clusterId)
  kept : ∀ a ∈ failed, db'.derived.rowsOf a.clusterId = db.derived.rowsOf a.clusterId
  edges : ∀ e ∈ db'.derived.relationshipEdges, ∃ t ∈ db'.derived.triples, t.tripleId = e.edgeId
  abstractionsBuilt : report.abstractionsBuilt =
    (built.map fun a => (db'.derived.rowsOf a.clusterId).abstractions.length).sum
  triplesExtracted :
    report.triplesExtracted =
    (built.map fun a => (db'.derived.rowsOf a.clusterId).triples.length).sum
  triplesQuarantined : report.triplesQuarantined =
    (built.map fun a => (db'.derived.rowsOf a.clusterId).reviews.length).sum
  clustersFailed : report.clustersFailed = failed.length

/-- A batch is atomic per cluster, and changes nothing when it answers with an error. -/
def AtomicBatch (s : Store) (nowMs : Int) (clusterFault : Nat → ClusterFault) (c : AttachBatch)
    (db : DerivedDb) : Except Error AttachReport × DerivedDb → Prop
  | (.error _, db') => db' = db
  | (.ok report, db') =>
    ∃ k, booking s nowMs clusterFault c db.derived = some k ∧
      Committed s nowMs c db db' report k.built k.failed

/-- The bookkeeping along a batch. -/
structure Booked (s : Store) (nowMs : Int) (d₀ : Derived) (k : Booking) (r : AttachReport) :
    Prop where
  written : ∃ ws, Written s nowMs d₀ ws k.tables ∧ (k.left = [] → ws = k.built) ∧
    (∀ a ∈ k.left, a ∈ ws) ∧ ∀ a ∈ ws, a ∈ k.built ++ k.failed
  left : ∀ a ∈ k.left, a ∈ k.failed
  abstractionsBuilt : r.abstractionsBuilt = k.built.length
  triplesExtracted :
    r.triplesExtracted = (k.built.map fun a => (factRows s nowMs a.clusterId a.triples).length).sum
  triplesQuarantined :
    r.triplesQuarantined = (k.built.map fun a => (candidates s a.clusterId a.triples).length).sum
  clustersFailed : r.clustersFailed = k.failed.length

theorem length_factRows (s : Store) (nowMs : Int) (c : ClusterId) (ts : List Triple) :
    (factRows s nowMs c ts).length = ts.countP fun t => (evaluateForCluster s c t).isActive := by
  rw [factRows, List.length_filterMap_eq_countP]
  refine List.countP_congr fun t _ => ?_
  cases evaluateForCluster s c t <;> simp [TripleQualityDecision.isActive]

theorem length_candidates (s : Store) (c : ClusterId) (ts : List Triple) :
    (candidates s c ts).length = ts.length - ts.countP fun t =>
    (evaluateForCluster s c t).isActive := by
  have hcount : (candidates s c ts).length = ts.countP fun t =>
      ¬ (evaluateForCluster s c t).isActive = true := by
    rw [candidates, List.length_filterMap_eq_countP]
    refine List.countP_congr fun t _ => ?_
    cases evaluateForCluster s c t <;> simp [TripleQualityDecision.isActive]
  have htotal :=
    List.length_eq_countP_add_countP (fun t => (evaluateForCluster s c t).isActive) (l := ts)
  omega

namespace Booked

variable {s : Store} {nowMs : Int} {d₀ d : Derived} {k k' : Booking} {r : AttachReport}
  {a : SemanticAbstraction} {e : ClusterFault × SemanticAbstraction}

theorem fail (h : Booked s nowMs d₀ k r) : Booked s nowMs d₀ (k.fail a) r.fail := by
  obtain ⟨ws, hws, hbuilt, hleft, hmem⟩ := h.written
  refine ⟨⟨ws, hws, hbuilt, hleft, fun b hb => ?_⟩,
    fun b hb => List.mem_cons_of_mem a (h.left b hb),
    h.abstractionsBuilt, h.triplesExtracted, h.triplesQuarantined,
      congrArg (· + 1) h.clustersFailed⟩
  exact List.perm_middle.mem_iff.2 (List.mem_cons_of_mem a (hmem b hb))

theorem leave (h : Booked s nowMs d₀ k r)
    (hnew : ∀ b ∈ k.built ++ k.failed, a.clusterId ≠ b.clusterId)
    (hattach : k.tables.attachAbstraction s nowMs a = some d) :
    Booked s nowMs d₀ (k.leave a d) r.fail := by
  obtain ⟨ws, hws, hbuilt, hleft, hmem⟩ := h.written
  refine ⟨⟨a :: ws, hws.attach (fun b hb => hnew b (hmem b hb)) hattach, fun hnil => ?_,
    fun b hb => ?_, fun b hb => ?_⟩,
    fun b hb => ?_, h.abstractionsBuilt, h.triplesExtracted, h.triplesQuarantined,
      congrArg (· + 1) h.clustersFailed⟩
  · cases hnil
  · exact List.mem_cons.2 ((List.mem_cons.1 hb).imp_right (hleft b))
  · exact List.perm_middle.mem_iff.2 (List.mem_cons.2 ((List.mem_cons.1 hb).imp_right (hmem b)))
  · exact List.mem_cons.2 ((List.mem_cons.1 hb).imp_right (h.left b))

theorem build (h : Booked s nowMs d₀ k r)
    (hnew : ∀ b ∈ k.built ++ k.failed, a.clusterId ≠ b.clusterId)
    (hattach : k.tables.attachAbstraction s nowMs a = some d) :
    Booked s nowMs d₀ (k.build a d)
    (r.build (a.triples.countP fun t => (evaluateForCluster s a.clusterId t).isActive)
      (a.triples.length - a.triples.countP fun t =>
        (evaluateForCluster s a.clusterId t).isActive)) := by
  obtain ⟨ws, hws, hbuilt, hleft, hmem⟩ := h.written
  refine ⟨⟨a :: ws, hws.attach (fun b hb => hnew b (hmem b hb)) hattach,
    fun hnil => congrArg (a :: ·) (hbuilt hnil),
    fun b hb => List.mem_cons_of_mem a (hleft b hb), fun b hb => ?_⟩, h.left,
    congrArg (· + 1) h.abstractionsBuilt, ?_, ?_, h.clustersFailed⟩
  · exact List.mem_cons.2 ((List.mem_cons.1 hb).imp_right (hmem b))
  · rw [Booking.build, List.map_cons, List.sum_cons, length_factRows, ← h.triplesExtracted,
      Nat.add_comm]
    rfl
  · rw [Booking.build, List.map_cons, List.sum_cons, length_candidates, ← h.triplesQuarantined,
      Nat.add_comm]
    rfl

/-- The next cluster: a failed rollback ends the batch, or it is booked. -/
theorem step (h : Booked s nowMs d₀ k r)
    (hnew : ∀ b ∈ k.built ++ k.failed, e.2.clusterId ≠ b.clusterId) :
    (book s nowMs k e = none ∧ ∃ err, attachClusterFaulty s nowMs (k.tables, r) e = .error err) ∨
    ∃ k' r', book s nowMs k e = some k' ∧ attachClusterFaulty s nowMs (k.tables, r) e =
    .ok (k'.tables, r') ∧
      Booked s nowMs d₀ k' r' ∧ (e.2 :: (k.built ++ k.failed)).Perm (k'.built ++ k'.failed) := by
  have hfailed : (e.2 :: (k.built ++ k.failed)).Perm (k.built ++ e.2 :: k.failed) :=
    List.perm_middle.symm
  unfold book attachClusterFaulty
  cases hskip : e.1.skip with
  | true => exact .inr ⟨k.fail e.2, r.fail, rfl, rfl, h.fail, hfailed⟩
  | false =>
    cases hstatement : e.1.statement with
    | true =>
      cases hrollback : e.1.rollback with
      | true => exact .inl ⟨rfl, _, rfl⟩
      | false => exact .inr ⟨k.fail e.2, r.fail, rfl, rfl, h.fail, hfailed⟩
    | false =>
      cases hattach : k.tables.attachAbstraction s nowMs e.2 with
      | none =>
        cases hrollback : e.1.rollback with
        | true => exact .inl ⟨rfl, _, rfl⟩
        | false => exact .inr ⟨k.fail e.2, r.fail, by simp, by simp [Booking.fail], h.fail, hfailed⟩
      | some d =>
        cases hrelease : e.1.release with
        | false =>
          exact .inr
            ⟨k.build e.2 d, _, by simp, by simp [Booking.build], h.build hnew hattach, .refl _⟩
        | true =>
          cases hrollback : e.1.rollback with
          | true =>
            exact .inr
              ⟨k.leave e.2 d,
                r.fail, by simp, by simp [Booking.leave], h.leave hnew hattach, hfailed⟩
          | false =>
            exact .inr ⟨k.fail e.2, r.fail, by simp, by simp [Booking.fail], h.fail, hfailed⟩

/-- The clusters one after the other. -/
theorem run (todo : List (ClusterFault × SemanticAbstraction)) (h : Booked s nowMs d₀ k r)
    (hdistinct : ((todo.map Prod.snd ++ (k.built ++ k.failed)).map (·.clusterId)).Nodup) :
    (todo.foldlM (book s nowMs) k = none ∧ ∃ err, todo.foldlM (attachClusterFaulty s nowMs)
      (k.tables, r) = .error err) ∨
    ∃ k' r', todo.foldlM (book s nowMs) k = some k' ∧
      todo.foldlM (attachClusterFaulty s nowMs) (k.tables, r) = .ok (k'.tables, r') ∧
      Booked s nowMs d₀ k' r' ∧
      (todo.map Prod.snd ++ (k.built ++ k.failed)).Perm (k'.built ++ k'.failed) := by
  induction todo generalizing k r with
  | nil => exact .inr ⟨k, r, rfl, rfl, h, .refl _⟩
  | cons e todo ih =>
    rw [List.map_cons, List.cons_append, List.map_cons, List.nodup_cons] at hdistinct
    have hnew : ∀ b ∈ k.built ++ k.failed, e.2.clusterId ≠ b.clusterId := fun b hb heq =>
      hdistinct.1 (heq ▸ List.mem_map_of_mem (List.mem_append_right _ hb))
    rcases h.step hnew with ⟨hbook, err, hattach⟩ | ⟨k₁, r₁, hbook, hattach, h₁, hperm₁⟩
    · refine .inl ⟨?_, err, ?_⟩
      · rw [List.foldlM_cons, hbook]
        rfl
      · rw [List.foldlM_cons, hattach]
        rfl
    · have hmiddle : (e.2 :: (todo.map Prod.snd ++ (k.built ++ k.failed))).Perm
          (todo.map Prod.snd ++ (k₁.built ++ k₁.failed)) :=
        List.perm_middle.symm.trans (hperm₁.append_left _)
      have hdistinct₁ :
          ((todo.map Prod.snd ++ (k₁.built ++ k₁.failed)).map (·.clusterId)).Nodup := by
        rw [← (hmiddle.map _).nodup_iff, List.map_cons, List.nodup_cons]
        exact hdistinct
      rw [List.foldlM_cons, List.foldlM_cons, hbook, hattach]
      rcases ih h₁ hdistinct₁ with ⟨hnone, herr⟩ | ⟨k', r', hrun, hrun', h', hperm'⟩
      · exact .inl ⟨hnone, herr⟩
      · exact .inr ⟨k', r', hrun, hrun', h', hmiddle.trans hperm'⟩

/-- The clusters that went through are replaced and the others kept exactly where what is written is
owned. -/
theorem owned_iff (h : Booked s nowMs d₀ k r)
    (hapart : ∀ a ∈ k.built, ∀ b ∈ k.failed, a.clusterId ≠ b.clusterId)
    (hfresh : ∀ a ∈ k.failed, a.row ∉ d₀.semanticAbstractions) :
    ((∀ a ∈ k.built, ReplacedBy s nowMs a (k.tables.rowsOf a.clusterId)) ∧
      ∀ a ∈ k.failed, k.tables.rowsOf a.clusterId = d₀.rowsOf a.clusterId) ↔ Owned s d₀ k := by
  obtain ⟨ws, hws, hbuilt, hleft, -⟩ := h.written
  constructor
  · rintro ⟨hreplaced, hkept⟩
    have hnil : k.left = [] := by
      by_contra hne
      obtain ⟨a, ha⟩ := List.exists_mem_of_ne_nil _ hne
      -- the rows that are left have an abstraction that was not there
      have hrow : a.row ∈ (k.tables.rowsOf a.clusterId).abstractions :=
        (hws.rewritten a (hleft a ha)).abstractions ▸ List.mem_singleton_self _
      rw [hkept a (h.left a ha)] at hrow
      exact hfresh a (h.left a ha) (List.mem_filter.1 hrow).1
    obtain rfl := hbuilt hnil
    obtain ⟨hown, hclaims⟩ := hws.owns_of_replaced hreplaced
    refine ⟨hown, hnil, hclaims, fun a ha m hm hcl b hb hfp => ?_⟩
    have hmem : m ∈ (k.tables.rowsOf a.clusterId).claims :=
      (hkept a ha) ▸ List.mem_filter.2 ⟨hm, decide_eq_true hcl⟩
    obtain ⟨x, hx, -, hwritten⟩ := hws.holder ⟨b, hb, hfp⟩
    have hclx := (hwritten m (List.mem_filter.1 hmem).1 rfl).1
    exact hapart x hx a ha (Option.some.inj (hclx.symm.trans hcl))
  · rintro ⟨hown, hnil, hclaims, hfailed⟩
    obtain rfl := hbuilt hnil
    exact ⟨fun a ha => hws.replaced hown hclaims ha,
      fun b hb => hws.rowsOf_eq hown (fun a ha => hapart a ha b hb) (hfailed b hb)⟩

theorem committed {c : AttachBatch} {db : DerivedDb} (h : Booked s nowMs db.derived k r)
    (hitems : (c.items.map Prod.snd).Perm (k.built ++ k.failed))
    (hreplaced : ∀ a ∈ k.built, ReplacedBy s nowMs a (k.tables.rowsOf a.clusterId))
    (hkept : ∀ a ∈ k.failed, k.tables.rowsOf a.clusterId = db.derived.rowsOf a.clusterId) :
    Committed s nowMs c db ⟨k.tables, db.audit ++ [attachAuditEvent c nowMs r]⟩
    r k.built k.failed where
  items := hitems
  audit := rfl
  replaced := hreplaced
  kept := hkept
  edges e he := by
    obtain ⟨ws, hws, -⟩ := h.written
    obtain ⟨v, hv, hid⟩ := hws.mirror.backed e he
    obtain ⟨t, ht, htid⟩ := hws.mirror.evidence_triple v hv
    exact ⟨t, ht, htid.trans ((hws.mirror.evidence_edge v hv).1.symm.trans hid)⟩
  abstractionsBuilt := by
    have hone : k.built.map (fun a => (k.tables.rowsOf a.clusterId).abstractions.length) =
        k.built.map fun _ => 1 :=
      List.map_congr_left fun a ha => congrArg List.length (hreplaced a ha).abstractions
    rw [hone, List.map_const', List.sum_replicate_nat, Nat.mul_one]
    exact h.abstractionsBuilt
  triplesExtracted := by
    have hrows : k.built.map (fun a => (k.tables.rowsOf a.clusterId).triples.length) =
        k.built.map fun a => (factRows s nowMs a.clusterId a.triples).length :=
      List.map_congr_left fun a ha => congrArg List.length (hreplaced a ha).triples
    rw [hrows]
    exact h.triplesExtracted
  triplesQuarantined := by
    have hrows : k.built.map (fun a => (k.tables.rowsOf a.clusterId).reviews.length) =
        k.built.map fun a => (candidates s a.clusterId a.triples).length := by
      refine List.map_congr_left fun a ha => ?_
      rw [(hreplaced a ha).reviews, List.length_map]
    rw [hrows]
    exact h.triplesQuarantined
  clustersFailed := h.clustersFailed

end Booked

end Derived

open Derived

/-- Whatever clusters of a batch fail, and wherever: it is atomic per cluster exactly where it is
not ended as a whole or the clusters that go through own what they write. The clusters of a batch
are different ones and its abstractions new; edges mirror facts in every reachable state. -/
theorem attachAbstractionBatch_atomic (s : Store) (nowMs : Int) (fault : BatchFault)
    (clusterFault : Nat → ClusterFault)
    (c : AttachBatch) (db : DerivedDb) (hmirror : Mirror db.derived)
    (hdistinct : (c.items.map Prod.fst).Nodup)
    (hfresh : ∀ i ∈ c.items, i.2.row ∉ db.derived.semanticAbstractions) :
    AtomicBatch s nowMs clusterFault c db (attachAbstractionBatch s nowMs fault clusterFault c db) ↔
      ((∀ i ∈ c.items, i.2.clusterId = i.1) → fault = ⟨false, false, false⟩ →
        ∀ k, booking s nowMs clusterFault c db.derived = some k → Owned s db.derived k) := by
  unfold attachAbstractionBatch
  cases hfind : c.items.find? fun i => i.2.clusterId ≠ i.1 with
  | some i =>
    refine iff_of_true rfl fun hmatch => absurd (hmatch i (List.mem_of_find?_eq_some hfind)) ?_
    simpa using List.find?_some hfind
  | none =>
    dsimp only
    have hmatch : ∀ i ∈ c.items, i.2.clusterId = i.1 := fun i hi => by
      simpa using List.find?_eq_none.1 hfind i hi
    split
    next hbegin => exact iff_of_true rfl fun _ hnone => absurd hbegin (by simp [hnone])
    next hbegin =>
    have hsnd : ((c.items.map Prod.snd).mapIdx fun i a => (clusterFault i, a)).map Prod.snd =
        c.items.map Prod.snd := by
      exact List.ext_getElem (by simp) fun i h₁ h₂ => by simp
    have hids : (c.items.map Prod.snd).map (·.clusterId) = c.items.map Prod.fst := by
      rw [List.map_map]
      exact List.map_congr_left hmatch
    have hstart : Booked s nowMs db.derived ⟨[], [], [], db.derived⟩
        ⟨0, 0, 0, 0, c.clustersDeferred⟩ :=
      ⟨⟨[], .start s nowMs hmirror, fun _ => rfl, fun a ha => absurd ha List.not_mem_nil,
        fun a ha => absurd ha List.not_mem_nil⟩, fun a ha => absurd ha List.not_mem_nil, rfl, rfl,
          rfl, rfl⟩
    have hrun :=
      Booked.run ((c.items.map Prod.snd).mapIdx fun i a => (clusterFault i, a)) hstart (by
      rw [List.append_nil, List.append_nil, hsnd, hids]
      exact hdistinct)
    rcases hrun with ⟨hbook, err, hattach⟩ | ⟨k, r, hbook, hattach, hbooked, hperm⟩
    · rw [hattach]
      refine iff_of_true rfl fun _ _ k hk => ?_
      rw [booking, hbook] at hk
      cases hk
    rw [hattach]
    dsimp only
    split
    next haudit => exact iff_of_true rfl fun _ hnone => absurd haudit (by simp [hnone])
    next haudit =>
    split
    next hcommit => exact iff_of_true rfl fun _ hnone => absurd hcommit (by simp [hnone])
    next hcommit =>
    rw [hsnd, List.append_nil, List.append_nil] at hperm
    have hnone : fault = ⟨false, false, false⟩ := by
      rcases fault with ⟨b, a, m⟩
      simp only [Bool.not_eq_true] at hbegin haudit hcommit
      rw [hbegin, haudit, hcommit]
    have hclusters : ((k.built ++ k.failed).map (·.clusterId)).Nodup := by
      rw [← (hperm.map _).nodup_iff, hids]
      exact hdistinct
    have hapart : ∀ a ∈ k.built, ∀ b ∈ k.failed, a.clusterId ≠ b.clusterId := by
      rw [List.map_append, List.nodup_append] at hclusters
      exact fun a ha b hb => hclusters.2.2 _ (List.mem_map_of_mem ha) _ (List.mem_map_of_mem hb)
    have hnew : ∀ a ∈ k.failed, a.row ∉ db.derived.semanticAbstractions := by
      intro a ha
      obtain ⟨i, hi, rfl⟩ := List.mem_map.1 (hperm.mem_iff.2 (List.mem_append_right _ ha))
      exact hfresh i hi
    have howned := hbooked.owned_iff hapart hnew
    constructor
    · rintro ⟨k', hk', hcommitted⟩ - - k'' hk''
      rw [booking, hbook] at hk' hk''
      obtain rfl := Option.some.inj hk'
      obtain rfl := Option.some.inj hk''
      exact howned.1 ⟨hcommitted.replaced, hcommitted.kept⟩
    · intro hcond
      obtain ⟨hreplaced, hkept⟩ := howned.2 (hcond hmatch hnone k hbook)
      exact ⟨k, hbook, hbooked.committed hperm hreplaced hkept⟩

/-! ### A cluster abstracted once, and again -/

open ReabstractedCluster

def batchOf (items : List (ClusterId × SemanticAbstraction)) : AttachBatch := ⟨items, 1, 0, 0, none⟩

/-- Two clusters, `k` and `n`. -/
def twoClusters : Derived :=
  { legacy with clusters := legacy.clusters.insertOrIgnore ⟨"n", none, 1, 0⟩ }

/-- The tables after a first abstraction of the cluster `k`. -/
def abstracted : DerivedDb :=
  ⟨(twoClusters.migrated .empty).step .empty (attach "a1" [fact "t1"]), []⟩

def again : SemanticAbstraction := ⟨"a2", "k", "", [fact "t2"], provenance, 0.9⟩

/-- A cluster that has rows, one that does not exist, and one that is new. -/
def mixedBatch : AttachBatch :=
  batchOf [("k", again), ("x", ⟨"a3", "x", "", [], provenance, 0.9⟩),
    ("n", ⟨"a4", "n", "", [fact "t4"], provenance, 0.9⟩)]

/-- A statement of the first cluster fails after its rows are deleted. -/
def firstFails (i : Nat) : ClusterFault := ⟨false, decide (i = 0), false, false⟩

theorem mixedBatch_booking :
    ∃ d, booking .empty 1 firstFails mixedBatch abstracted.derived =
      some ⟨[⟨"a4", "n", "", [fact "t4"], provenance, 0.9⟩],
        [⟨"a3", "x", "", [], provenance, 0.9⟩, again], [], d⟩ := by
  have hbuilt : (booking .empty 1 firstFails mixedBatch abstracted.derived).map
      (fun k => (k.built, k.failed, k.left)) =
      some ([⟨"a4", "n", "", [fact "t4"], provenance, 0.9⟩],
        [⟨"a3", "x", "", [], provenance, 0.9⟩, again], []) := by
    decide +kernel
  obtain ⟨⟨built, failed, left, d⟩, hk, heq⟩ := Option.map_eq_some_iff.1 hbuilt
  simp only [Prod.mk.injEq] at heq
  obtain ⟨rfl, rfl, rfl⟩ := heq
  exact ⟨d, hk⟩

/-- The first two clusters fail, and the facts of the first are as before. -/
theorem attachAbstractionBatch_atomic_mixed :
    AtomicBatch .empty 1 firstFails mixedBatch abstracted
      (attachAbstractionBatch .empty 1 ⟨false, false, false⟩ firstFails mixedBatch abstracted) := by
  have hmirror : Mirror abstracted.derived :=
    (Mirror.migrated .empty twoClusters).step (attach "a1" [fact "t1"])
  have hids : abstracted.derived.semanticAbstractions.rows.map (·.abstractionId) = ["a1"] := by
    decide +kernel
  have hfresh : ∀ i ∈ mixedBatch.items, i.2.row ∉ abstracted.derived.semanticAbstractions := by
    have hother : ∀ i ∈ mixedBatch.items, i.2.abstractionId ∉ ["a1"] := by decide
    exact fun i hi hrow => hother i hi (hids ▸ List.mem_map_of_mem hrow)
  have hdistinct : (mixedBatch.items.map Prod.fst).Nodup := by decide
  have hiff :=
    attachAbstractionBatch_atomic .empty 1 ⟨false, false, false⟩
    firstFails mixedBatch abstracted hmirror hdistinct hfresh
  rw [hiff]
  intro _ _ k hk
  obtain ⟨d, hbooking⟩ := mixedBatch_booking
  rw [hbooking] at hk
  obtain rfl := (Option.some.inj hk).symm
  have hclaims : ∀ m ∈ abstracted.derived.memoryClaims.rows, m.clusterId = some "k" ∧
      m.candidateFingerprint ∉ (⟨"a4", "n", "", [fact "t4"], provenance, 0.9⟩ :
        SemanticAbstraction).proposed .empty := by
    decide +kernel
  have hreviews : abstracted.derived.tripleReviews.rows = [] := by decide +kernel
  refine ⟨⟨List.pairwise_singleton _ _, fun later a before _ r hr => ?_, fun a ha => ?_⟩, rfl,
    fun a ha m hm hcl => ?_, fun a ha m hm hcl b hb => ?_⟩
  · rw [← Table.mem_rows, hreviews] at hr
    exact absurd hr List.not_mem_nil
  · obtain rfl := List.mem_singleton.1 ha
    decide +kernel
  · obtain rfl := List.mem_singleton.1 ha
    exact absurd ((hclaims m hm).1.symm.trans hcl) (by decide)
  · obtain rfl := List.mem_singleton.1 hb
    exact (hclaims m hm).2

/-- The claim that the first abstraction made is still there, of a fact that is gone. -/
theorem abstracted_again_not_atomic :
    ¬ AtomicBatch .empty 1 (fun _ => .none) (batchOf [("k", again)]) abstracted
      (attachAbstractionBatch .empty 1 ⟨false, false, false⟩ (fun _ => .none)
        (batchOf [("k", again)]) abstracted) := by
  have hrun :
      (attachAbstractionBatch .empty 1 ⟨false, false, false⟩ (fun _ => .none)
        (batchOf [("k", again)]) abstracted).1 = .ok ⟨1, 1, 0, 0, 0⟩ ∧
      ∃ m ∈ (attachAbstractionBatch .empty 1 ⟨false, false, false⟩ (fun _ => .none)
        (batchOf [("k", again)])
        abstracted).2.derived.memoryClaims.rows, m.clusterId = some "k" ∧
        m.tripleId = some "t1" := by decide +kernel
  generalize attachAbstractionBatch .empty 1 ⟨false, false, false⟩ (fun _ => .none)
    (batchOf [("k", again)]) abstracted = r at hrun
  obtain ⟨hreply, hleft⟩ := hrun
  obtain ⟨reply, db'⟩ := r
  obtain rfl : reply = .ok ⟨1, 1, 0, 0, 0⟩ := hreply
  rintro ⟨k, -, h⟩
  have hfailed : k.failed = [] := List.length_eq_zero_iff.1 h.clustersFailed.symm
  have hbuilt : again ∈ k.built := by
    have hmem := h.items.mem_iff.1 (List.mem_singleton_self again)
    rwa [hfailed, List.append_nil] at hmem
  obtain ⟨m, hm, hcluster, hid⟩ := hleft
  obtain ⟨t, ht, -, htid⟩ :=
    (h.replaced again hbuilt).claims m (List.mem_filter.2 ⟨hm, decide_eq_true hcluster⟩)
  obtain rfl := List.mem_singleton.1 ht
  rw [hid] at htid
  exact absurd (Option.some.inj htid) (by decide)

end Solo
