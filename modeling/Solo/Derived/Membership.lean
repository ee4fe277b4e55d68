import Solo.Derived.Consolidate
import Solo.Steward.MergePlan

/-!
# What a consolidation does to clusters and their members

Three views of the derived tables: which clusters there are, which episodes belong to each, and
which clusters have rows derived from them. Each statement of a consolidation is described by what
it does to these, and so are its two transactions.
-/

namespace Solo

namespace Derived

def HasCluster (d : Derived) (c : ClusterId) : Prop := ∃ r ∈ d.clusters, r.clusterId = c

def MemberOf (d : Derived) (c : ClusterId) (m : MemoryId) : Prop :=
  ClusterEpisodeRow.mk c m ∈ d.clusterEpisodes

/-- The cluster has an abstraction or a triple. -/
def DerivedFrom (d : Derived) (c : ClusterId) : Prop :=
  (∃ a ∈ d.semanticAbstractions, a.clusterId = c) ∨ ∃ t ∈ d.triples, t.clusterId = some c

/-- The foreign keys to `clusters`. -/
structure ForeignKeys (d : Derived) : Prop where
  member : ∀ c m, d.MemberOf c m → d.HasCluster c
  derived : ∀ c, d.DerivedFrom c → d.HasCluster c

variable {s : Store} {nowMs : Int} {d d₁ d' : Derived}

theorem hasCluster_setCentroid {k : ClusterId} {e : Embedding} {x : Float32} {c : ClusterId} :
    (d.setCentroid k e x).HasCluster c ↔ d.HasCluster c := by
  simp only [HasCluster, setCentroid, Table.mem_updateWhere]
  constructor
  · rintro ⟨-, ⟨r, hr, rfl⟩, hc⟩
    exact ⟨r, hr, by split at hc <;> exact hc⟩
  · rintro ⟨r, hr, hc⟩
    exact ⟨_, ⟨r, hr, rfl⟩, by split <;> exact hc⟩

/-! ### The first transaction -/

/-- Where the members of a new cluster go. -/
def targetOf (absorptions : List AbsorbedCluster) (c : Cluster) : ClusterId :=
  match absorptions.reverse.find? (·.newClusterId = c.clusterId) with
  | some a => a.existingClusterId
  | none => c.clusterId

/-- The members are those before and the new ones, whose cluster exists. -/
theorem insertMembers_eq_some {target : ClusterId} {ms : List MemoryId}
    (h : ms.foldlM (insertMember s target) d = some d') :
    ∃ members, d' = { d with clusterEpisodes := members } ∧
      (∀ c m, d'.MemberOf c m ↔ d.MemberOf c m ∨ c = target ∧ m ∈ ms) ∧
      (ms ≠ [] → d.HasCluster target) := by
  induction ms generalizing d with
  | nil =>
    obtain rfl := Option.some.inj h
    exact ⟨d.clusterEpisodes, rfl, by simp, by simp⟩
  | cons m ms ih =>
    rw [List.foldlM_cons, Option.bind_eq_bind, Option.bind_eq_some_iff] at h
    obtain ⟨d₁, h₁, h⟩ := h
    simp only [insertMember, Option.bind_eq_bind, Option.bind_eq_some_iff, Option.pure_def,
      Option.some.injEq, Option.guard_eq_some', exists_const, Bool.and_eq_true] at h₁
    obtain ⟨⟨href, -⟩, members₁, hins, rfl⟩ := h₁
    obtain ⟨members, rfl, hmembers, -⟩ := ih h
    refine ⟨members, rfl, fun c m' => ?_, fun _ => by simpa [clusterRef, HasCluster] using href⟩
    rw [hmembers, MemberOf, Table.mem_insert hins, ClusterEpisodeRow.mk.injEq, List.mem_cons]
    simp only [MemberOf]
    tauto

/-- One new cluster: a row of its own unless it is absorbed, and its members. -/
theorem persistCluster_spec {absorptions : List AbsorbedCluster} {c : Cluster}
    (h : persistCluster s nowMs absorptions d c = .ok d') :
    (d'.semanticAbstractions = d.semanticAbstractions ∧ d'.triples = d.triples) ∧
      (∀ k, d.HasCluster k → d'.HasCluster k) ∧
      (∀ k m, d'.MemberOf k m ↔ d.MemberOf k m ∨ k = targetOf absorptions c ∧ m ∈ c.episodeIds) ∧
      (c.episodeIds ≠ [] → d'.HasCluster (targetOf absorptions c)) ∧
      ((∃ a ∈ absorptions, a.existingClusterId = targetOf absorptions c) ∨
        ¬ d.HasCluster (targetOf absorptions c)) := by
  unfold persistCluster at h
  split at h
  · next a ha =>
    have ht : targetOf absorptions c = a.existingClusterId := by simp only [targetOf, ha]
    rw [ht]
    obtain ⟨members, rfl, hmembers, htarget⟩ := insertMembers_eq_some (orStorage_eq_ok.1 h)
    exact ⟨⟨rfl, rfl⟩, fun _ hk => hk, hmembers, htarget,
      .inl ⟨a, List.mem_reverse.1 (List.mem_of_find?_eq_some ha), rfl⟩⟩
  · next hnone =>
    have ht : targetOf absorptions c = c.clusterId := by simp only [targetOf, hnone]
    rw [ht]
    obtain ⟨d₁, h₁, h⟩ := Result.bind_eq_ok.1 h
    have hins := orStorage_eq_ok.1 h₁
    simp only [insertCluster, Option.bind_eq_bind, Option.bind_eq_some_iff, Option.pure_def,
      Option.some.injEq] at hins
    obtain ⟨clusters, hins, rfl⟩ := hins
    obtain ⟨members, rfl, hmembers, -⟩ := insertMembers_eq_some (orStorage_eq_ok.1 h)
    refine ⟨⟨rfl, rfl⟩, ?_, hmembers, fun _ => ⟨_, (Table.mem_insert hins).2 (.inr rfl), rfl⟩,
      .inr ?_⟩
    · rintro k ⟨r, hr, hk⟩
      exact ⟨r, (Table.mem_insert hins).2 (.inl hr), hk⟩
    · rintro ⟨r, hr, hk⟩
      exact of_decide_eq_false (Table.insert?_fresh hins hr) hk

/-- The views after the first transaction: the new members sit where their clusters went, and the
clusters that absorbed have lost what was derived from them. -/
structure Persists (plan : ConsolidationPlan) (d d₁ : Derived) : Prop where
  cluster : ∀ c, d.HasCluster c → d₁.HasCluster c
  member : ∀ c m, d₁.MemberOf c m ↔
    d.MemberOf c m ∨ ∃ n ∈ plan.clusters, c = targetOf plan.absorptions n ∧ m ∈ n.episodeIds
  target : ∀ n ∈ plan.clusters, n.episodeIds ≠ [] → d₁.HasCluster (targetOf plan.absorptions n)
  fresh : ∀ n ∈
    plan.clusters, (∃ a ∈ plan.absorptions, a.existingClusterId = targetOf plan.absorptions n) ∨
    ¬ d.HasCluster (targetOf plan.absorptions n)
  derived : ∀ c, d₁.DerivedFrom c ↔ d.DerivedFrom c ∧ ∀ a ∈ plan.absorptions, a.existingClusterId ≠
    c

theorem persistClusters_spec {absorptions : List AbsorbedCluster} {cs : List Cluster}
    (h : cs.foldlM (persistCluster s nowMs absorptions) d = .ok d') :
    (d'.semanticAbstractions = d.semanticAbstractions ∧ d'.triples = d.triples) ∧
      (∀ k, d.HasCluster k → d'.HasCluster k) ∧
      (∀ k m, d'.MemberOf k m ↔ d.MemberOf k m ∨ ∃ n ∈ cs, k = targetOf absorptions n ∧
        m ∈ n.episodeIds) ∧
      (∀ n ∈ cs, n.episodeIds ≠ [] → d'.HasCluster (targetOf absorptions n)) ∧
      ∀ n ∈ cs, (∃ a ∈ absorptions, a.existingClusterId = targetOf absorptions n) ∨
        ¬ d.HasCluster (targetOf absorptions n) := by
  induction cs generalizing d with
  | nil =>
    cases h
    exact ⟨⟨rfl, rfl⟩, fun _ hk => hk, by simp, by simp, by simp⟩
  | cons c cs ih =>
    obtain ⟨d₁, h₁, h⟩ := Result.foldlM_cons_eq_ok.1 h
    obtain ⟨⟨hsa₁, ht₁⟩, hcl₁, hmem₁, htarget₁, hfresh₁⟩ := persistCluster_spec h₁
    obtain ⟨⟨hsa, ht⟩, hcl, hmem, htarget, hfresh⟩ := ih h
    refine ⟨⟨hsa.trans hsa₁, ht.trans ht₁⟩, fun k hk => hcl k (hcl₁ k hk), fun k m => ?_,
      fun n hn hne => ?_, fun n hn => ?_⟩
    · rw [hmem, hmem₁, List.exists_mem_cons_iff, or_assoc]
    · rcases List.mem_cons.1 hn with rfl | hn
      · exact hcl _ (htarget₁ hne)
      · exact htarget n hn hne
    · rcases List.mem_cons.1 hn with rfl | hn
      · exact hfresh₁
      · exact (hfresh n hn).imp_right fun hno hk => hno (hcl₁ _ hk)

theorem derivedFrom_refreshAbsorbed {a : AbsorbedCluster} {c : ClusterId} :
    (d.refreshAbsorbed a).DerivedFrom c ↔ d.DerivedFrom c ∧ a.existingClusterId ≠ c := by
  have hsa {r : AbstractionRow} : r ∈ (d.refreshAbsorbed a).semanticAbstractions ↔
      r ∈ d.semanticAbstractions ∧ r.clusterId ≠ a.existingClusterId := by
    exact Table.mem_deleteWhere.trans (and_congr_right' (by simp))
  have ht {t : TripleRow} : t ∈ (d.refreshAbsorbed a).triples ↔
      t ∈ d.triples ∧ t.clusterId ≠ some a.existingClusterId := by
    exact Table.mem_deleteWhere.trans (and_congr_right' (by simp))
  simp only [DerivedFrom, hsa, ht]
  constructor
  · rintro (⟨r, ⟨hr, hne⟩, rfl⟩ | ⟨t, ⟨ht, hne⟩, hc⟩)
    · exact ⟨.inl ⟨r, hr, rfl⟩, hne.symm⟩
    · exact ⟨.inr ⟨t, ht, hc⟩, fun heq => hne (heq ▸ hc)⟩
  · rintro ⟨⟨r, hr, rfl⟩ | ⟨t, ht, hc⟩, hne⟩
    · exact .inl ⟨r, ⟨hr, hne.symm⟩, rfl⟩
    · exact .inr ⟨t, ⟨ht, fun heq => hne (Option.some.inj (heq.symm.trans hc))⟩, hc⟩

theorem mem_lastPerExisting {absorptions : List AbsorbedCluster} {c : ClusterId} :
    (∃ a ∈ lastPerExisting absorptions, a.existingClusterId = c) ↔
    ∃ a ∈ absorptions, a.existingClusterId = c := by
  simp only [lastPerExisting, List.mem_filterMap, List.mem_insertionSort, List.mem_dedup,
    List.mem_map]
  constructor
  · rintro ⟨a, ⟨k, -, hfind⟩, hc⟩
    exact ⟨a, List.mem_reverse.1 (List.mem_of_find?_eq_some hfind), hc⟩
  · rintro ⟨a, ha, rfl⟩
    have hsome :
        (absorptions.reverse.find? (·.existingClusterId = a.existingClusterId)).isSome := by
      rw [List.find?_isSome]
      exact ⟨a, List.mem_reverse.2 ha, by simp⟩
    obtain ⟨b, hb⟩ := Option.isSome_iff_exists.1 hsome
    exact ⟨b, ⟨_, ⟨a, ha, rfl⟩, hb⟩, by simpa using List.find?_some hb⟩

theorem persistPlan_eq_ok {plan : ConsolidationPlan} (h : d.persistPlan s nowMs plan = .ok d₁) :
    Persists plan d d₁ := by
  obtain ⟨d₀, h₀, h⟩ := Result.bind_eq_ok.1 h
  rw [Result.pure_eq_ok] at h
  obtain ⟨⟨hsa, ht⟩, hcl, hmem, htarget, hfresh⟩ := persistClusters_spec h₀
  have hrefresh (as : List AbsorbedCluster) (d₀ : Derived) :
      (∀ c, (as.foldl refreshAbsorbed d₀).HasCluster c ↔ d₀.HasCluster c) ∧
      (as.foldl refreshAbsorbed d₀).clusterEpisodes = d₀.clusterEpisodes ∧
      ∀ c, (as.foldl refreshAbsorbed d₀).DerivedFrom c ↔ d₀.DerivedFrom c ∧
      ∀ a ∈ as, a.existingClusterId ≠ c := by
    induction as generalizing d₀ with
    | nil => simp
    | cons a as ih =>
      obtain ⟨h₁, h₂, h₃⟩ := ih (d₀.refreshAbsorbed a)
      refine ⟨fun c => (h₁ c).trans hasCluster_setCentroid, h₂, fun c => ?_⟩
      rw [List.foldl_cons, h₃, derivedFrom_refreshAbsorbed, List.forall_mem_cons, and_assoc]
  obtain ⟨hcl', hmem', hder'⟩ := hrefresh (lastPerExisting plan.absorptions) d₀
  rw [h] at hcl' hmem' hder'
  have hder₀ (c : ClusterId) : d₀.DerivedFrom c ↔ d.DerivedFrom c := by
    simp only [DerivedFrom, hsa, ht]
  refine ⟨fun c hc => (hcl' c).2 (hcl c hc), fun c m => ?_,
    fun n hn hne => (hcl' _).2 (htarget n hn hne), hfresh, fun c => ?_⟩
  · rw [MemberOf, hmem']
    exact hmem c m
  · rw [hder', hder₀]
    refine and_congr_right' ?_
    constructor
    · intro hall a ha hc
      obtain ⟨b, hb, hbc⟩ := mem_lastPerExisting.2 ⟨a, ha, hc⟩
      exact hall b hb hbc
    · intro hall a ha hc
      obtain ⟨b, hb, hbc⟩ := mem_lastPerExisting.1 ⟨a, ha, hc⟩
      exact hall b hb hbc

theorem ForeignKeys.persist (h : ForeignKeys d) {plan : ConsolidationPlan}
    (hp : Persists plan d d₁) : ForeignKeys d₁ := by
  constructor
  case member =>
    intro c m hm
    rcases (hp.member c m).1 hm with hm | ⟨n, hn, rfl, hmn⟩
    · exact hp.cluster c (h.member c m hm)
    · exact hp.target n hn (List.ne_nil_of_mem hmn)
  case derived => exact fun c hc => hp.cluster c (h.derived c ((hp.derived c).1 hc).1)

/-! ### The second transaction -/

/-- The members of each cluster `c` went to `g c`. -/
def MembersMoved (g : ClusterId → ClusterId) (d d' : Derived) : Prop :=
  ∀ c m, d'.MemberOf c m ↔ ∃ c₀, d.MemberOf c₀ m ∧ g c₀ = c

theorem MembersMoved.trans {g g' : ClusterId → ClusterId} (h : MembersMoved g d d₁)
    (h' : MembersMoved g' d₁ d') : MembersMoved (g' ∘ g) d d' := by
  intro c m
  rw [h']
  constructor
  · rintro ⟨c₁, hm, rfl⟩
    obtain ⟨c₀, hm₀, rfl⟩ := (h c₁ m).1 hm
    exact ⟨c₀, hm₀, rfl⟩
  · rintro ⟨c₀, hm, rfl⟩
    exact ⟨g c₀, (h _ m).2 ⟨c₀, hm, rfl⟩, rfl⟩

/-- Moving the members of a cluster; no member may be in both. -/
theorem moveMembers_spec {survivor loser : ClusterId} (h : moveMembers survivor d loser = some d') :
    (∃ members, d' = { d with clusterEpisodes := members }) ∧
      MembersMoved (fun c => if c = loser then survivor else c) d d' ∧
      (∀ m, d.MemberOf loser m → d.HasCluster survivor) ∧
      (survivor ≠ loser → ∀ m, d.MemberOf loser m → ¬ d.MemberOf survivor m) := by
  simp only [moveMembers, Option.bind_eq_bind, Option.bind_eq_some_iff, Option.pure_def,
    Option.some.injEq, Option.guard_eq_some', exists_const] at h
  obtain ⟨hguard, members, hmove, rfl⟩ := h
  refine ⟨⟨members, rfl⟩, fun c m => ?_, fun m hm => ?_, fun hne m hm hm' => ?_⟩
  · rw [MemberOf, Table.mem_rekeyWhere hmove]
    constructor
    · rintro ⟨⟨c₀, m₀⟩, hr, heq⟩
      by_cases hc : c₀ = loser
      · simp only [hc, decide_true, if_true, ClusterEpisodeRow.mk.injEq] at heq
        obtain ⟨rfl, rfl⟩ := heq
        exact ⟨c₀, hr, by simp [hc]⟩
      · simp only [hc, decide_false, Bool.false_eq_true, if_false, ClusterEpisodeRow.mk.injEq]
          at heq
        obtain ⟨rfl, rfl⟩ := heq
        exact ⟨c₀, hr, by simp [hc]⟩
    · rintro ⟨c₀, hr, rfl⟩
      refine ⟨⟨c₀, m⟩, hr, ?_⟩
      by_cases hc : c₀ = loser <;> simp [hc]
  · simp only [Bool.or_eq_true, Bool.not_eq_true', List.any_eq_false, decide_eq_true_eq] at hguard
    rcases hguard with hcl | hnone
    · simpa [clusterRef, HasCluster] using hcl
    · exact absurd rfl (hnone _ hm)
  · -- Both rows would become the same one.
    have hrow : ClusterEpisodeRow.mk survivor m ≠ ⟨loser, m⟩ := by simp [hne]
    have hfresh := Table.rekeyWhere?_fresh hmove hm' hm hrow
    simp [Keyed.clash, hne] at hfresh

/-- Dropping a cluster that exists. -/
theorem deleteCluster_spec (loser : ClusterId) :
    (∀ c, (d.deleteClusters (·.clusterId = loser)).HasCluster c ↔ d.HasCluster c ∧ c ≠ loser) ∧
      (∀ c m, (d.deleteClusters (·.clusterId = loser)).MemberOf c m ↔
        d.MemberOf c m ∧ ¬ (c = loser ∧ d.HasCluster loser)) ∧
      ∀ c, (d.deleteClusters (·.clusterId = loser)).DerivedFrom c ↔
        d.DerivedFrom c ∧ ¬ (c = loser ∧ d.HasCluster loser) := by
  have hgone (c : ClusterId) :
      (d.clusters.rows.any fun r => decide (r.clusterId = loser) && decide (r.clusterId = c)) =
      true ↔
        c = loser ∧ d.HasCluster loser := by
    simp only [List.any_eq_true, Bool.and_eq_true, decide_eq_true_eq, HasCluster]
    constructor
    · rintro ⟨r, hr, hl, rfl⟩
      exact ⟨hl, r, hr, hl⟩
    · rintro ⟨rfl, r, hr, hl⟩
      exact ⟨r, hr, hl, hl⟩
  refine ⟨fun c => ?_, fun c m => ?_, fun c => ?_⟩
  · simp only [HasCluster, deleteClusters, Table.mem_deleteWhere, decide_eq_false_iff_not]
    constructor
    · rintro ⟨r, ⟨hr, hne⟩, rfl⟩
      exact ⟨⟨r, hr, rfl⟩, hne⟩
    · rintro ⟨⟨r, hr, rfl⟩, hne⟩
      exact ⟨r, ⟨hr, hne⟩, rfl⟩
  · rw [← hgone c, Bool.not_eq_true]
    exact Table.mem_deleteWhere
  · have hsa {a : AbstractionRow} :
        a ∈ (d.deleteClusters (·.clusterId = loser)).semanticAbstractions ↔
        a ∈ d.semanticAbstractions ∧ ¬ (a.clusterId = loser ∧ d.HasCluster loser) := by
      rw [← hgone a.clusterId, Bool.not_eq_true]
      exact Table.mem_deleteWhere
    have ht {t : TripleRow} : t ∈ (d.deleteClusters (·.clusterId = loser)).triples ↔
        t ∈ d.triples ∧ ∀ k, t.clusterId = some k → ¬ (k = loser ∧ d.HasCluster loser) := by
      refine Table.mem_deleteWhere.trans (and_congr_right' ?_)
      rw [Option.any_eq_false]
      exact forall₂_congr fun k _ => by rw [← hgone k, Bool.not_eq_true]
    simp only [DerivedFrom, hsa, ht]
    constructor
    · rintro (⟨a, ⟨ha, hkept⟩, rfl⟩ | ⟨t, ⟨ht, hkept⟩, hc⟩)
      · exact ⟨.inl ⟨a, ha, rfl⟩, hkept⟩
      · exact ⟨.inr ⟨t, ht, hc⟩, hkept c hc⟩
    · rintro ⟨⟨a, ha, rfl⟩ | ⟨t, ht, hc⟩, hkept⟩
      · exact .inl ⟨a, ⟨ha, hkept⟩, rfl⟩
      · exact .inr ⟨t, ⟨ht, fun k hk => (Option.some.inj (hk.symm.trans hc)) ▸ hkept⟩, hc⟩

/-- Where the members of a cluster are after the merges. -/
def mergedInto (merges : List MergeOp) (c : ClusterId) : ClusterId :=
  match merges.find? (·.loserIds.contains c) with
  | some op => op.survivorId
  | none => c

/-- The views after merges: members of losers are with the survivors, and the losers are gone. -/
structure AppliesMerges (merges : List MergeOp) (d d' : Derived) : Prop where
  cluster : ∀ c, d'.HasCluster c ↔ d.HasCluster c ∧ ∀ op ∈ merges, c ∉ op.loserIds
  member : MembersMoved (mergedInto merges) d d'
  derived : ∀ c, d'.DerivedFrom c ↔ d.DerivedFrom c ∧ ∀ op ∈ merges, c ∉ op.loserIds
  apart : ∀ op ∈ merges, ∀ loser ∈ op.loserIds, ∀ m, d.MemberOf loser m →
    ¬ d.MemberOf op.survivorId m

theorem AppliesMerges.nil (d : Derived) : AppliesMerges [] d d :=
  ⟨by simp, fun c m => by simp [mergedInto], by simp, by simp⟩

theorem moveLosers_spec {survivor : ClusterId} {losers : List ClusterId}
    (hsurvivor : survivor ∉ losers) (h : losers.foldlM (moveMembers survivor) d = some d') :
    (∃ members, d' = { d with clusterEpisodes := members }) ∧
      MembersMoved (fun c => if c ∈ losers then survivor else c) d d' ∧
      (∀ loser ∈ losers, ∀ m, d.MemberOf loser m → d.HasCluster survivor) ∧
      (losers.Nodup → ∀ loser ∈ losers, ∀ m, d.MemberOf loser m → ¬ d.MemberOf survivor m) := by
  induction losers generalizing d with
  | nil =>
    obtain rfl := Option.some.inj h
    exact ⟨⟨_, rfl⟩, fun c m => by simp, by simp, by simp⟩
  | cons loser losers ih =>
    obtain ⟨hne, hsurvivor⟩ := not_or.1 (List.mem_cons.not.1 hsurvivor)
    rw [List.foldlM_cons, Option.bind_eq_bind, Option.bind_eq_some_iff] at h
    obtain ⟨d₁, h₁, h⟩ := h
    obtain ⟨⟨members₁, rfl⟩, hmem₁, hcl₁, hapart₁⟩ := moveMembers_spec h₁
    obtain ⟨⟨members, rfl⟩, hmem, hcl, hapart⟩ := ih hsurvivor h
    have hstay {c : ClusterId} {m : MemoryId} (hc : c ≠ loser) (hm : d.MemberOf c m) :
        Derived.MemberOf { d with clusterEpisodes := members₁ } c m :=
        (hmem₁ c m).2 ⟨c, hm, if_neg hc⟩
    refine ⟨⟨members, rfl⟩, ?_, fun l hl m hm => ?_, fun hnodup l hl m hm => ?_⟩
    · convert hmem₁.trans hmem using 1
      funext c
      by_cases hc : c = loser <;> simp [hc, hsurvivor]
    · by_cases hlm : l = loser
      · exact hcl₁ m (hlm ▸ hm)
      · exact hcl l ((List.mem_cons.1 hl).resolve_left hlm) m (hstay hlm hm)
    · obtain ⟨hloser, hnodup⟩ := List.nodup_cons.1 hnodup
      rcases List.mem_cons.1 hl with rfl | hl
      · exact hapart₁ hne m hm
      · exact fun hm' => hapart hnodup l hl m (hstay (fun heq => hloser (heq ▸ hl)) hm)
          (hstay hne hm')

theorem deleteLosers_spec (losers : List ClusterId) (d : Derived)
    (hlosers : ∀ l ∈ losers, d.HasCluster l) (hnodup : losers.Nodup) :
    let d' := losers.foldl (fun d loser => d.deleteClusters (·.clusterId = loser)) d
    (∀ c, d'.HasCluster c ↔ d.HasCluster c ∧ c ∉ losers) ∧
    (∀ c m, d'.MemberOf c m ↔ d.MemberOf c m ∧ c ∉ losers) ∧
      ∀ c, d'.DerivedFrom c ↔ d.DerivedFrom c ∧ c ∉ losers := by
  induction losers generalizing d with
  | nil => simp
  | cons loser losers ih =>
    obtain ⟨hloser, hnodup⟩ := List.nodup_cons.1 hnodup
    obtain ⟨hcl₁, hmem₁, hder₁⟩ := deleteCluster_spec (d := d) loser
    have hl : d.HasCluster loser := hlosers loser List.mem_cons_self
    obtain ⟨hcl, hmem, hder⟩ := ih (d.deleteClusters (·.clusterId = loser)) (fun l hl => (hcl₁ l).2
      ⟨hlosers l (List.mem_cons_of_mem _ hl), fun heq => hloser (heq ▸ hl)⟩) hnodup
    refine ⟨fun c => ?_, fun c m => ?_, fun c => ?_⟩
    · rw [List.foldl_cons, hcl, hcl₁, List.mem_cons, not_or, and_assoc]
    · rw [List.foldl_cons, hmem, hmem₁, List.mem_cons, not_or, and_assoc]
      simp [hl]
    · rw [List.foldl_cons, hder, hder₁, List.mem_cons, not_or, and_assoc]
      simp [hl]

/-- One entry: distinct losers, none of them the survivor, that exist. -/
theorem applyMerge_spec {op : MergeOp} (hsurvivor : op.survivorId ∉ op.loserIds)
    (hnodup : op.loserIds.Nodup)
    (hlosers : ∀ l ∈ op.loserIds, d.HasCluster l) (h : d.applyMerge op = some d') :
    AppliesMerges [op] d d' := by
  obtain ⟨d₁, h₁, h⟩ := Option.bind_eq_some_iff.1 h
  obtain ⟨⟨members, rfl⟩, hmem₁, -, hapart⟩ := moveLosers_spec hsurvivor h₁
  obtain rfl := Option.some.inj h
  obtain ⟨hcl, hmem, hder⟩ := deleteLosers_spec op.loserIds
    (setCentroid { d with clusterEpisodes := members }
      op.survivorId op.mergedCentroid op.mergedCoherence)
    (fun l hl => hasCluster_setCentroid.2 (hlosers l hl)) hnodup
  have hmerged (c : ClusterId) :
      mergedInto [op] c = if c ∈ op.loserIds then op.survivorId else c := by
    by_cases hc : c ∈ op.loserIds <;> simp [mergedInto, hc]
  refine ⟨fun c => ?_, fun c m => ?_, fun c => ?_, ?_⟩
  · rw [hcl, hasCluster_setCentroid, List.forall_mem_singleton]
    rfl
  · rw [hmem]
    refine (and_congr_left' (hmem₁ c m)).trans ?_
    simp only [hmerged]
    constructor
    · exact fun h => h.1
    · rintro ⟨c₀, hm, rfl⟩
      refine ⟨⟨c₀, hm, rfl⟩, ?_⟩
      split
      · exact hsurvivor
      · assumption
  · rw [hder, List.forall_mem_singleton]
    rfl
  · exact List.forall_mem_singleton.2 (hapart hnodup)

/-- The merges of a plan that names each cluster once. -/
theorem applyMerges_spec {merges : List MergeOp} (hnodup : (merges.flatMap MergeOp.ids).Nodup)
    (hlosers : ∀ op ∈ merges, ∀ l ∈ op.loserIds, d.HasCluster l)
    (h : merges.foldlM applyMerge d = some d') : AppliesMerges merges d d' := by
  induction merges generalizing d with
  | nil =>
    obtain rfl := Option.some.inj h
    exact .nil d
  | cons op merges ih =>
    rw [List.flatMap_cons, List.nodup_append'] at hnodup
    obtain ⟨hop, hrest, hdisjoint⟩ := hnodup
    obtain ⟨hsurvivor, hloserIds⟩ := List.nodup_cons.1 hop
    rw [List.foldlM_cons, Option.bind_eq_bind, Option.bind_eq_some_iff] at h
    obtain ⟨d₁, h₁, h⟩ := h
    have hone := applyMerge_spec hsurvivor hloserIds (hlosers op List.mem_cons_self) h₁
    -- What the first entry names, the others do not.
    have hother {c : ClusterId} (hc : c ∈ op.ids) {op' : MergeOp} (hop' : op' ∈ merges) :
        c ∉ op'.ids :=
      fun hc' => hdisjoint hc (List.mem_flatMap.2 ⟨op', hop', hc'⟩)
    have hlater {op' : MergeOp} (hop' : op' ∈ merges) {c : ClusterId} (hc : c ∈ op'.ids) :
        c ∉ op.loserIds :=
      fun hl => hother (List.mem_cons_of_mem _ hl) hop' hc
    have hstay {c : ClusterId} (hc : c ∉ op.loserIds) {m : MemoryId} (hm : d.MemberOf c m) :
        d₁.MemberOf c m :=
      (hone.member c m).2 ⟨c, hm, by simp [mergedInto, hc]⟩
    obtain ⟨hcl, hmem, hder, hapart⟩ :=
      ih hrest (fun op' hop' l hl => (hone.cluster l).2 ⟨hlosers op'
      (List.mem_cons_of_mem _ hop') l hl,
        List.forall_mem_singleton.2 (hlater hop' (List.mem_cons_of_mem _ hl))⟩) h
    refine ⟨fun c => ?_, ?_, fun c => ?_,
      List.forall_mem_cons.2 ⟨hone.apart op List.mem_cons_self, ?_⟩⟩
    · rw [hcl, hone.cluster, List.forall_mem_singleton, List.forall_mem_cons, and_assoc]
    · convert hone.member.trans hmem using 1
      funext c
      by_cases hc : c ∈ op.loserIds
      · have hnone : merges.find? (fun op' => decide (op.survivorId ∈ op'.loserIds)) = none := by
          rw [List.find?_eq_none]
          intro op' hop' hl
          exact hother List.mem_cons_self hop' (List.mem_cons_of_mem _ (of_decide_eq_true hl))
        simp [mergedInto, hc, hnone]
      · simp [mergedInto, hc]
    · rw [hder, hone.derived, List.forall_mem_singleton, List.forall_mem_cons, and_assoc]
    · intro op' hop' l hl m hm hm'
      exact hapart op' hop' l hl m (hstay (hlater hop' (List.mem_cons_of_mem _ hl)) hm)
        (hstay (hlater hop' List.mem_cons_self) hm')

/-! ### The plan of the second transaction -/

theorem mem_membersOf {c : ClusterId} {m : MemoryId} : m ∈ d.membersOf c ↔ d.MemberOf c m := by
  simp only [membersOf, List.mem_insertionSort, List.mem_map, List.mem_filter, decide_eq_true_eq]
  constructor
  · rintro ⟨r, ⟨hr, rfl⟩, rfl⟩
    exact hr
  · exact fun hm => ⟨_, ⟨hm, rfl⟩, rfl⟩

theorem mem_mergeableClusters {cutoff : Option Int} {dim : Nat} {x : ClusterRow × Embedding}
    (h : x ∈ d.mergeableClusters cutoff dim) : x.1 ∈ d.clusters ∧
    d.membersOf x.1.clusterId ≠ [] := by
  simp only [mergeableClusters, List.mem_filterMap, List.mem_insertionSort, Option.bind_eq_some_iff]
    at h
  obtain ⟨c, hc, e, -, h⟩ := h
  split at h
  · next hcond =>
    obtain rfl := Option.some.inj h
    exact ⟨hc, hcond.2.2.2⟩
  · cases h

theorem nodup_mergeableClusters {cutoff : Option Int} {dim : Nat} :
    ((d.mergeableClusters cutoff dim).map (·.1.clusterId)).Nodup := by
  have hsub : ((d.mergeableClusters cutoff dim).map (·.1.clusterId)).Sublist
      ((d.clusters.rows.insertionSort fun a b => a.clusterId ≤ b.clusterId).map (·.clusterId)) := by
    rw [mergeableClusters]
    induction d.clusters.rows.insertionSort fun a b => a.clusterId ≤ b.clusterId with
    | nil => exact .slnil
    | cons c cs ih =>
      rw [List.filterMap_cons, List.map_cons]
      split
      · exact ih.cons _
      · next x hx =>
        obtain ⟨e, -, hx⟩ := Option.bind_eq_some_iff.1 hx
        split at hx
        · obtain rfl := Option.some.inj hx
          exact ih.cons_cons _
        · cases hx
  refine hsub.nodup (((List.perm_insertionSort _ _).map _).nodup_iff.2 ?_)
  refine List.pairwise_map.2 (d.clusters.unique.imp fun {a b} hab => ?_)
  exact of_decide_eq_false hab

/-- The entries of the second plan name each cluster once, and each cluster they name has
members. -/
theorem planMerges_eq_ok {env : ConsolidateEnv} {plan : ConsolidationPlan} {cutoff : Option Int}
    {merges : List MergeOp} (h : planMerges env plan cutoff d = .ok merges) :
    (merges.flatMap MergeOp.ids).Nodup ∧ (∀ op ∈ merges, op.loserIds ≠ []) ∧
      ∀ c ∈ merges.flatMap MergeOp.ids, d.HasCluster c ∧ ∃ m, d.MemberOf c m := by
  have hnone : (([] : List MergeOp).flatMap MergeOp.ids).Nodup ∧
      (∀ op ∈ ([] : List MergeOp), op.loserIds ≠ []) ∧
      ∀ c ∈ ([] : List MergeOp).flatMap MergeOp.ids, d.HasCluster c ∧ ∃ m, d.MemberOf c m := by
    simp
  unfold planMerges at h
  split at h
  · exact Except.ok.inj h ▸ hnone
  dsimp only at h
  split at h
  · exact Except.ok.inj h ▸ hnone
  have hfull : ((d.fetchExistingClustersFull cutoff plan.expectedDim).map (·.clusterId)).Nodup := by
    rw [fetchExistingClustersFull, List.map_map]
    exact nodup_mergeableClusters
  obtain ⟨hnodup, hlosers, hids⟩ := computeMergePlan_ids hfull h
  refine ⟨hnodup, hlosers, fun id hid => ?_⟩
  obtain ⟨c, hc, rfl⟩ := hids id hid
  obtain ⟨x, hx, rfl⟩ := List.mem_map.1 hc
  obtain ⟨hrow, hne⟩ := mem_mergeableClusters hx
  obtain ⟨m, hm⟩ := List.exists_mem_of_ne_nil _ hne
  exact ⟨⟨x.1, hrow, rfl⟩, m, mem_membersOf.1 hm⟩

end Derived

end Solo
