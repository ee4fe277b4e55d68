import Solo.Derived.Coverage
import Solo.Derived.Erasure
import Solo.Derived.Reabstract
import Solo.Derived.Session
import Solo.Steward.Room

/-!
# Every memory in one cluster at most (`handle_consolidate_impl`)

A consolidation plans in memory what its transactions then write: new clusters of unassigned
episodes, the existing ones that absorb them, and the existing ones that merge. `Grouped`: members
belong to clusters that exist, each to one only, and no cluster is above the cap. The plans keep it,
over every order of the commands that write these tables.
-/

namespace Solo

namespace Derived

/-- The clusters divide their members, and none is above the cap. -/
structure Grouped (cap : Nat) (d : Derived) : Prop where
  cluster : ∀ c m, d.MemberOf c m → d.HasCluster c
  once : ∀ c c' m, d.MemberOf c m → d.MemberOf c' m → c = c'
  capped : ∀ c, (d.membersOf c).length ≤ cap

variable {s : Store} {d d₁ d' : Derived} {cap : Nat}

theorem nodup_membersOf (d : Derived) (c : ClusterId) : (d.membersOf c).Nodup := by
  refine (List.perm_insertionSort _ _).nodup_iff.2 (List.Nodup.map_on ?_ ?_)
  · intro a ha b hb heq
    obtain ⟨-, ha⟩ := List.mem_filter.1 ha
    obtain ⟨-, hb⟩ := List.mem_filter.1 hb
    have hc : a.clusterId = b.clusterId := (of_decide_eq_true ha).trans (of_decide_eq_true hb).symm
    obtain ⟨_, _⟩ := a
    obtain ⟨_, _⟩ := b
    exact ClusterEpisodeRow.mk.injEq .. ▸ ⟨hc, heq⟩
  · exact List.Nodup.filter _ (d.clusterEpisodes.unique.imp fun hab => of_decide_eq_false hab)

/-- A cluster is no larger than a list of all its members. -/
theorem length_membersOf_le {c : ClusterId} {l : List MemoryId} (h : ∀ m, d.MemberOf c m → m ∈ l) :
    (d.membersOf c).length ≤ l.length :=
  ((nodup_membersOf d c).subperm fun _ hm => h _ (mem_membersOf.1 hm)).length_le

/-! ### The plan -/

section Plan

variable {env : ConsolidateEnv} {hash : HashOrder} {newId : Nat → ClusterId} {embedderId : Nat}
  {cutoff : Option Int} {candidates : List ClusterInput} {plan : ConsolidationPlan}

/-- The candidates are rows of `episodes` without a cluster. -/
theorem mem_consolidateCandidates {x : ClusterInput}
    (h : x ∈ consolidateCandidates s d embedderId cutoff) :
    (∃ e ∈ s.episodes, e.memoryId = x.memoryId) ∧ ∀ c, ¬ d.MemberOf c x.memoryId := by
  simp only [consolidateCandidates, List.mem_filterMap, List.mem_insertionSort, List.mem_filter,
    Bool.and_eq_true, Bool.not_eq_true', List.any_eq_false, decide_eq_true_eq] at h
  obtain ⟨e, ⟨he, -, hfree⟩, h⟩ := h
  obtain ⟨em, -, rfl⟩ := Option.map_eq_some_iff.1 h
  exact ⟨⟨e, he, rfl⟩, fun c hm => hfree _ hm rfl⟩

theorem nodup_consolidateCandidates :
    ((consolidateCandidates s d embedderId cutoff).map (·.memoryId)).Nodup := by
  unfold consolidateCandidates
  refine (List.map_filterMap_sublist ?_ _).nodup
    (((List.perm_insertionSort _ _).map EpisodeRow.memoryId).nodup_iff.2 ?_)
  · intro e x hx
    obtain ⟨em, -, rfl⟩ := Option.map_eq_some_iff.1 hx
    rfl
  · refine (List.pairwise_map.2 (s.episodes.unique.imp fun {a b} hab heq => ?_)).sublist
      (List.filter_sublist.map _)
    simp [Keyed.clash, heq] at hab

/-- What the plan says, against the tables it was made from. -/
structure Planned (s : Store) (d : Derived) (newId : Nat → ClusterId) (cap : Nat)
    (plan : ConsolidationPlan) : Prop where
  ids : (plan.clusters.map (·.clusterId)).Nodup
  newIds : ∀ n ∈ plan.clusters, ∃ k, n.clusterId = newId k
  nodup : ∀ n ∈ plan.clusters, n.episodeIds.Nodup
  apart : plan.clusters.Pairwise Cluster.Apart
  free : ∀ n ∈ plan.clusters, ∀ m ∈ n.episodeIds, (∃ e ∈ s.episodes, e.memoryId = m) ∧
    ∀ c, ¬ d.MemberOf c m
  capped : ∀ n ∈ plan.clusters, n.episodeIds.length ≤ cap
  absorbed : ∀ a ∈ plan.absorptions, ∃ n ∈ plan.clusters, a.newClusterId = n.clusterId ∧
    a.absorbedEpisodeIds = n.episodeIds
  target : ∀ a ∈ plan.absorptions, d.HasCluster a.existingClusterId
  room : ∀ c, (d.membersOf c).length ≤ cap → (d.membersOf c).length + takenBy plan.absorptions c ≤
    cap

theorem planConsolidation_planned (hnew : newId.Injective)
    (h : planConsolidation env hash newId d embedderId cutoff
      (consolidateCandidates s d embedderId cutoff) = .ok plan)
    (hcap : plan.config.maxSize ≤ cap) : Planned s d newId cap plan := by
  obtain ⟨config, -, h⟩ := Result.bind_eq_ok.1 h
  obtain ⟨built, hbuilt, h⟩ := Result.bind_eq_ok.1 h
  obtain ⟨⟨clusters, merged⟩, hmerged, h⟩ := Result.bind_eq_ok.1 h
  obtain ⟨dim, -, h⟩ := Result.bind_eq_ok.1 h
  obtain ⟨absorptions, habsorbed, h⟩ := Result.bind_eq_ok.1 h
  rw [Result.pure_eq_ok] at h
  subst h
  have hbuiltIds := clusterIds_perm hbuilt
  have hids : (built.map (·.clusterId)).Nodup := hbuiltIds.nodup_iff.2 (List.nodup_range.map hnew)
  obtain ⟨hnodup, hapart⟩ :=
    List.nodup_flatMap.1 (nodup_episodeIds hbuilt nodup_consolidateCandidates)
  have hmerges :=
    mergeClustersByCentroid_apart hids hapart hnodup (fun c hc => length_built_le hbuilt hc) hmerged
  have hexisting : ((d.fetchExistingClusterSummaries cutoff dim).map (·.clusterId)).Nodup := by
    rw [fetchExistingClusterSummaries, List.map_map]
    exact nodup_mergeableClusters
  have hinto := absorbIntoExisting_into hexisting hcap habsorbed
  refine ⟨hmerges.ids.nodup hids, fun n hn => ?_, hmerges.nodup, hmerges.apart, fun n hn m hm => ?_,
    fun n hn => (hmerges.capped n hn).trans hcap, hinto.absorbed, fun a ha => ?_, fun c hc => ?_⟩
  · have hid := hbuiltIds.mem_iff.1 (hmerges.ids.subset (List.mem_map_of_mem hn))
    obtain ⟨k, -, hk⟩ := List.mem_map.1 hid
    exact ⟨k, hk.symm⟩
  · obtain ⟨c, hc, hmc⟩ := hmerges.episodes n hn m hm
    have hid := ((episodeIds_subperm hbuilt).trans (map_subperm allClusterable_subperm)).subset
      (List.mem_flatMap.2 ⟨c, hc, hmc⟩)
    obtain ⟨x, hx, rfl⟩ := List.mem_map.1 hid
    exact mem_consolidateCandidates hx
  · obtain ⟨summary, hsummary, hid⟩ := hinto.target a ha
    obtain ⟨x, hx, rfl⟩ := List.mem_map.1 hsummary
    exact ⟨x.1, (mem_mergeableClusters hx).1, hid⟩
  · by_cases hmem : ∃ summary ∈ d.fetchExistingClusterSummaries cutoff dim, summary.clusterId = c
    · obtain ⟨summary, hsummary, rfl⟩ := hmem
      obtain ⟨x, hx, rfl⟩ := List.mem_map.1 hsummary
      exact hinto.room _ hsummary hc
    · rw [takenBy_eq_zero fun a ha heq => hmem ?_]
      · exact hc
      · obtain ⟨summary, hsummary, hid⟩ := hinto.target a ha
        exact ⟨summary, hsummary, hid.trans heq⟩

end Plan

/-! ### The first transaction -/

section Persist

variable {newId : Nat → ClusterId} {plan : ConsolidationPlan}

/-- A new cluster goes to the existing one that absorbs it, or gets its own row. -/
theorem Planned.targetOf_cases (h : Planned s d newId cap plan) {n : Cluster}
    (hn : n ∈ plan.clusters) :
    (∃ a ∈ plan.absorptions, targetOf plan.absorptions n = a.existingClusterId ∧
      a.absorbedEpisodeIds = n.episodeIds) ∨ targetOf plan.absorptions n = n.clusterId := by
  unfold targetOf
  cases hfind : plan.absorptions.reverse.find? (·.newClusterId = n.clusterId) with
  | none => exact .inr rfl
  | some a =>
    have ha : a ∈ plan.absorptions := List.mem_reverse.1 (List.mem_of_find?_eq_some hfind)
    have hid : a.newClusterId = n.clusterId := by simpa using List.find?_some hfind
    obtain ⟨n', hn', hid', heq⟩ := h.absorbed a ha
    obtain rfl := List.inj_on_of_nodup_map h.ids hn' hn (hid'.symm.trans hid)
    exact .inl ⟨a, ha, rfl, heq⟩

/-- New clusters with an episode in common are the same. -/
theorem Planned.eq_of_mem (h : Planned s d newId cap plan) {n n' : Cluster} (hn : n ∈ plan.clusters)
    (hn' : n' ∈ plan.clusters) {m : MemoryId} (hm : m ∈ n.episodeIds) (hm' : m ∈ n'.episodeIds) :
    n = n' := by
  by_contra hne
  have hsymm : Std.Symm Cluster.Apart := ⟨fun _ _ => Cluster.Apart.symm⟩
  exact h.apart.forall hn hn' hne hm hm'

theorem Grouped.persist (h : Grouped cap d) (hplan : Planned s d newId cap plan)
    (hfresh : ∀ k, ¬ d.HasCluster (newId k)) (hp : Persists plan d d₁) : Grouped cap d₁ := by
  constructor
  case cluster =>
    intro c m hm
    rcases (hp.member c m).1 hm with hm | ⟨n, hn, rfl, hmn⟩
    · exact hp.cluster c (h.cluster c m hm)
    · exact hp.target n hn (List.ne_nil_of_mem hmn)
  case once =>
    intro c c' m hm hm'
    rcases (hp.member c m).1 hm with hm | ⟨n, hn, rfl, hmn⟩ <;>
      rcases (hp.member c' m).1 hm' with hm' | ⟨n', hn', rfl, hmn'⟩
    · exact h.once c c' m hm hm'
    · exact absurd hm ((hplan.free n' hn' m hmn').2 c)
    · exact absurd hm' ((hplan.free n hn m hmn).2 c')
    · rw [hplan.eq_of_mem hn hn' hmn hmn']
  case capped =>
    intro c
    by_cases hc : d.HasCluster c
    · -- Only absorptions add to a cluster that was there.
      have hcover (m : MemoryId) (hm : d₁.MemberOf c m) :
          m ∈ d.membersOf c ++
          (plan.absorptions.filter (·.existingClusterId = c)).flatMap (·.absorbedEpisodeIds) := by
        rcases (hp.member c m).1 hm with hm | ⟨n, hn, rfl, hmn⟩
        · exact List.mem_append_left _ (mem_membersOf.2 hm)
        · rcases hplan.targetOf_cases hn with ⟨a, ha, heq, hids⟩ | heq
          · refine List.mem_append_right _
              (List.mem_flatMap.2 ⟨a, List.mem_filter.2 ⟨ha, ?_⟩, hids ▸ hmn⟩)
            exact decide_eq_true heq.symm
          · obtain ⟨k, hk⟩ := hplan.newIds n hn
            exact absurd (hk ▸ heq ▸ hc) (hfresh k)
      have hlen := length_membersOf_le hcover
      rw [List.length_append, List.length_flatMap] at hlen
      exact hlen.trans (hplan.room c (h.capped c))
    · have hnone (m : MemoryId) : ¬ d.MemberOf c m := fun hm => hc (h.cluster c m hm)
      have hnew {m : MemoryId} (hm : d₁.MemberOf c m) : ∃ n ∈ plan.clusters, n.clusterId = c ∧
          m ∈ n.episodeIds := by
        obtain ⟨n, hn, rfl, hmn⟩ := ((hp.member c m).1 hm).resolve_left (hnone m)
        rcases hplan.targetOf_cases hn with ⟨a, ha, heq, -⟩ | heq
        · exact absurd (heq ▸ hplan.target a ha) hc
        · exact ⟨n, hn, heq.symm, hmn⟩
      by_cases hany : ∃ n ∈ plan.clusters, n.clusterId = c
      · obtain ⟨n, hn, rfl⟩ := hany
        refine (length_membersOf_le fun m hm => ?_).trans (hplan.capped n hn)
        obtain ⟨n', hn', hid, hmn⟩ := hnew hm
        rwa [← List.inj_on_of_nodup_map hplan.ids hn' hn hid]
      · have hempty : d₁.membersOf c = [] := List.eq_nil_iff_forall_not_mem.2 fun m hm => by
          obtain ⟨n, hn, hid, -⟩ := hnew (mem_membersOf.1 hm)
          exact hany ⟨n, hn, hid⟩
        exact hempty ▸ Nat.zero_le cap

end Persist

/-! ### The second transaction -/

section Merge

variable {env : ConsolidateEnv} {plan : ConsolidationPlan} {cutoff : Option Int}
  {merges : List MergeOp}

theorem exists_mem_groups {cfg : StewardConfig} {groups : List (List Cluster)}
    (h : List.Forall₂ (Merges cfg) merges groups) {op : MergeOp} (hop : op ∈ merges) :
    ∃ group ∈ groups, Merges cfg op group := by
  induction h with
  | nil => cases hop
  | cons hhead _ ih =>
    rcases List.mem_cons.1 hop with rfl | hop
    · exact ⟨_, List.mem_cons_self, hhead⟩
    · obtain ⟨group, hgroup, hmerges⟩ := ih hop
      exact ⟨group, List.mem_cons_of_mem _ hgroup, hmerges⟩

/-- The clusters of one entry have no more members together than the configured cap. -/
theorem planMerges_capped (h : planMerges env plan cutoff d = .ok merges) {op : MergeOp}
    (hop : op ∈ merges) : (op.ids.flatMap d.membersOf).length ≤ plan.config.maxSize := by
  unfold planMerges at h
  split at h
  · cases Except.ok.inj h
    cases hop
  dsimp only at h
  split at h
  · cases Except.ok.inj h
    cases hop
  obtain ⟨groups, hsub, hall⟩ := computeMergePlan_eq_ok h
  obtain ⟨group, hgroup, hmerges⟩ := exists_mem_groups hall hop
  have hepisodes (c : Cluster) (hc : c ∈ group) : c.episodeIds = d.membersOf c.clusterId := by
    obtain ⟨x, -, rfl⟩ := List.mem_map.1 (hsub.subset (List.mem_flatten_of_mem hgroup hc))
    rfl
  obtain ⟨survivor, losers, hperm, -, hsurvivor, hlosers⟩ := hmerges.members
  have hids : op.ids = (survivor :: losers).map (·.clusterId) := by
    rw [MergeOp.ids, hsurvivor, hlosers, List.map_cons]
  rw [hids, List.flatMap_map, List.length_flatMap, ← ((hperm.map _).sum_eq),
    List.map_congr_left fun c hc => by rw [← hepisodes c hc]]
  exact hmerges.capped

theorem Grouped.merge (h : Grouped cap d) (hplan : planMerges env plan cutoff d = .ok merges)
    (hcap : plan.config.maxSize ≤ cap) (hm : AppliesMerges merges d d') : Grouped cap d' := by
  obtain ⟨hnodup, -, hids⟩ := planMerges_eq_ok hplan
  constructor
  case cluster =>
    intro c m hmem
    obtain ⟨c₀, hm₀, rfl⟩ := (hm.member c m).1 hmem
    rcases mergedInto_cases hnodup c₀ with ⟨heq, hkept⟩ | ⟨op, hop, -, heq⟩
    · exact heq.symm ▸ (hm.cluster c₀).2 ⟨h.cluster c₀ m hm₀, hkept⟩
    · refine heq.symm ▸ (hm.cluster _).2
        ⟨?_, fun op' hop' => survivor_not_mem_losers hnodup hop hop'⟩
      exact (hids _ (List.mem_flatMap.2 ⟨op, hop, List.mem_cons_self⟩)).1
  case once =>
    intro c c' m hc hc'
    obtain ⟨c₀, hm₀, rfl⟩ := (hm.member c m).1 hc
    obtain ⟨c₀', hm₀', rfl⟩ := (hm.member c' m).1 hc'
    rw [h.once c₀ c₀' m hm₀ hm₀']
  case capped =>
    intro c
    by_cases hc : ∃ op ∈ merges, op.survivorId = c
    · obtain ⟨op, hop, rfl⟩ := hc
      refine (length_membersOf_le fun m hmem => ?_).trans ((planMerges_capped hplan hop).trans hcap)
      obtain ⟨c₀, hm₀, hc₀⟩ := (hm.member _ m).1 hmem
      refine List.mem_flatMap.2 ⟨c₀, ?_, mem_membersOf.2 hm₀⟩
      rcases mergedInto_cases hnodup c₀ with ⟨heq, -⟩ | ⟨op', hop', hl, heq⟩
      · exact heq.symm.trans hc₀ ▸ List.mem_cons_self
      · have hsame : op'.survivorId ∈ op.ids := heq.symm.trans hc₀ ▸ List.mem_cons_self
        obtain rfl := op_eq_of_mem_ids hnodup hop' hop List.mem_cons_self hsame
        exact List.mem_cons_of_mem _ hl
    · refine (length_membersOf_le fun m hmem => ?_).trans (h.capped c)
      obtain ⟨c₀, hm₀, rfl⟩ := (hm.member c m).1 hmem
      rcases mergedInto_cases hnodup c₀ with ⟨heq, -⟩ | ⟨op, hop, -, heq⟩
      · rw [heq]
        exact mem_membersOf.2 hm₀
      · exact absurd ⟨op, hop, heq.symm⟩ hc

end Merge

/-- What a consolidation needs of its environment: ids that are new, and a configuration below the
cap. -/
structure ConsolidatesFresh (cap : Nat) (env : ConsolidateEnv) (newId : Nat → ClusterId)
    (d : Derived) : Prop where
  injective : newId.Injective
  fresh : ∀ k, ¬ d.HasCluster (newId k)
  capped : ∀ cfg, env.steward.elim env.envConfig .ok = .ok cfg → cfg.maxSize ≤ cap

theorem config_of_planConsolidation {env : ConsolidateEnv} {hash : HashOrder}
    {newId : Nat → ClusterId} {embedderId : Nat}
    {cutoff : Option Int} {candidates : List ClusterInput} {plan : ConsolidationPlan}
    (h : planConsolidation env hash newId d embedderId cutoff candidates = .ok plan) :
    env.steward.elim env.envConfig .ok = .ok plan.config := by
  obtain ⟨config, hconfig, h⟩ := Result.bind_eq_ok.1 h
  obtain ⟨built, -, h⟩ := Result.bind_eq_ok.1 h
  obtain ⟨⟨clusters, merged⟩, -, h⟩ := Result.bind_eq_ok.1 h
  obtain ⟨dim, -, h⟩ := Result.bind_eq_ok.1 h
  obtain ⟨absorptions, -, h⟩ := Result.bind_eq_ok.1 h
  rw [Result.pure_eq_ok] at h
  subst h
  exact hconfig

theorem Grouped.consolidate (h : Grouped cap d) {env : ConsolidateEnv} {newId : Nat → ClusterId}
    (henv : ConsolidatesFresh cap env newId d) (s : Store) (nowMs : Int) (hash : HashOrder)
    (scope : ConsolidationScope) :
    Grouped cap (d.handleConsolidate env s nowMs hash newId scope).1 := by
  obtain heq | ⟨embedderId, plan, d₁, -, hplan, h₁, hrest⟩ :=
    handleConsolidate_cases env s nowMs hash newId d scope
  · rw [heq]
    exact h
  have hcap := henv.capped _ (config_of_planConsolidation hplan)
  have hplanned := planConsolidation_planned henv.injective hplan hcap
  have hgrouped := h.persist hplanned henv.fresh (persistPlan_eq_ok h₁)
  obtain heq | ⟨merges, hmerges, h₂⟩ := hrest
  · rw [heq]
    exact hgrouped
  · obtain ⟨hnodup, -, hids⟩ := planMerges_eq_ok hmerges
    refine hgrouped.merge hmerges hcap
      (applyMerges_spec hnodup (fun op hop l hl => ?_) (orStorage_eq_ok.1 h₂))
    exact (hids l (List.mem_flatMap.2 ⟨op, hop, List.mem_cons_of_mem _ hl⟩)).1

/-! ### The other commands -/

section Commands

variable {nowMs : Int}

theorem SameClusters.refl (d : Derived) : SameClusters d d := ⟨rfl, rfl⟩

theorem SameClusters.trans (h : SameClusters d d₁) (h' : SameClusters d₁ d') : SameClusters d d' :=
  ⟨h'.1.trans h.1, h'.2.trans h.2⟩

theorem Grouped.same (h : Grouped cap d) (hsame : SameClusters d d') : Grouped cap d' := by
  obtain ⟨hclusters, hmembers⟩ := hsame
  have hcluster (c : ClusterId) : d'.HasCluster c ↔ d.HasCluster c := by
    simp only [HasCluster, hclusters]
  have hmember (c : ClusterId) (m : MemoryId) : d'.MemberOf c m ↔ d.MemberOf c m := by
    simp only [MemberOf, hmembers]
  refine ⟨fun c m hm => (hcluster c).2 (h.cluster c m ((hmember c m).1 hm)), fun c c' m hm hm' =>
    h.once c c' m ((hmember c m).1 hm) ((hmember c' m).1 hm'), fun c => ?_⟩
  rw [membersOf, hmembers]
  exact h.capped c

theorem Grouped.of_subset (h : Grouped cap d) (hclusters : d'.clusters = d.clusters)
    (hmembers : ∀ c m, d'.MemberOf c m → d.MemberOf c m) : Grouped cap d' := by
  refine ⟨fun c m hm => ?_, fun c c' m hm hm' => h.once c c' m (hmembers c m hm)
    (hmembers c' m hm'), fun c => ?_⟩
  · rw [HasCluster, hclusters]
    exact h.cluster c m (hmembers c m hm)
  · exact (length_membersOf_le fun m hm => mem_membersOf.2 (hmembers c m hm)).trans (h.capped c)

theorem sameClusters_attachCluster (st : Derived × AttachReport) (a : SemanticAbstraction) :
    SameClusters st.1 (attachCluster s nowMs st a).1 := by
  unfold attachCluster
  split
  · next d₁ hd₁ => exact (attachAbstraction_frame hd₁).1
  · exact .refl _

theorem sameClusters_attachAbstractionBatch {deferred : Nat}
    {items : List (ClusterId × SemanticAbstraction)}
    {report : AttachReport}
    (h : d.handleAttachAbstractionBatch s nowMs deferred items = .ok (d', report)) :
    SameClusters d d' := by
  unfold handleAttachAbstractionBatch at h
  split at h
  · cases h
  · have hfold :=
      List.foldlRecOn (motive := fun st => SameClusters d st.1) (items.map Prod.snd)
      (attachCluster s nowMs)
      (b := (d, ⟨0, 0, 0, 0, deferred⟩)) (.refl d) fun st hst a _ =>
      hst.trans (sameClusters_attachCluster st a)
    rwa [Except.ok.inj h] at hfold

theorem sameClusters_insertActiveTriple {t : ActiveTriple} {c : Option ClusterId}
    {src : Option Rowid} {prov : Provenance}
    (h : d.insertActiveTriple s nowMs t c src prov = some d') : SameClusters d d' := by
  obtain ⟨_, _, _, _, _, -, -, rfl⟩ := insertActiveTriple_eq_some h
  exact .refl _

theorem sameClusters_promote {newId : String} {row : ReviewRow}
    (h : d.promoteMemoryQualityReview s nowMs newId row = .ok d') : SameClusters d d' := by
  obtain ⟨active, -, h⟩ := Result.bind_eq_ok.1 h
  split at h
  · obtain ⟨-, -, h⟩ := Result.bind_eq_ok.1 h
    obtain ⟨d₁, h₁, h₂⟩ := Option.bind_eq_some_iff.1 (orStorage_eq_ok.1 h)
    obtain ⟨entities, rfl⟩ := upsertEntitiesForActiveTriple_eq_some h₁
    obtain ⟨edges, evidence, rfl⟩ := upsertRelationshipEdge_eq_some h₂
    exact .refl _
  · exact sameClusters_insertActiveTriple (orStorage_eq_ok.1 h)

theorem sameClusters_rewritten {newId : String} {row : ReviewRow} {r : ReviewRewrite}
    (h : d.insertRewrittenMemoryQualityFact s nowMs newId row r = .ok d') : SameClusters d d' := by
  obtain ⟨active, -, h⟩ := Result.bind_eq_ok.1 h
  split at h
  · cases h
  · exact sameClusters_insertActiveTriple (orStorage_eq_ok.1 h)

theorem sameClusters_applyReviewDecision {newId : Nat → String} {row : ReviewRow} {u : ReviewUpdate}
    (h : d.applyReviewDecision s nowMs newId row u = .ok d') : SameClusters d d' := by
  unfold applyReviewDecision at h
  split at h
  · exact sameClusters_promote h
  · split at h
    · cases h
    · exact Result.foldlM_invariant (SameClusters d)
        (fun r _ d₁ d₂ h₁ hr => h₁.trans (sameClusters_rewritten hr)) (.refl d) h
  · exact Except.ok.inj h ▸ .refl d
  · exact Except.ok.inj h ▸ .refl d

theorem sameClusters_reviewUpdate {newId : Nat → String} {u : ReviewUpdate} {row : ReviewRow}
    (h : d.handleMemoryQualityReviewUpdate s nowMs newId u = .ok (d', row)) :
    SameClusters d d' := by
  obtain ⟨row', -, ⟨-, rfl⟩ | ⟨-, -, d₁, h₁, h₂⟩⟩ := handleMemoryQualityReviewUpdate_cases h
  · exact .refl d
  · obtain ⟨claims, rfl, -⟩ := updateMemoryClaimForReview_eq_some h₂
    have hdecided : SameClusters d d₁ := sameClusters_applyReviewDecision h₁
    exact hdecided

theorem sameClusters_runQualityRepair
    {work : List (TripleRow × TripleQualityReviewReason) × List TripleRow}
    (h : d.runQualityRepair s nowMs work = .ok d') : SameClusters d d' := by
  have hrewrites : SameClusters d (work.2.foldl rewriteToLiteral d) :=
    List.foldlRecOn (motive := SameClusters d) work.2 rewriteToLiteral (.refl d) fun d₁ h₁ t _ => h₁
  refine Result.foldlM_invariant (SameClusters d) (fun q _ d₁ d₂ h₁ hq => ?_) hrewrites h
  obtain ⟨d₂', h₂, hq⟩ := Result.bind_eq_ok.1 hq
  obtain ⟨d₃, h₃, hq⟩ := Result.bind_eq_ok.1 hq
  obtain ⟨reviews, -, rfl⟩ := upsertReview_eq_some (orStorage_eq_ok.1 h₂)
  obtain ⟨claims, -, rfl⟩ := upsertClaim_eq_some (orStorage_eq_ok.1 h₃)
  rw [Result.pure_eq_ok] at hq
  subst hq
  exact h₁

theorem Grouped.repair (h : Grouped cap d) {scope : RepairScope} {report : RepairReport}
    (hr : d.handleRepairDerived s nowMs scope = .ok (d', report)) : Grouped cap d' := by
  unfold handleRepairDerived at hr
  split at hr
  · cases hr
  split at hr
  · obtain rfl : (d.repairStaleAbstractions scope).1 = d' := congrArg Prod.fst (Except.ok.inj hr)
    unfold repairStaleAbstractions
    split
    · exact h
    · exact h.same
        (List.foldlRecOn (motive := SameClusters d) _ repairStaleCluster (.refl d) fun d₁ h₁ c _ =>
          h₁)
  · unfold repairActiveTripleQuality at hr
    dsimp only at hr
    split at hr
    · obtain ⟨rfl, -⟩ := Prod.mk.inj (Except.ok.inj hr)
      exact h
    · obtain ⟨d₁, h₁, hr⟩ := Result.bind_eq_ok.1 hr
      rw [Result.pure_eq_ok, Prod.mk.injEq] at hr
      exact hr.1 ▸ h.same (sameClusters_runQualityRepair h₁)
  · obtain rfl : (d.rebuildAllDerived scope).1 = d' := congrArg Prod.fst (Except.ok.inj hr)
    unfold rebuildAllDerived
    dsimp only
    split
    · exact h
    · have hnone (c : ClusterId) (m : MemoryId) :
          ¬ MemberOf { empty with memoryClaims := d.memoryClaims } c m :=
        Table.not_mem_empty
      exact ⟨fun c m hm => absurd hm (hnone c m), fun c c' m hm => absurd hm (hnone c m),
        fun c => Nat.zero_le cap⟩

theorem sameClusters_normalizeSubjects (d : Derived) (aliases : List (String × String))
    (dryRun : Bool) : SameClusters d (d.handleNormalizeSubjects aliases dryRun).1 := by
  have hfold : SameClusters d (aliases.foldl normalizeStep (d, 0, 0)).1 :=
    List.foldlRecOn (motive := fun st : Derived × Nat × Nat => SameClusters d st.1)
      aliases normalizeStep (.refl d) fun _ hst _ _ => hst
  unfold handleNormalizeSubjects
  cases dryRun
  · exact hfold
  · exact .refl d

theorem Grouped.step (h : Grouped cap d) {e : DerivedEvent}
    (he : ∀ env hash scope, e.command = .consolidate env hash scope →
      ConsolidatesFresh cap env e.newId d) :
    Grouped cap (Derived.step s d e) := by
  have hcommitted {α : Type} {r : Except Error (Derived × α)}
      (hr : ∀ d' a, r = .ok (d', a) → Grouped cap d') : Grouped cap (d.committed r) := by
    cases r with
    | error => exact h
    | ok x => exact hr x.1 x.2 rfl
  unfold Derived.step
  cases hc : e.command with
  | attachAbstractionBatch deferred items =>
    exact hcommitted fun d' _ hr => h.same (sameClusters_attachAbstractionBatch hr)
  | updateMemoryQualityReview u =>
    exact hcommitted fun d' _ hr => h.same (sameClusters_reviewUpdate hr)
  | repairDerived scope => exact hcommitted fun d' _ hr => h.repair hr
  | normalizeSubjects aliases dryRun =>
    exact h.same (sameClusters_normalizeSubjects d aliases dryRun)
  | consolidate env hash scope => exact h.consolidate (he env hash scope hc) s e.nowMs hash scope

end Commands

end Derived

/-! ### Sessions -/

/-- What happens to a database: a command on the derived tables, a write to the rows they are
derived from, or the erasure of a principal. -/
inductive DatabaseEvent
  | derived (e : DerivedEvent)
  | write (store : Store)
  | erase (principal : String) (fails : BlobPath → Bool)

namespace Database

def step (db : Database) : DatabaseEvent → Database
  | .derived e => { db with derived := db.derived.step db.store e }
  | .write store => { db with store := store }
  | .erase principal fails => (db.erase principal fails).1

/-- The ids of a consolidation are new, and its configuration is below the cap. -/
def Fresh (cap : Nat) (db : Database) : DatabaseEvent → Prop
  | .derived e => ∀ env hash scope, e.command = .consolidate env hash scope →
      Derived.ConsolidatesFresh cap env e.newId db.derived
  | .write _ | .erase _ _ => True

variable {cap : Nat} {db : Database}

theorem grouped_eraseRows (h : db.derived.Grouped cap) (p : String) :
    (db.eraseRows p).derived.Grouped cap :=
  h.of_subset rfl fun _ _ hm => (Table.mem_deleteWhere.1 hm).1

theorem grouped_erase (h : db.derived.Grouped cap) (p : String) (fails : BlobPath → Bool) :
    (db.erase p fails).1.derived.Grouped cap := by
  unfold erase
  split
  · exact h
  split
  · exact h
  split
  · exact h
  · exact grouped_eraseRows h p

theorem grouped_step (h : db.derived.Grouped cap) {e : DatabaseEvent} (he : Fresh cap db e) :
    (db.step e).derived.Grouped cap := by
  cases e with
  | derived e => exact h.step he
  | write store => exact h
  | erase p fails => exact grouped_erase h p fails

/-- In every state of a session, every memory is in one cluster at most, and no cluster is above the
cap. -/
theorem grouped_always (h : db.derived.Grouped cap) {es : List DatabaseEvent}
    (hes : Run.Guarded step (Fresh cap) db es) :
    Run.Always step (fun db => db.derived.Grouped cap) db es :=
  hes.always (fun db => db.derived.Grouped cap) (fun _ _ h he => grouped_step h he) (fun _ h => h) h

end Database

namespace TwoAlike

def config : StewardConfig := ⟨2, 3, 0.9, Nat.two_pos⟩

def env : ConsolidateEnv := ⟨some 1, some 1, some config, .ok config⟩

def ids (k : Nat) : ClusterId := String.ofList (List.replicate (k + 1) 'k')

/-- Two episodes of one day with the same vector. -/
def store : Store := { Store.empty with
  episodes := (Table.single ⟨⟨1, Rowid.one_lt⟩, "a", 0, .hot, .active, none⟩).insertOrIgnore
    ⟨⟨2, Rowid.two_lt⟩, "b", 1, .hot, .active, some "p"⟩
  embeddings := (Table.single ⟨"a", 1, .f32, 1, [0, 0, 128, 63]⟩).insertOrIgnore
    ⟨"b", 1, .f32, 1, [0, 0, 128, 63]⟩ }

def empty : Database :=
  ⟨.empty, .empty, ⟨.empty, fun _ => none⟩, .empty, .empty, .empty, .empty, .empty⟩

def keysOrder : HashOrder := ⟨fun _ keys => keys, fun _ _ => .refl _⟩

def session : List DatabaseEvent :=
  [.write store, .derived ⟨2, ids, .consolidate env keysOrder ⟨none, false⟩⟩,
    .erase "p" fun _ => false]

theorem ids_injective : ids.Injective := by
  intro j k h
  have hlen := congrArg List.length (String.ofList_injective h)
  rw [List.length_replicate, List.length_replicate] at hlen
  exact Nat.succ.inj hlen

theorem session_guarded : Run.Guarded Database.step (Database.Fresh 3) empty session := by
  refine ⟨trivial, fun env' hash scope h => ?_, trivial, trivial⟩
  obtain ⟨rfl, -, -⟩ := DerivedCommand.consolidate.inj h
  refine ⟨ids_injective, fun k => ?_, fun cfg hcfg => ?_⟩
  · rintro ⟨r, hr, -⟩
    exact Table.not_mem_empty hr
  · obtain rfl := Except.ok.inj hcfg
    exact Nat.le_refl 3

theorem empty_grouped : empty.derived.Grouped 3 :=
  ⟨fun _ _ hm => absurd hm Table.not_mem_empty, fun _ _ _ hm => absurd hm Table.not_mem_empty,
    fun _ => Nat.zero_le 3⟩

end TwoAlike

open TwoAlike in
/-- A cluster of both, and of one after the erasure. -/
theorem grouped_always_twoAlike :
    ((Run.run Database.step empty (session.take 2)).derived.membersOf "k" = ["a", "b"] ∧
      (Run.run Database.step empty session).derived.membersOf "k" = ["a"]) ∧
      Run.Always Database.step (fun db => db.derived.Grouped 3) empty session :=
  ⟨by decide +kernel, Database.grouped_always empty_grouped session_guarded⟩

end Solo
