import Solo.Steward.Absorb
import Solo.Steward.Clusters
import Solo.Steward.MergeKeeps

/-!
# The new clusters of a consolidation and the room they take

What is clustered, merged and absorbed before anything is written: new clusters keep ids of their
own, share no episode and stay below the cap, and an existing cluster is never given more than it
has room for.
-/

namespace Solo

variable {cosine : List Float32 → List Float32 → Float32} {cfg : StewardConfig}

/-! ### Built clusters -/

section Built

variable {hash : HashOrder} {newId : Nat → MemoryId} {inputs : List ClusterInput}
  {clusters : List Cluster}

theorem clusterIds_perm (h : clusterEpisodes cosine cfg hash newId inputs = .ok clusters) :
    (clusters.map (·.clusterId)).Perm ((List.range clusters.length).map newId) := by
  obtain ⟨dim, rfl⟩ := clusterEpisodes_eq_ok h
  refine ((List.perm_insertionSort _ _).map _).trans (.of_eq ?_)
  rw [List.length_insertionSort, List.length_map, List.length_zipIdx, List.map_map,
    List.range_eq_range',
    ← List.zipIdx_map_snd 0 (memberLists cosine cfg hash inputs), List.map_map]
  rfl

theorem length_built_le (h : clusterEpisodes cosine cfg hash newId inputs = .ok clusters)
    {c : Cluster} (hc : c ∈ clusters) : c.episodeIds.length ≤ cfg.maxSize := by
  obtain ⟨day, members, hmembers, hperm⟩ := members_of_mem_clusters h hc
  rw [hperm.length_eq, List.length_map]
  exact (mem_dayComponents hmembers).2.2

end Built

/-! ### Merged clusters -/

section Merged

variable {clusters out : List Cluster} {merges : List MergeOp} {absorbed : Nat}

theorem afterMerges_clusterId {c c' : Cluster} (h : afterMerges merges c = some c') :
    c'.clusterId = c.clusterId := by
  unfold afterMerges at h
  split at h
  · cases h
  cases hfind : merges.reverse.find? (·.survivorId = c.clusterId) with
  | none =>
    rw [hfind] at h
    rw [← Option.some.inj h]
  | some op =>
    rw [hfind] at h
    rw [← Option.some.inj h]
    have hsame : op.survivorId = c.clusterId := by simpa using List.find?_some hfind
    exact hsame

theorem clusterIds_sublist (clusters : List Cluster) (merges : List MergeOp) :
    ((applyMergePlan clusters merges).map (·.clusterId)).Sublist (clusters.map (·.clusterId)) := by
  rw [applyMergePlan_eq]
  exact List.map_filterMap_sublist (fun c c' hc' => afterMerges_clusterId hc') clusters

theorem mem_episodes {c : Cluster} {m : MemoryId} : m ∈ c.episodes ↔ m ∈ c.episodeIds :=
  List.mem_dedup

/-- What merging leaves of clusters that share no episode and list each once. -/
structure MergesApart (cfg : StewardConfig) (clusters out : List Cluster) : Prop where
  ids : (out.map (·.clusterId)).Sublist (clusters.map (·.clusterId))
  nodup : ∀ c ∈ out, c.episodeIds.Nodup
  apart : out.Pairwise Cluster.Apart
  episodes : ∀ c ∈ out, ∀ m ∈ c.episodeIds, ∃ c' ∈ clusters, m ∈ c'.episodeIds
  capped : ∀ c ∈ out, c.episodeIds.length ≤ cfg.maxSize

theorem mergeClustersByCentroid_apart (hids : (clusters.map (·.clusterId)).Nodup)
    (hapart : clusters.Pairwise Cluster.Apart) (hnodup : ∀ c ∈ clusters, c.episodeIds.Nodup)
    (hcapped : ∀ c ∈ clusters, c.episodeIds.length ≤ cfg.maxSize)
    (h : mergeClustersByCentroid cosine cfg clusters = .ok (out, absorbed)) :
    MergesApart cfg clusters out := by
  obtain ⟨merges, hplan, h⟩ := Result.bind_eq_ok.1 h
  rw [Result.pure_eq_ok, Prod.mk.injEq] at h
  obtain ⟨rfl, -⟩ := h
  have hby := applyMergePlan_mergedBy hids hapart hplan
  refine ⟨clusterIds_sublist _ _, fun c hc => ?_, hby.apart, fun c hc m hm => ?_, fun c hc => ?_⟩
  · obtain ⟨groups, rest, hperm, hall, hout⟩ := hby.groups
    rcases List.mem_append.1 (hout.mem_iff.1 hc) with hc | hc
    · obtain ⟨op, hop, rfl⟩ := List.mem_map.1 hc
      obtain ⟨group, hgroup⟩ := exists_group (hall.imp fun _ _ hop => hop.toMerges) hop
      rw [MergeOp.merged, hgroup.episodeIds,
        (List.pairwise_insertionSort (· ≤ ·) _).destutter_eq_dedup]
      exact List.nodup_dedup _
    · exact hnodup c (hperm.mem_iff.1 (List.mem_append_right _ hc))
  · have hflat : m ∈ (applyMergePlan clusters merges).flatMap Cluster.episodes :=
      List.mem_flatMap.2 ⟨c, hc, mem_episodes.2 hm⟩
    obtain ⟨c', hc', hm'⟩ := List.mem_flatMap.1 (hby.episodes.mem_iff.1 hflat)
    exact ⟨c', hc', mem_episodes.1 hm'⟩
  · exact (hby.capped c hc).elim (hcapped c) id

end Merged

/-! ### Absorbed clusters -/

/-- How many episodes a plan gives to an existing cluster. -/
def takenBy (plan : List AbsorbedCluster) (c : MemoryId) : Nat :=
  ((plan.filter (·.existingClusterId = c)).map (·.absorbedEpisodeIds.length)).sum

theorem takenBy_cons (a : AbsorbedCluster) (plan : List AbsorbedCluster) (c : MemoryId) :
    takenBy (a :: plan) c = (if a.existingClusterId = c then a.absorbedEpisodeIds.length else 0) +
    takenBy plan c := by
  unfold takenBy
  by_cases hc : a.existingClusterId = c <;> simp [hc]

theorem takenBy_eq_zero {plan : List AbsorbedCluster} {c : MemoryId}
    (h : ∀ a ∈ plan, a.existingClusterId ≠ c) : takenBy plan c = 0 := by
  rw [takenBy, List.filter_eq_nil_iff.2 fun a ha => by simpa using h a ha]
  rfl

section Absorbed

variable {dim : Nat} {working : List WorkingCluster} {news : List Cluster}
  {plan : List AbsorbedCluster}

theorem AbsorbRun.absorbed (h : AbsorbRun cosine cfg dim working news plan) : ∀ a ∈ plan,
    ∃ n ∈ news, a.newClusterId = n.clusterId ∧ a.absorbedEpisodeIds = n.episodeIds := by
  induction h with
  | done => simp
  | pass _ _ _ ih =>
    intro a ha
    obtain ⟨n, hn, heq⟩ := ih a ha
    exact ⟨n, List.mem_cons_of_mem _ hn, heq⟩
  | absorb _ _ _ ih =>
    refine List.forall_mem_cons.2 ⟨⟨_, List.mem_cons_self, rfl, rfl⟩, fun a ha => ?_⟩
    obtain ⟨n, hn, heq⟩ := ih a ha
    exact ⟨n, List.mem_cons_of_mem _ hn, heq⟩

/-- An absorption replaces one working cluster, under its id. -/
theorem map_clusterId_absorb (hids : (working.map (·.clusterId)).Nodup) {i : Nat}
    {w : WorkingCluster} (hi : working[i]? = some w) (n : Cluster) (view : List Float32) :
    (working.set i (w.absorb dim n view)).map (·.clusterId) = working.map (·.clusterId) := by
  have hset : working.set i (w.absorb dim n view) = replaceById (w.absorb dim n view) working :=
    set_eq_replaceById hids hi rfl
  rw [hset, map_clusterId_replaceById]

theorem AbsorbRun.existing (h : AbsorbRun cosine cfg dim working news plan)
    (hids : (working.map (·.clusterId)).Nodup) :
    ∀ a ∈ plan, a.existingClusterId ∈ working.map (·.clusterId) := by
  induction h with
  | done => simp
  | pass _ _ _ ih => exact ih hids
  | @absorb working n news plan view i w _ hbest _ ih =>
    obtain ⟨hi, -⟩ := bestExisting_eq_some hbest
    rw [map_clusterId_absorb hids hi] at ih
    exact List.forall_mem_cons.2 ⟨List.mem_map_of_mem (List.mem_of_getElem? hi), ih hids⟩

/-- No existing cluster is given more than it has room for, under any cap the configured one is
below. -/
theorem AbsorbRun.room (h : AbsorbRun cosine cfg dim working news plan)
    (hids : (working.map (·.clusterId)).Nodup)
    {cap : Nat} (hcap : cfg.maxSize ≤ cap) : ∀ w ∈ working, w.count ≤ cap →
    w.count + takenBy plan w.clusterId ≤ cap := by
  induction h with
  | done => exact fun w _ hw => hw
  | pass _ _ _ ih => exact ih hids
  | @absorb working n news plan view i w _ hbest _ ih =>
    obtain ⟨hi, hel⟩ := bestExisting_eq_some hbest
    have hmem : w ∈ working := List.mem_of_getElem? hi
    have hset : working.set i (w.absorb dim n view) = replaceById (w.absorb dim n view) working :=
      set_eq_replaceById hids hi rfl
    rw [map_clusterId_absorb hids hi, hset, replaceById, List.forall_mem_map] at ih
    specialize ih hids
    intro u hu hcount
    have hrest := ih u hu
    rw [takenBy_cons]
    by_cases heq : u.clusterId = w.clusterId
    · obtain rfl := List.inj_on_of_nodup_map hids hu hmem heq
      have hroom : u.count + n.episodeIds.length ≤ cap := hel.1.trans hcap
      rw [if_pos (by rfl)] at hrest
      rw [if_pos (by rfl)]
      have := hrest hroom
      simp only [WorkingCluster.absorb, WorkingCluster.absorbed] at this ⊢
      omega
    · have hother : (w.absorbed dim n view).existingClusterId ≠ u.clusterId := fun hw => heq hw.symm
      rw [if_neg (by exact heq)] at hrest
      rw [if_neg hother, Nat.zero_add]
      exact hrest hcount

end Absorbed

/-- What a plan of absorptions says about the new and the existing clusters. -/
structure AbsorbsInto (news : List Cluster) (existing : List ExistingClusterSummary) (cap : Nat)
    (plan : List AbsorbedCluster) : Prop where
  absorbed : ∀ a ∈ plan, ∃ n ∈ news, a.newClusterId = n.clusterId ∧
    a.absorbedEpisodeIds = n.episodeIds
  target : ∀ a ∈ plan, ∃ s ∈ existing, s.clusterId = a.existingClusterId
  room : ∀ s ∈ existing, s.episodeCount ≤ cap → s.episodeCount + takenBy plan s.clusterId ≤ cap

theorem absorbIntoExisting_into {news : List Cluster} {existing : List ExistingClusterSummary}
    {plan : List AbsorbedCluster} {cap : Nat} (hids : (existing.map (·.clusterId)).Nodup)
    (hcap : cfg.maxSize ≤ cap)
    (h : absorbIntoExisting cosine cfg news existing = .ok plan) :
    AbsorbsInto news existing cap plan := by
  have hnil : AbsorbsInto news existing cap [] := ⟨by simp, by simp, fun _ _ hs => hs⟩
  cases news with
  | nil => exact Except.ok.inj h ▸ hnil
  | cons n news =>
    cases existing with
    | nil => exact Except.ok.inj h ▸ hnil
    | cons first rest =>
      obtain ⟨-, hrun⟩ := absorbIntoExisting_eq_ok.1 h
      have hmap : ((first :: rest).map ExistingClusterSummary.working).map (·.clusterId) =
          (first :: rest).map (·.clusterId) := by
        rw [List.map_map]
        rfl
      refine ⟨hrun.absorbed, fun a ha => ?_, fun s hs => ?_⟩
      · have hmem := hrun.existing (hmap ▸ hids) a ha
        rw [hmap] at hmem
        exact List.mem_map.1 hmem
      · exact hrun.room (hmap ▸ hids) hcap _ (List.mem_map_of_mem hs)

end Solo
