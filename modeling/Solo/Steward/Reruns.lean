import Solo.Steward.Stable

/-!
# The same clusters on every run (`cluster_episodes`)

Two runs over the same episodes, whatever the order of the list and of the hash maps, return the
same clusters in the same order exactly when no two components of a day have clusters that begin at
the same millisecond.
-/

namespace Solo

open StableSort Relation

/-! ### What the call accepts -/

/-- The embeddings are `f32` vectors of one dimension. -/
def Accepted (inputs : List ClusterInput) : Prop :=
  (∀ x ∈ inputs, x.embedding.dtype = .f32 ∧ x.embedding.valid = true ∧
    x.embedding.asF32Slice.isSome) ∧ ∀ x ∈ inputs, ∀ y ∈ inputs, x.embedding.dim = y.embedding.dim

theorem Accepted.perm {inputs inputs' : List ClusterInput} (h : inputs.Perm inputs') :
    Accepted inputs ↔ Accepted inputs' := by
  simp only [Accepted, h.mem_iff]

theorem checkInput_eq_ok {dim : Nat} {x : ClusterInput × Nat} {u : Unit} :
    checkInput dim x = .ok u ↔ x.1.embedding.dim = dim ∧ x.1.embedding.dtype = .f32 ∧
    x.1.embedding.valid = true := by
  unfold checkInput
  dsimp only
  split_ifs with hdim hdtype hvalid <;> simp_all

theorem exists_inputView_eq_ok {x : ClusterInput × Nat} :
    (∃ m, inputView x = .ok m) ↔ x.1.embedding.asF32Slice.isSome := by
  unfold inputView
  cases x.1.embedding.asF32Slice <;> simp

section Runs

variable {cosine : List Float32 → List Float32 → Float32} {cfg : StewardConfig} {hash : HashOrder}
  {newId : Nat → MemoryId} {inputs : List ClusterInput} {clusters : List Cluster}

theorem exists_clusterEpisodes_eq_ok :
    (∃ clusters, clusterEpisodes cosine cfg hash newId inputs = .ok clusters) ↔
    Accepted inputs := by
  cases inputs with
  | nil => simp [clusterEpisodes, Accepted]
  | cons first rest =>
    have hall {P : ClusterInput → Prop} : (∀ x ∈ (first :: rest).zipIdx, P x.1) ↔
        ∀ x ∈ first :: rest, P x := by
      constructor
      · intro h x hx
        rw [← List.zipIdx_map_fst 0 (first :: rest)] at hx
        obtain ⟨y, hy, rfl⟩ := List.mem_map.1 hx
        exact h y hy
      · exact fun h x hx => h x.1 (List.fst_mem_of_mem_zipIdx hx)
    constructor
    · rintro ⟨clusters, h⟩
      unfold clusterEpisodes at h
      dsimp only at h
      split at h
      · cases h
      obtain ⟨u, hcheck, h⟩ := Result.bind_eq_ok.1 h
      obtain ⟨viewed, hviewed, -⟩ := Result.bind_eq_ok.1 h
      have hcheck' : ∀ x ∈ first :: rest, x.embedding.dim = first.embedding.dim ∧
          x.embedding.dtype = .f32 ∧ x.embedding.valid = true :=
        hall.1 fun x hx => checkInput_eq_ok.1 (Result.ok_of_forM_eq_ok hcheck hx)
      have hview : ∀ x ∈ first :: rest, x.embedding.asF32Slice.isSome :=
        hall.1 fun x hx => exists_inputView_eq_ok.1 (Result.ok_of_mapM_eq_ok hviewed hx)
      exact ⟨fun x hx => ⟨(hcheck' x hx).2.1, (hcheck' x hx).2.2, hview x hx⟩,
        fun x hx y hy => (hcheck' x hx).1.trans (hcheck' y hy).1.symm⟩
    · rintro ⟨hembedding, hdim⟩
      have hcheck : (first :: rest).zipIdx.forM (checkInput first.embedding.dim) = .ok () := by
        refine Result.forM_eq_ok fun x hx => ?_
        have hx := List.fst_mem_of_mem_zipIdx hx
        exact checkInput_eq_ok.2 ⟨hdim _ hx _ List.mem_cons_self, (hembedding _ hx).1,
          (hembedding _ hx).2.1⟩
      have hview : (first :: rest).zipIdx.mapM inputView =
          .ok ((first :: rest).zipIdx.map fun x => x.1.withView) := by
        refine Result.mapM_eq_ok_map fun x hx => ?_
        obtain ⟨m, hm⟩ :=
          exists_inputView_eq_ok.2 (hembedding _ (List.fst_mem_of_mem_zipIdx hx)).2.2
        rw [hm, inputView_eq_ok hm]
      have hdtype := (hembedding first List.mem_cons_self).1
      unfold clusterEpisodes
      dsimp only
      rw [if_neg (not_not_intro hdtype), hcheck, hview]
      exact ⟨_, rfl⟩

/-! ### The sequence of member lists -/

theorem mem_memberLists {m : List (ClusterInput × List Float32)}
    (hm : m ∈ memberLists cosine cfg hash inputs) :
    ∃ day ∈ daysOf inputs, m ∈ dayComponents cosine cfg hash (inputs.map ClusterInput.withView)
    day :=
  List.mem_flatMap.1 hm

theorem mem_bucket_of_mem {day : Int} {m : List (ClusterInput × List Float32)}
    (hm : m ∈ dayComponents cosine cfg hash (inputs.map ClusterInput.withView) day)
    {x : ClusterInput × List Float32} (hx : x ∈ m) : x.1 ∈ bucketOf inputs day := by
  obtain ⟨⟨i, -, hcomp⟩, -⟩ := mem_dayComponents hm
  obtain ⟨y, hy, heq⟩ := hcomp x hx
  exact heq ▸ List.fst_mem_of_mem_zipIdx ((mem_componentOf cosine cfg).1 hy).1

theorem pairwise_earlier_of_mem {day : Int} {m : List (ClusterInput × List Float32)}
    (hm : m ∈ dayComponents cosine cfg hash (inputs.map ClusterInput.withView) day) :
    m.Pairwise Earlier := by
  rw [dayComponents_eq_flatten, List.mem_flatten] at hm
  obtain ⟨s, hs, hm⟩ := hm
  obtain ⟨group, -, rfl⟩ := List.mem_map.1 hs
  rw [splitComponentByTime_eq, mem_keptChunks_iff cfg.clusterMinSize_pos cfg.minSize_le_maxSize]
    at hm
  obtain ⟨k, -, rfl⟩ := hm
  exact (List.pairwise_insertionSort Earlier group).sublist
    ((List.take_sublist _ _).trans (List.drop_sublist _ _))

/-- An emitted list has a first member, and it gives the list's start. -/
theorem exists_head_of_mem {day : Int} {m : List (ClusterInput × List Float32)}
    (hm : m ∈ dayComponents cosine cfg hash (inputs.map ClusterInput.withView) day) :
    ∃ x rest, m = x :: rest ∧ startOf m = x.1.tsMs := by
  cases m with
  | nil =>
    have hlen := (mem_dayComponents hm).2.1
    exact absurd hlen (Nat.not_le_of_lt cfg.clusterMinSize_pos)
  | cons x rest => exact ⟨x, rest, rfl, rfl⟩

theorem day_of_mem {day : Int} {m : List (ClusterInput × List Float32)}
    (hm : m ∈ dayComponents cosine cfg hash (inputs.map ClusterInput.withView) day) :
    startOf m / msPerDay = day := by
  obtain ⟨x, rest, rfl, hstart⟩ := exists_head_of_mem hm
  have hx := mem_bucket_of_mem hm List.mem_cons_self
  rw [hstart]
  exact of_decide_eq_true (List.mem_filter.1 hx).2

theorem buildCluster_episodeIds {m : List (ClusterInput × List Float32)} (hm : m.Pairwise Earlier)
    {id : MemoryId}
    {dim : Nat} : (buildCluster cosine id dim m).episodeIds = m.map (·.1.memoryId) := by
  unfold buildCluster
  dsimp only
  rw [hm.insertionSort_eq]

/-- The sort key of a cluster is the time of its first member. -/
theorem earliestTs_buildCluster (hids : (inputs.map (·.memoryId)).Nodup)
    {m : List (ClusterInput × List Float32)}
    (hm : m ∈ memberLists cosine cfg hash inputs) {id : MemoryId} {dim : Nat} :
    earliestTs inputs (buildCluster cosine id dim m) = startOf m := by
  obtain ⟨day, -, hm⟩ := mem_memberLists hm
  have hsorted := pairwise_earlier_of_mem hm
  have hinputs {x : ClusterInput × List Float32} (hx : x ∈ m) : x.1 ∈ inputs :=
    List.mem_of_mem_filter (mem_bucket_of_mem hm hx)
  obtain ⟨x, rest, rfl, hstart⟩ := exists_head_of_mem hm
  have hid : x.1.memoryId ∈ (buildCluster cosine id dim (x :: rest)).episodeIds := by
    rw [buildCluster_episodeIds hsorted]
    exact List.mem_cons_self
  refine le_antisymm (hstart ▸ earliestTs_le (hinputs List.mem_cons_self) hid) ?_
  obtain ⟨y, hy, hyid, hts⟩ := exists_earliestTs (hinputs List.mem_cons_self) hid
  rw [buildCluster_episodeIds hsorted] at hyid
  obtain ⟨z, hz, hzid⟩ := List.mem_map.1 hyid
  have hzy : z.1 = y := List.inj_on_of_nodup_map hids (hinputs hz) hy hzid
  rw [← hts, hstart, ← hzy]
  rcases List.mem_cons.1 hz with rfl | hz
  · exact le_refl _
  · exact ((List.pairwise_cons.1 hsorted).1 z hz).tsMs_le

/-- The clusters in their order, as lists of ids. -/
theorem map_episodeIds_eq (h : clusterEpisodes cosine cfg hash newId inputs = .ok clusters)
    (hids : (inputs.map (·.memoryId)).Nodup) :
    clusters.map (·.episodeIds) =
      (sortByKey startOf (memberLists cosine cfg hash inputs)).map fun m =>
      m.map (·.1.memoryId) := by
  obtain ⟨dim, rfl⟩ := clusterEpisodes_eq_ok h
  have hmem {z : List (ClusterInput × List Float32) × Nat}
      (hz : z ∈ (memberLists cosine cfg hash inputs).zipIdx) :
      z.1 ∈ memberLists cosine cfg hash inputs := List.fst_mem_of_mem_zipIdx hz
  have hbuild := List.map_insertionSort (r := fun a b => startOf a.1 ≤ startOf b.1)
    (s := fun a b => earliestTs inputs a ≤ earliestTs inputs b)
    (fun z : List (ClusterInput × List Float32) × Nat => buildCluster cosine (newId z.2) dim z.1)
    (memberLists cosine cfg hash inputs).zipIdx fun a ha b hb => by
      rw [earliestTs_buildCluster hids (hmem ha), earliestTs_buildCluster hids (hmem hb)]
  have hfst := List.map_insertionSort (r := fun a b => startOf a.1 ≤ startOf b.1)
    (s := fun a b => startOf a ≤ startOf b) Prod.fst
    (memberLists cosine cfg hash inputs).zipIdx fun a _ b _ => Iff.rfl
  rw [List.zipIdx_map_fst] at hfst
  rw [← hbuild, List.map_map, sortByKey, ← hfst, List.map_map]
  refine List.map_congr_left fun z hz => ?_
  obtain ⟨day, -, hz⟩ := mem_memberLists (hmem ((List.mem_insertionSort _).1 hz))
  exact buildCluster_episodeIds (pairwise_earlier_of_mem hz)

/-! ### One order of starts -/

/-- The chunks of all components, day by day. -/
def allSplits (cosine : List Float32 → List Float32 → Float32) (cfg : StewardConfig)
    (hash : HashOrder)
    (inputs : List ClusterInput) : List (List (List (ClusterInput × List Float32))) :=
  (daysOf inputs).flatMap fun day => daySplits cosine cfg hash (bucketOf inputs day) day

theorem memberLists_eq_flatten :
    memberLists cosine cfg hash inputs = (allSplits cosine cfg hash inputs).flatten := by
  rw [allSplits, flatten_flatMap]
  exact List.flatMap_congr fun day _ => dayComponents_eq_flatten

theorem daysOf_perm {inputs' : List ClusterInput} (h : inputs.Perm inputs') :
    daysOf inputs = daysOf inputs' := by
  have hperm : (daysOf inputs).Perm (daysOf inputs') := by
    rw [List.perm_ext_iff_of_nodup nodup_daysOf nodup_daysOf]
    intro day
    simp only [mem_daysOf, h.mem_iff]
  exact hperm.eq_of_pairwise (fun a b _ _ => le_antisymm) (List.pairwise_insertionSort _ _)
    (List.pairwise_insertionSort _ _)

theorem allSplits_perm (hcosine : ∀ a b, cosine a b = cosine b a)
    (hids : (inputs.map (·.memoryId)).Nodup)
    {inputs' : List ClusterInput} (h : inputs.Perm inputs') {hash' : HashOrder} :
    (allSplits cosine cfg hash inputs).Perm (allSplits cosine cfg hash' inputs') := by
  unfold allSplits
  rw [daysOf_perm h]
  refine List.Perm.flatMap_left _ fun day _ => daySplits_perm hcosine ?_ (h.filter _)
  exact (List.filter_sublist.map _).nodup hids

theorem pairwise_allSplits (h : SharesNoStart cosine cfg inputs) :
    (allSplits cosine cfg hash inputs).Pairwise fun s s' => ∀ m ∈ s, ∀ m' ∈ s', startOf m ≠
    startOf m' := by
  rw [allSplits, List.pairwise_flatMap]
  refine ⟨fun day _ => pairwise_daySplits h, ?_⟩
  have hdays : (daysOf inputs).Nodup := nodup_daysOf
  refine hdays.imp fun {day day'} hne s hs s' hs' m hm m' hm' heq => hne ?_
  have hday {day : Int} {s : List (List (ClusterInput × List Float32))}
      {m : List (ClusterInput × List Float32)}
      (hs : s ∈ daySplits cosine cfg hash (bucketOf inputs day) day) (hm : m ∈ s) :
      startOf m / msPerDay = day :=
    day_of_mem (dayComponents_eq_flatten ▸ List.mem_flatten_of_mem hs hm)
  rw [← hday hs hm, ← hday hs' hm', heq]

/-- When no two components share a start, the sorted lists are the same on every run. -/
theorem sortByKey_memberLists (hcosine : ∀ a b, cosine a b = cosine b a)
    (hids : (inputs.map (·.memoryId)).Nodup)
    (hstarts : SharesNoStart cosine cfg inputs) {inputs' : List ClusterInput}
    (h : inputs.Perm inputs') {hash' : HashOrder} :
    sortByKey startOf (memberLists cosine cfg hash inputs) =
    sortByKey startOf (memberLists cosine cfg hash' inputs') := by
  rw [sortByKey_eq_iff]
  intro t
  rw [memberLists_eq_flatten, memberLists_eq_flatten, List.filter_flatten, List.filter_flatten]
  refine flatten_eq_of_perm ((allSplits_perm hcosine hids h).map _) ?_
  rw [List.pairwise_map]
  refine (pairwise_allSplits hstarts).imp fun {s s'} hne => ?_
  by_cases hs : s.filter (startOf · = t) = []
  · exact .inl hs
  · obtain ⟨m, hm⟩ := List.exists_mem_of_ne_nil _ hs
    obtain ⟨hm, hmt⟩ := List.mem_filter.1 hm
    refine .inr (List.filter_eq_nil_iff.2 fun m' hm' ht => hne m hm m' hm' ?_)
    exact (of_decide_eq_true hmt).trans (of_decide_eq_true ht).symm

/-! ### Two orders of the roots -/

/-- The hash map that gives one root before the others. -/
def rootFirst (r : Nat) : HashOrder where
  order _ keys := if r ∈ keys then r :: keys.erase r else keys
  perm _ keys := by
    split
    next hmem => exact (List.perm_cons_erase hmem).symm
    · exact .refl _

theorem flatMap_eq_of_unique {κ α : Type} {keys : List κ} (hkeys : keys.Nodup) {A : κ → List α}
    {k : κ} (hk : k ∈ keys) (hA : ∀ k' ∈ keys, k' ≠ k → A k' = []) : keys.flatMap A = A k := by
  induction keys with
  | nil => cases hk
  | cons a keys ih =>
    obtain ⟨ha, hkeys⟩ := List.nodup_cons.1 hkeys
    rw [List.flatMap_cons]
    rcases List.mem_cons.1 hk with rfl | hk
    · have hnil : keys.flatMap A = [] := List.flatMap_eq_nil_iff.2 fun k' hk' =>
        hA k' (List.mem_cons_of_mem _ hk') fun heq => ha (heq ▸ hk')
      rw [hnil, List.append_nil]
    · rw [hA a List.mem_cons_self fun heq => ha (heq ▸ hk), List.nil_append]
      exact ih hkeys hk fun k' hk' => hA k' (List.mem_cons_of_mem _ hk')

theorem filter_memberLists {day t : Int} (hday : day ∈ daysOf inputs) (ht : t / msPerDay = day) :
    (memberLists cosine cfg hash inputs).filter (startOf · = t) =
      (dayComponents cosine cfg hash (inputs.map ClusterInput.withView) day).filter
      (startOf · = t) := by
  rw [memberLists, List.filter_flatMap]
  refine flatMap_eq_of_unique nodup_daysOf hday fun day' _ hne => ?_
  refine List.filter_eq_nil_iff.2 fun m hm hmt => hne ?_
  rw [← day_of_mem hm, of_decide_eq_true hmt, ht]

/-- With its root first, a component has the first of the clusters that begin at one time. -/
theorem head?_filter_memberLists {day t : Int} {f : Nat → Nat} {roots : List Nat} {r : Nat}
    (hgroups : ∀ hash day', dayGroups cosine cfg hash (bucketOf inputs day) day' =
      (hash.order day' roots).map (groupAt (bucketOf inputs day) f)) (hr : r ∈ roots)
      (hday : day ∈ daysOf inputs)
    {m : List (ClusterInput × List Float32)}
    (hm : m ∈ splitComponentByTime cfg (groupAt (bucketOf inputs day) f r)) (hmt : startOf m = t) :
    ∃ m' ∈ splitComponentByTime cfg (groupAt (bucketOf inputs day) f r),
      ((memberLists cosine cfg (rootFirst r) inputs).filter (startOf · = t)).head? = some m' := by
  have hmin : cfg.clusterMinSize ≤ (groupAt (bucketOf inputs day) f r).length :=
    (length_of_mem_split hm).1.trans
      ((List.sublist_flatten_of_mem hm).subperm.trans flatten_split_subperm).length_le
  have horder : (rootFirst r).order day roots = r :: roots.erase r := if_pos hr
  have hgroup := dayComponents_eq_groups (hgroups (rootFirst r) day)
  rw [horder, List.filter_cons_of_pos (by simpa using hmin), List.flatMap_cons] at hgroup
  have ht : t / msPerDay = day := by
    rw [← hmt]
    exact day_of_mem (hgroup ▸ List.mem_append_left _ hm)
  have hhead : (splitComponentByTime cfg (groupAt (bucketOf inputs day) f r)).filter
      (startOf · = t) ≠ [] :=
    List.ne_nil_of_mem (List.mem_filter.2 ⟨hm, decide_eq_true hmt⟩)
  obtain ⟨m', rest, hrest⟩ := List.exists_cons_of_ne_nil hhead
  have hm' : m' ∈ (splitComponentByTime cfg (groupAt (bucketOf inputs day) f r)).filter
      (startOf · = t) := by
    rw [hrest]
    exact List.mem_cons_self
  refine ⟨m', List.mem_of_mem_filter hm', ?_⟩
  rw [filter_memberLists hday ht, hgroup, List.filter_append, hrest]
  rfl

/-! ### The member sets of two runs -/

/-- What a run returns, without the ids of the clusters: their member sets in order. -/
def memberSets (r : Except Error (List Cluster)) : Option (List (Finset MemoryId)) :=
  r.toOption.map fun clusters => clusters.map (·.episodeIds.toFinset)

def idSet (m : List (ClusterInput × List Float32)) : Finset MemoryId :=
  (m.map (·.1.memoryId)).toFinset

/-- The earliest time of a set of members. -/
def earliestOf (inputs : List ClusterInput) (ids : Finset MemoryId) : Int :=
  (((inputs.filter fun x => x.memoryId ∈ ids).map (·.tsMs)).min?).getD (2 ^ 63 - 1)

theorem earliestOf_toFinset {c : Cluster} : earliestOf inputs c.episodeIds.toFinset =
    earliestTs inputs c := by
  unfold earliestOf earliestTs
  have hfilter : (inputs.filter fun x => x.memoryId ∈ c.episodeIds.toFinset) =
      inputs.filter fun x => c.episodeIds.contains x.memoryId :=
    List.filter_congr fun x _ => by simp
  rw [hfilter]

theorem earliestOf_idSet (hids : (inputs.map (·.memoryId)).Nodup)
    {m : List (ClusterInput × List Float32)}
    (hm : m ∈ memberLists cosine cfg hash inputs) : earliestOf inputs (idSet m) = startOf m := by
  have hkey : earliestTs inputs (buildCluster cosine "" 0 m) = startOf m :=
    earliestTs_buildCluster hids hm
  obtain ⟨day, -, hm⟩ := mem_memberLists hm
  rw [← earliestOf_toFinset, buildCluster_episodeIds (pairwise_earlier_of_mem hm)] at hkey
  exact hkey

theorem memberSets_eq (h : clusterEpisodes cosine cfg hash newId inputs = .ok clusters)
    (hids : (inputs.map (·.memoryId)).Nodup) :
    memberSets (clusterEpisodes cosine cfg hash newId inputs) =
      some ((sortByKey startOf (memberLists cosine cfg hash inputs)).map idSet) := by
  have hmap := congrArg (List.map List.toFinset) (map_episodeIds_eq h hids)
  rw [List.map_map, List.map_map] at hmap
  rw [h]
  exact congrArg some hmap

theorem memberSets_eq_none (h : ¬ Accepted inputs) :
    memberSets (clusterEpisodes cosine cfg hash newId inputs) = none := by
  cases hrun : clusterEpisodes cosine cfg hash newId inputs with
  | error e => rfl
  | ok clusters => exact absurd (exists_clusterEpisodes_eq_ok.1 ⟨clusters, hrun⟩) h

/-- The sets of one start, out of the sequence of sets. -/
theorem filter_map_idSet (hids : (inputs.map (·.memoryId)).Nodup) (t : Int) :
    ((sortByKey startOf (memberLists cosine cfg hash inputs)).map idSet).filter
    (earliestOf inputs · = t) =
      ((memberLists cosine cfg hash inputs).filter (startOf · = t)).map idSet := by
  rw [List.filter_map, ← filter_sortByKey]
  refine congrArg _ (List.filter_congr fun m hm => ?_)
  rw [Function.comp_apply, earliestOf_idSet hids (sortByKey_perm.mem_iff.1 hm)]

end Runs

/-- Every run over the same episodes, in whatever order of the list and of the hash maps, returns
the same sets of members in the same order. -/
def SameEachTime (cosine : List Float32 → List Float32 → Float32) (cfg : StewardConfig)
    (inputs : List ClusterInput) : Prop :=
  ∀ inputs', inputs.Perm inputs' → ∀ hash hash' newId newId',
    memberSets (clusterEpisodes cosine cfg hash newId inputs) =
      memberSets (clusterEpisodes cosine cfg hash' newId' inputs')

section Same

variable {cosine : List Float32 → List Float32 → Float32} {cfg : StewardConfig}
  {inputs : List ClusterInput}

theorem sameEachTime_of_sharesNoStart (hcosine : ∀ a b, cosine a b = cosine b a)
    (hids : (inputs.map (·.memoryId)).Nodup)
    (hstarts : Accepted inputs → SharesNoStart cosine cfg inputs) :
    SameEachTime cosine cfg inputs := by
  intro inputs' hperm hash hash' newId newId'
  by_cases hok : Accepted inputs
  · obtain ⟨clusters, h⟩ := exists_clusterEpisodes_eq_ok.2 hok
    obtain ⟨clusters', h'⟩ := exists_clusterEpisodes_eq_ok.2 ((Accepted.perm hperm).1 hok)
    rw [memberSets_eq h hids, memberSets_eq h' ((hperm.map _).nodup_iff.1 hids),
      sortByKey_memberLists hcosine hids (hstarts hok) hperm]
  · rw [memberSets_eq_none hok, memberSets_eq_none fun h => hok ((Accepted.perm hperm).2 h)]

/-- Two components that share a start come in the order of their roots. -/
theorem sharesNoStart_of_sameEachTime (hids : (inputs.map (·.memoryId)).Nodup)
    (h : SameEachTime cosine cfg inputs)
    (hok : Accepted inputs) : SharesNoStart cosine cfg inputs := by
  intro day i hi j hj hne t hti htj
  have hnodup : (bucketOf inputs day).Nodup := (List.Nodup.of_map _ hids).filter _
  obtain ⟨f, roots, -, hmem, hcomp, hgroups⟩ := dayGroups_spec cosine cfg (bucketOf inputs day)
  have hday : day ∈ daysOf inputs := by
    obtain ⟨hmem, hday⟩ := List.mem_filter.1 (List.getElem_mem hi)
    exact mem_daysOf.2 ⟨_, hmem, of_decide_eq_true hday⟩
  rw [← map_tsMs_groupAt (hcomp i hi), startsAt_iff] at hti
  rw [← map_tsMs_groupAt (hcomp j hj), startsAt_iff] at htj
  obtain ⟨m, hm, hmt⟩ := hti
  obtain ⟨m', hm', hmt'⟩ := htj
  obtain ⟨k, hk, hhead⟩ := head?_filter_memberLists hgroups ((hmem _).2 ⟨i, hi, rfl⟩) hday hm hmt
  obtain ⟨k', hk', hhead'⟩ :=
    head?_filter_memberLists hgroups ((hmem _).2 ⟨j, hj, rfl⟩) hday hm' hmt'
  obtain ⟨clusters, hrun⟩ := exists_clusterEpisodes_eq_ok.2 hok
  obtain ⟨clusters', hrun'⟩ := exists_clusterEpisodes_eq_ok.2 hok
  have hsame := h inputs (.refl _) (rootFirst (f i)) (rootFirst (f j)) (fun _ => "") (fun _ => "")
  rw [memberSets_eq hrun hids, memberSets_eq hrun' hids, Option.some.injEq] at hsame
  have hsets := congrArg (List.filter (earliestOf inputs · = t)) hsame
  rw [filter_map_idSet hids, filter_map_idSet hids] at hsets
  have hheads := congrArg List.head? hsets
  rw [List.head?_map, List.head?_map, hhead, hhead'] at hheads
  have hset : idSet k = idSet k' := Option.some.inj hheads
  obtain ⟨x, hx⟩ := List.exists_mem_of_length_pos
    (Nat.lt_of_lt_of_le cfg.clusterMinSize_pos (length_of_mem_split hk).1)
  have hxid : x.1.memoryId ∈ idSet k' := hset ▸ List.mem_toFinset.2 (List.mem_map_of_mem hx)
  obtain ⟨y, hy, hyid⟩ := List.mem_map.1 (List.mem_toFinset.1 hxid)
  have hin {r : Nat} {z : ClusterInput × List Float32}
      (hz : z ∈ groupAt (bucketOf inputs day) f r) : z.1 ∈ inputs := by
    obtain ⟨w, hw, rfl⟩ := List.mem_map.1 hz
    exact List.mem_of_mem_filter (List.fst_mem_of_mem_zipIdx (List.mem_of_mem_filter hw))
  have hx := mem_of_mem_split hk hx
  have hy := mem_of_mem_split hk' hy
  have hroot :=
    root_eq_of_mem_groupAt hnodup hx hy (List.inj_on_of_nodup_map hids (hin hx) (hin hy) hyid.symm)
  refine hne ?_
  have hself : ((bucketOf inputs day)[j], j) ∈ componentOf cosine cfg (bucketOf inputs day) i := by
    rw [hcomp i hi, List.mem_filter, decide_eq_true_eq]
    exact ⟨List.mk_mem_zipIdx_iff_getElem?.2 (List.getElem?_eq_getElem hj), hroot.symm⟩
  exact ((mem_componentOf cosine cfg).1 hself).2

end Same

/-! ### The similarity is symmetric -/

/-- One turn of the loop of `cosine_similarity_f32`. -/
def dotStep (acc : Float32 × Float32 × Float32) (p : Float32 × Float32) :
    Float32 × Float32 × Float32 :=
  (acc.1 + p.1 * p.2, acc.2.1 + p.1 * p.1, acc.2.2 + p.2 * p.2)

theorem foldl_dotStep_comm (a b : List Float32) (dot normA normB : Float32) :
    (b.zip a).foldl dotStep (dot, normB, normA) =
      let r := (a.zip b).foldl dotStep (dot, normA, normB)
      (r.1, r.2.2, r.2.1) := by
  induction a generalizing b dot normA normB with
  | nil => cases b <;> rfl
  | cons x a ih =>
    cases b with
    | nil => rfl
    | cons y b =>
      simp only [List.zip_cons_cons, List.foldl_cons]
      have hstep :
          dotStep (dot, normB, normA) (y, x) = (dot + x * y, normB + y * y, normA + x * x) := by
        simp only [dotStep, Binary32.mul_comm y x]
      rw [hstep, ih]
      rfl

theorem cosineSimilarityF32_comm (a b : List Float32) :
    cosineSimilarityF32 a b = cosineSimilarityF32 b a := by
  have hcomm := foldl_dotStep_comm a b 0 0 0
  have hfold (a b : List Float32) : cosineSimilarityF32 a b =
      let r := (a.zip b).foldl dotStep (0, 0, 0)
      if r.2.1.sqrt * r.2.2.sqrt ≤ epsilon then 0
      else Binary32.clamp (r.1 / (r.2.1.sqrt * r.2.2.sqrt)) (-1) 1 := rfl
  rw [hfold a b, hfold b a, hcomm]
  dsimp only
  rw [Binary32.mul_comm (Float32.sqrt _)]

/-- Every run over the same accepted episodes returns the same clusters in the same order exactly
when no two components of one day have clusters that begin at the same millisecond. -/
theorem clusterEpisodes_sameEachTime_iff (cfg : StewardConfig) (inputs : List ClusterInput)
    (hids : (inputs.map (·.memoryId)).Nodup) :
    SameEachTime cosineSimilarityF32 cfg inputs ↔
      (Accepted inputs → SharesNoStart cosineSimilarityF32 cfg inputs) :=
  ⟨sharesNoStart_of_sameEachTime hids, sameEachTime_of_sharesNoStart cosineSimilarityF32_comm hids⟩

open ClusterSample in
theorem clusterEpisodes_sameEachTime_iff_four : SameEachTime cosineSimilarityF32 cfg four ↔
    (Accepted four → SharesNoStart cosineSimilarityF32 cfg four) :=
  clusterEpisodes_sameEachTime_iff cfg four four_nodup

namespace TwoTopics

open ClusterSample

/-- Minus one, as a vector. -/
def minusOne : Embedding := ⟨.f32, 1, [0, 0, 128, 191]⟩

/-- Two pairs, each alike and unlike the other, that begin at the same millisecond. -/
def inputs : List ClusterInput :=
  [⟨"a", 1, one⟩, ⟨"b", 2, one⟩, ⟨"c", 1, minusOne⟩, ⟨"d", 2, minusOne⟩]

def reversed : HashOrder := ⟨fun _ keys => keys.reverse, fun _ keys => keys.reverse_perm⟩

end TwoTopics

open ClusterSample TwoTopics in
/-- The same list, with the roots in two orders, gives the two clusters in two orders. -/
theorem twoTopics_swap : ¬ ∀ (cfg : StewardConfig) (inputs : List ClusterInput),
    (inputs.map (·.memoryId)).Nodup → SameEachTime cosineSimilarityF32 cfg inputs := by
  intro h
  have hsame :=
    h cfg inputs (by decide) inputs (.refl _) keysOrder reversed (fun _ => "k") (fun _ => "k")
  have hfirst :
      memberSets (clusterEpisodes cosineSimilarityF32 cfg keysOrder (fun _ => "k") inputs) =
      some [{"a", "b"}, {"c", "d"}] := by decide +kernel
  have hsecond :
      memberSets (clusterEpisodes cosineSimilarityF32 cfg reversed (fun _ => "k") inputs) =
      some [{"c", "d"}, {"a", "b"}] := by decide +kernel
  rw [hfirst, hsecond] at hsame
  revert hsame
  decide

end Solo
