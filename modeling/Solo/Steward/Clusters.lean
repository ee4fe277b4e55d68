import Solo.Steward.Split

/-!
# What clustering emits (`cluster_episodes`)

The graph of a day: its vertices are the positions in the day's bucket, its edges the pairs that
reach the threshold. The groups that union-find makes are the components of this graph; every
emitted cluster is a kept chunk of one of them, and a cluster holds nobody twice. Which members the
chunks lose is arithmetic on the component's size.
-/

namespace Solo

/-- The floats that an episode is compared by. -/
def ClusterInput.view (x : ClusterInput) : List Float32 :=
  ((x.embedding.asF32Slice).map toFloats).getD []

def ClusterInput.withView (x : ClusterInput) : ClusterInput × List Float32 := (x, x.view)

/-- The episodes of one UTC day, in the order of the list. -/
def bucketOf (inputs : List ClusterInput) (day : Int) : List ClusterInput :=
  inputs.filter fun x => dayOf x = day

def daysOf (inputs : List ClusterInput) : List Int := (inputs.map dayOf).dedup.insertionSort (· ≤ ·)

section Graph

variable (cosine : List Float32 → List Float32 → Float32) (cfg : StewardConfig)

/-- Two positions of a bucket hold episodes that reach the threshold. -/
def similarAt (bucket : List ClusterInput) (a b : Nat) : Bool :=
  cfg.clusterCosineThreshold ≤
    cosine ((bucket.map ClusterInput.view).getD a []) ((bucket.map ClusterInput.view).getD b [])

def SameComponent (bucket : List ClusterInput) : Nat → Nat → Prop :=
  UnionFind.Connected bucket.length (similarAt cosine cfg bucket)

open Classical in
/-- The connected component of a position: the episodes in it, each with its position. -/
noncomputable def componentOf (bucket : List ClusterInput) (i : Nat) : List (ClusterInput × Nat) :=
  bucket.zipIdx.filter fun y => SameComponent cosine cfg bucket i y.2

theorem mem_componentOf {bucket : List ClusterInput} {i : Nat} {y : ClusterInput × Nat} :
    y ∈ componentOf cosine cfg bucket i ↔ y ∈ bucket.zipIdx ∧
    SameComponent cosine cfg bucket i y.2 := by
  simp [componentOf]

/-- The episodes of a day whose component reaches the minimum. -/
noncomputable def clusterable (bucket : List ClusterInput) : List ClusterInput :=
  (bucket.zipIdx.filter fun x => cfg.clusterMinSize ≤
    (componentOf cosine cfg bucket x.2).length).map Prod.fst

end Graph

/-! ### Lists grouped by a key -/

section Grouping

variable {κ α : Type}

/-- Grouping by a function only reorders a list. -/
theorem flatMap_filter_key_perm [DecidableEq κ] {keys : List κ} (hkeys : keys.Nodup) {key : α → κ}
    {l : List α}
    (hl : ∀ x ∈ l, key x ∈ keys) : (keys.flatMap fun k => l.filter (key · = k)).Perm l := by
  have htagged := flatMap_filter_perm hkeys (l := l.map fun x => (key x, x)) (by simpa using hl)
  have hsnd := htagged.map Prod.snd
  simp only [List.map_flatMap, List.filter_map, List.map_map] at hsnd
  simpa [Function.comp_def] using hsnd

theorem flatMap_subperm {l : List κ} {A B : κ → List α} (h : ∀ k ∈ l, (A k).Subperm (B k)) :
    (l.flatMap A).Subperm (l.flatMap B) := by
  induction l with
  | nil => exact List.Subperm.refl _
  | cons k l ih =>
    rw [List.flatMap_cons, List.flatMap_cons]
    exact (h k List.mem_cons_self).append (ih fun k' hk' => h k' (List.mem_cons_of_mem _ hk'))

/-- Parts that can only lose members lose none together exactly when each loses none. -/
theorem flatMap_perm_iff {l : List κ} {A B : κ → List α} (h : ∀ k ∈ l, (A k).Subperm (B k)) :
    (l.flatMap A).Perm (l.flatMap B) ↔ ∀ k ∈ l, (A k).Perm (B k) := by
  constructor
  · intro hperm
    induction l with
    | nil => exact fun k hk => absurd hk List.not_mem_nil
    | cons k l ih =>
      have hhead := h k List.mem_cons_self
      have hrest := flatMap_subperm fun k' hk' => h k' (List.mem_cons_of_mem _ hk')
      have hlen := hperm.length_eq
      rw [List.flatMap_cons, List.flatMap_cons, List.length_append, List.length_append] at hlen
      have hle := hhead.length_le
      have hle' := hrest.length_le
      intro k' hk'
      rcases List.mem_cons.1 hk' with rfl | hk'
      · exact hhead.perm_of_length_le (by omega)
      · exact ih (fun k' hk' => h k' (List.mem_cons_of_mem _ hk'))
          (hrest.perm_of_length_le (by omega)) k' hk'
  · intro hperm
    exact List.Perm.flatMap_left _ hperm

theorem flatten_flatMap {l : List κ} {g : κ → List (List α)} :
    (l.flatMap g).flatten = l.flatMap fun k => (g k).flatten := by
  rw [List.flatMap_def, List.flatten_flatten, List.map_map, List.flatMap_def]
  rfl

theorem perm_congr_right {l l₁ l₂ : List α} (h : l₁.Perm l₂) : l.Perm l₁ ↔ l.Perm l₂ :=
  ⟨fun hl => hl.trans h, fun hl => hl.trans h.symm⟩

theorem map_subperm {β : Type} {f : α → β} {l l' : List α} (h : l.Subperm l') :
    (l.map f).Subperm (l'.map f) := by
  obtain ⟨k, hk, hsub⟩ := h
  exact ⟨k.map f, hk.map f, hsub.map f⟩

theorem nodup_of_subperm {l l' : List α} (h : l.Subperm l') (hnodup : l'.Nodup) : l.Nodup := by
  obtain ⟨k, hk, hsub⟩ := h
  exact hk.nodup_iff.1 (hsub.nodup hnodup)

theorem flatMap_filter_eq {l : List κ} {p : κ → Bool} {g : κ → List α} :
    (l.filter p).flatMap g = l.flatMap fun k => if p k then g k else [] := by
  induction l with
  | nil => rfl
  | cons k l ih =>
    rw [List.filter_cons, List.flatMap_cons, ← ih]
    split <;> simp

end Grouping

/-- The groups of union-find, when the roots are read off a function of the position. -/
theorem groupsBy_eq {α : Type} {keys : List Nat} {f : Nat → Nat} {items : List α} :
    groupsBy keys ((List.range items.length).map f) items =
      keys.map fun r => (items.zipIdx.filter (f ·.2 = r)).map Prod.fst := by
  have hzip : ((List.range items.length).map f).zip items = items.zipIdx.map fun y =>
      (f y.2, y.1) := by
    rw [List.zipIdx_eq_zip_range', ← List.range_eq_range', List.zip_map_left, ← List.zip_swap,
      List.map_map]
    rfl
  unfold groupsBy
  rw [hzip]
  refine List.map_congr_left fun r _ => ?_
  rw [List.filter_map, List.map_map]
  rfl

section Day

variable {cosine : List Float32 → List Float32 → Float32} {cfg : StewardConfig}
  {bucket : List ClusterInput}

/-- The groups of a day's bucket, for the order in which its hash map gives the roots. -/
def dayGroups (cosine : List Float32 → List Float32 → Float32) (cfg : StewardConfig)
    (hash : HashOrder)
    (bucket : List ClusterInput) (day : Int) : List (List (ClusterInput × List Float32)) :=
  let roots := UnionFind.roots bucket.length (similarAt cosine cfg bucket)
  groupsBy (hash.order day roots.dedup) roots (bucket.map ClusterInput.withView)

theorem filter_withView (inputs : List ClusterInput) (day : Int) :
    (inputs.map ClusterInput.withView).filter (fun x => dayOf x.1 = day) =
      (bucketOf inputs day).map ClusterInput.withView := by
  rw [List.filter_map]
  rfl

theorem dayComponents_eq {hash : HashOrder} {inputs : List ClusterInput} {day : Int} :
    dayComponents cosine cfg hash (inputs.map ClusterInput.withView) day =
      if (bucketOf inputs day).length < cfg.clusterMinSize then []
      else ((dayGroups cosine cfg hash (bucketOf inputs day) day).filter fun g =>
        cfg.clusterMinSize ≤ g.length).flatMap (splitComponentByTime cfg) := by
  unfold dayComponents dayGroups similarAt
  dsimp only
  rw [filter_withView, List.length_map, List.map_map]
  rfl

/-- The episodes of a bucket with one root. -/
def groupAt (bucket : List ClusterInput) (f : Nat → Nat) (r : Nat) :
    List (ClusterInput × List Float32) :=
  (bucket.zipIdx.filter (f ·.2 = r)).map fun y => y.1.withView

/-- The groups are the components, each once: read off a root for each position. -/
theorem dayGroups_spec (cosine : List Float32 → List Float32 → Float32) (cfg : StewardConfig)
    (bucket : List ClusterInput) : ∃ (f : Nat → Nat) (roots : List Nat), roots.Nodup ∧
    (∀ r, r ∈ roots ↔ ∃ i < bucket.length, f i = r) ∧
    (∀ i < bucket.length, componentOf cosine cfg bucket i = bucket.zipIdx.filter (f ·.2 = f i)) ∧
    ∀ hash day, dayGroups cosine cfg hash bucket day = (hash.order day roots).map
    (groupAt bucket f) := by
  obtain ⟨f, hroots, hf⟩ := UnionFind.roots_spec bucket.length (similarAt cosine cfg bucket)
  refine ⟨f, (UnionFind.roots bucket.length (similarAt cosine cfg bucket)).dedup,
    List.nodup_dedup _, ?_, ?_, ?_⟩
  · intro r
    rw [List.mem_dedup, hroots]
    simp
  · intro i hi
    refine List.filter_congr fun y hy => ?_
    have hy' : y.2 < bucket.length := by
      have := List.snd_lt_add_of_mem_zipIdx hy
      omega
    rw [decide_eq_decide, eq_comm, hf i hi y.2 hy']
    rfl
  · intro hash day
    unfold dayGroups
    dsimp only
    rw [hroots, ← List.length_map ClusterInput.withView, groupsBy_eq]
    refine List.map_congr_left fun r _ => ?_
    rw [List.zipIdx_map, List.filter_map, List.map_map]
    rfl

theorem length_groupAt_le {f : Nat → Nat} {r : Nat} :
    (groupAt bucket f r).length ≤ bucket.length := by
  unfold groupAt
  rw [List.length_map]
  exact (List.length_filter_le _ _).trans_eq List.length_zipIdx

/-- The lists a day emits, group by group. -/
theorem dayComponents_eq_groups {hash : HashOrder} {inputs : List ClusterInput} {day : Int}
    {f : Nat → Nat} {keys : List Nat}
    (hgroups : dayGroups cosine cfg hash (bucketOf inputs day) day =
      keys.map (groupAt (bucketOf inputs day) f)) :
    dayComponents cosine cfg hash (inputs.map ClusterInput.withView) day =
      (keys.filter fun r => cfg.clusterMinSize ≤ (groupAt (bucketOf inputs day) f r).length).flatMap
        fun r => splitComponentByTime cfg (groupAt (bucketOf inputs day) f r) := by
  rw [dayComponents_eq, hgroups]
  split
  next hsmall =>
    have hnone :
        (keys.filter fun r => cfg.clusterMinSize ≤ (groupAt (bucketOf inputs day) f r).length) =
        [] := by
      refine List.filter_eq_nil_iff.2 fun r _ => ?_
      have : (groupAt (bucketOf inputs day) f r).length ≤ _ := length_groupAt_le
      simp only [decide_eq_true_eq, not_le]
      omega
    rw [hnone, List.flatMap_nil]
  · rw [List.filter_map, List.flatMap_map]
    rfl

theorem clusterable_perm {f : Nat → Nat} {keys : List Nat} (hkeys : keys.Nodup)
    (hmem : ∀ r, r ∈ keys ↔ ∃ i < bucket.length, f i = r)
    (hcomp : ∀ i < bucket.length, componentOf cosine cfg bucket i =
      bucket.zipIdx.filter (f ·.2 = f i)) :
    ((keys.filter fun r => cfg.clusterMinSize ≤ (groupAt bucket f r).length).flatMap
      (groupAt bucket f)).Perm ((clusterable cosine cfg bucket).map ClusterInput.withView) := by
  have hlt : ∀ y ∈ bucket.zipIdx, y.2 < bucket.length := by
    intro y hy
    have := List.snd_lt_add_of_mem_zipIdx hy
    omega
  have hbig :
      (bucket.zipIdx.filter fun x => cfg.clusterMinSize ≤
        (componentOf cosine cfg bucket x.2).length) =
      bucket.zipIdx.filter fun x => cfg.clusterMinSize ≤ (groupAt bucket f (f x.2)).length := by
    refine List.filter_congr fun y hy => ?_
    rw [hcomp y.2 (hlt y hy), groupAt, List.length_map]
  have hkey : ∀ x ∈ bucket.zipIdx.filter fun x => cfg.clusterMinSize ≤
      (groupAt bucket f (f x.2)).length,
      f x.2 ∈ keys := fun x hx => (hmem _).2 ⟨x.2, hlt x (List.mem_of_mem_filter hx), rfl⟩
  have hgroup := flatMap_filter_key_perm hkeys hkey
  rw [clusterable, hbig, List.map_map, flatMap_filter_eq]
  refine (List.Perm.of_eq ?_).trans (hgroup.map (ClusterInput.withView ∘ Prod.fst))
  rw [List.map_flatMap]
  refine List.flatMap_congr fun r _ => ?_
  rw [List.filter_filter]
  split
  next hr =>
    refine congrArg _ (List.filter_congr fun y _ => ?_)
    by_cases hy : f y.2 = r
    · simpa [hy] using hr
    · simp [hy]
  next hr =>
    rw [eq_comm, List.map_eq_nil_iff, List.filter_eq_nil_iff]
    intro y _ hy
    obtain ⟨hy, hlen⟩ := Bool.and_eq_true_iff.1 hy
    rw [of_decide_eq_true hy] at hlen
    exact hr hlen

/-- A day emits members of its clusterable episodes; it emits all of them when every component
fits. -/
theorem flatten_dayComponents (hash : HashOrder) (inputs : List ClusterInput) (day : Int) :
    (dayComponents cosine cfg hash (inputs.map ClusterInput.withView) day).flatten.Subperm
        ((clusterable cosine cfg (bucketOf inputs day)).map ClusterInput.withView) ∧
      ((dayComponents cosine cfg hash (inputs.map ClusterInput.withView) day).flatten.Perm
          ((clusterable cosine cfg (bucketOf inputs day)).map ClusterInput.withView) ↔
        ∀ i < (bucketOf inputs day).length,
          cfg.clusterMinSize ≤ (componentOf cosine cfg (bucketOf inputs day) i).length →
            cfg.Fits (componentOf cosine cfg (bucketOf inputs day) i).length) := by
  obtain ⟨f, roots, hroots, hmem, hcomp, hgroups⟩ := dayGroups_spec cosine cfg (bucketOf inputs day)
  have horder := hash.perm day roots
  have hkeys := horder.nodup_iff.2 hroots
  replace hmem := fun r => (horder.mem_iff : r ∈ _ ↔ _).trans (hmem r)
  have hperm := clusterable_perm hkeys hmem hcomp
  have hlen : ∀ i < (bucketOf inputs day).length,
      (componentOf cosine cfg (bucketOf inputs day) i).length =
      (groupAt (bucketOf inputs day) f (f i)).length := by
    intro i hi
    rw [hcomp i hi, groupAt, List.length_map]
  rw [dayComponents_eq_groups (hgroups hash day), flatten_flatMap]
  refine ⟨(flatMap_subperm fun r _ => flatten_split_subperm).trans hperm.subperm, ?_⟩
  rw [perm_congr_right hperm.symm, flatMap_perm_iff fun r _ => flatten_split_subperm]
  constructor
  · intro h i hi hmin
    rw [hlen i hi] at hmin ⊢
    have hr : f i ∈ (hash.order day roots).filter fun r => cfg.clusterMinSize ≤
        (groupAt (bucketOf inputs day) f r).length :=
      List.mem_filter.2 ⟨(hmem _).2 ⟨i, hi, rfl⟩, by simpa using hmin⟩
    exact flatten_split_perm_iff.1 (h _ hr)
  · intro h r hr
    obtain ⟨hr, hmin⟩ := List.mem_filter.1 hr
    obtain ⟨i, hi, rfl⟩ := (hmem r).1 hr
    refine flatten_split_perm_iff.2 ?_
    rw [← hlen i hi]
    refine h i hi ?_
    rw [hlen i hi]
    simpa using hmin

/-- An emitted list is part of one component, and within the bounds. -/
theorem mem_dayComponents {hash : HashOrder} {inputs : List ClusterInput} {day : Int}
    {members : List (ClusterInput × List Float32)}
    (h : members ∈ dayComponents cosine cfg hash (inputs.map ClusterInput.withView) day) :
    (∃ i < (bucketOf inputs day).length, ∀ x ∈ members,
        ∃ y ∈ componentOf cosine cfg (bucketOf inputs day) i, y.1 = x.1) ∧
      cfg.clusterMinSize ≤ members.length ∧ members.length ≤ cfg.maxSize := by
  obtain ⟨f, roots, -, hmem, hcomp, hgroups⟩ := dayGroups_spec cosine cfg (bucketOf inputs day)
  rw [dayComponents_eq_groups (hgroups hash day)] at h
  obtain ⟨r, hr, hmembers⟩ := List.mem_flatMap.1 h
  refine ⟨?_, length_of_mem_split hmembers⟩
  obtain ⟨i, hi, rfl⟩ := (hmem r).1 ((hash.perm day roots).mem_iff.1 (List.mem_of_mem_filter hr))
  refine ⟨i, hi, fun x hx => ?_⟩
  obtain ⟨y, hy, rfl⟩ := List.mem_map.1 (mem_of_mem_split hmembers hx)
  exact ⟨y, hcomp i hi ▸ hy, rfl⟩

end Day

section Emitted

variable {cosine : List Float32 → List Float32 → Float32} {cfg : StewardConfig} {hash : HashOrder}
  {newId : Nat → MemoryId} {inputs : List ClusterInput} {clusters : List Cluster}

/-- The member lists of all days, in the order in which they are pushed. -/
def memberLists (cosine : List Float32 → List Float32 → Float32) (cfg : StewardConfig)
    (hash : HashOrder) (inputs : List ClusterInput) : List (List (ClusterInput × List Float32)) :=
  (daysOf inputs).flatMap (dayComponents cosine cfg hash (inputs.map ClusterInput.withView))

theorem inputView_eq_ok {x : ClusterInput × Nat} {m : ClusterInput × List Float32}
    (h : inputView x = .ok m) : m = x.1.withView := by
  unfold inputView at h
  split at h
  · cases h
  next v hv =>
    rw [← Except.ok.inj h, ClusterInput.withView, ClusterInput.view, hv]
    rfl

/-- A call that succeeds sorts the clusters of the member lists. -/
theorem clusterEpisodes_eq_ok (h : clusterEpisodes cosine cfg hash newId inputs = .ok clusters) :
    ∃ dim, clusters = ((memberLists cosine cfg hash inputs).zipIdx.map fun m =>
      buildCluster cosine (newId m.2) dim m.1).insertionSort fun a b => earliestTs inputs a ≤
        earliestTs inputs b := by
  unfold clusterEpisodes at h
  split at h
  · exact ⟨0, (Except.ok.inj h).symm⟩
  next first rest =>
  split at h
  · cases h
  obtain ⟨-, -, h⟩ := Result.bind_eq_ok.1 h
  obtain ⟨viewed, hviewed, h⟩ := Result.bind_eq_ok.1 h
  have hmap : viewed.map id = (first :: rest).zipIdx.map fun x => x.1.withView :=
    Result.map_of_mapM_eq_ok (fun x m hx => inputView_eq_ok hx) hviewed
  have hzip : (first :: rest).zipIdx.map (fun x => x.1.withView) =
      (first :: rest).map ClusterInput.withView := by
    conv_rhs => rw [← List.zipIdx_map_fst 0 (first :: rest), List.map_map]
    rfl
  rw [List.map_id, hzip] at hmap
  subst hmap
  exact ⟨first.embedding.dim, (Result.pure_eq_ok.1 h).symm⟩

/-- The clusters hold the members of the lists, reordered. -/
theorem episodeIds_perm (h : clusterEpisodes cosine cfg hash newId inputs = .ok clusters) :
    (clusters.flatMap (·.episodeIds)).Perm
    ((memberLists cosine cfg hash inputs).flatten.map (·.1.memoryId)) := by
  obtain ⟨dim, rfl⟩ := clusterEpisodes_eq_ok h
  refine ((List.perm_insertionSort _ _).flatMap_right _).trans ?_
  rw [List.flatMap_map, List.map_flatten, ← List.flatMap_def]
  have hmembers : (memberLists cosine cfg hash inputs).flatMap (List.map fun x => x.1.memoryId) =
      (memberLists cosine cfg hash inputs).zipIdx.flatMap fun m => m.1.map fun x =>
      x.1.memoryId := by
    conv_lhs => rw [← List.zipIdx_map_fst 0 (memberLists cosine cfg hash inputs), List.flatMap_map]
  rw [hmembers]
  exact List.Perm.flatMap_left _ fun m _ => (List.perm_insertionSort _ _).map _

/-- The episodes that clustering is asked to place, day by day. -/
noncomputable def allClusterable (cosine : List Float32 → List Float32 → Float32)
    (cfg : StewardConfig) (inputs : List ClusterInput) : List ClusterInput :=
  (daysOf inputs).flatMap fun day => clusterable cosine cfg (bucketOf inputs day)

theorem flatten_memberLists :
    (memberLists cosine cfg hash inputs).flatten =
      (daysOf inputs).flatMap fun day =>
        (dayComponents cosine cfg hash (inputs.map ClusterInput.withView) day).flatten :=
  flatten_flatMap

theorem map_allClusterable :
    (allClusterable cosine cfg inputs).map ClusterInput.withView =
      (daysOf inputs).flatMap fun day =>
        (clusterable cosine cfg (bucketOf inputs day)).map ClusterInput.withView := by
  rw [allClusterable, List.map_flatMap]

theorem flatten_memberLists_subperm :
    (memberLists cosine cfg hash inputs).flatten.Subperm
      ((allClusterable cosine cfg inputs).map ClusterInput.withView) := by
  rw [flatten_memberLists, map_allClusterable]
  exact flatMap_subperm fun day _ => (flatten_dayComponents hash inputs day).1

theorem mem_daysOf {day : Int} : day ∈ daysOf inputs ↔ ∃ x ∈ inputs, dayOf x = day := by
  rw [daysOf, List.mem_insertionSort, List.mem_dedup, List.mem_map]

theorem nodup_daysOf : (daysOf inputs).Nodup :=
  (List.perm_insertionSort _ _).nodup_iff.2 (List.nodup_dedup _)

theorem clusterable_sublist {bucket : List ClusterInput} :
    (clusterable cosine cfg bucket).Sublist bucket := by
  have hsub : (clusterable cosine cfg bucket).Sublist (bucket.zipIdx.map Prod.fst) :=
    List.filter_sublist.map _
  rwa [List.zipIdx_map_fst] at hsub

theorem allClusterable_subperm : (allClusterable cosine cfg inputs).Subperm inputs := by
  have hdays : ((daysOf inputs).flatMap (bucketOf inputs)).Perm inputs :=
    flatMap_filter_key_perm nodup_daysOf fun x hx => mem_daysOf.2 ⟨x, hx, rfl⟩
  exact (flatMap_subperm fun day _ => clusterable_sublist.subperm).trans hdays.subperm

theorem map_memoryId_withView {l : List ClusterInput} :
    (l.map ClusterInput.withView).map (·.1.memoryId) = l.map (·.memoryId) := by
  rw [List.map_map]
  rfl

/-- The clusters hold only clusterable episodes, none of them more often than the list. -/
theorem episodeIds_subperm (h : clusterEpisodes cosine cfg hash newId inputs = .ok clusters) :
    (clusters.flatMap (·.episodeIds)).Subperm
    ((allClusterable cosine cfg inputs).map (·.memoryId)) := by
  have hids : ((memberLists cosine cfg hash inputs).flatten.map (·.1.memoryId)).Subperm _ :=
    map_subperm flatten_memberLists_subperm
  rw [map_memoryId_withView] at hids
  exact (episodeIds_perm h).subperm.trans hids

theorem nodup_episodeIds (h : clusterEpisodes cosine cfg hash newId inputs = .ok clusters)
    (hids : (inputs.map (·.memoryId)).Nodup) : (clusters.flatMap (·.episodeIds)).Nodup :=
  nodup_of_subperm ((episodeIds_subperm h).trans (map_subperm allClusterable_subperm)) hids

/-! ### The earliest episode of a cluster -/

theorem earliestTs_le {c : Cluster} {x : ClusterInput} (hx : x ∈ inputs)
    (hid : x.memoryId ∈ c.episodeIds) : earliestTs inputs c ≤ x.tsMs := by
  unfold earliestTs
  have hmem : x.tsMs ∈ (inputs.filter fun x => c.episodeIds.contains x.memoryId).map (·.tsMs) :=
    List.mem_map_of_mem (List.mem_filter.2 ⟨hx, List.contains_iff_mem.2 hid⟩)
  cases hmin : ((inputs.filter fun x => c.episodeIds.contains x.memoryId).map (·.tsMs)).min? with
  | none =>
    rw [List.min?_eq_none_iff] at hmin
    rw [hmin] at hmem
    cases hmem
  | some m => exact (List.min?_eq_some_iff.1 hmin).2 _ hmem

theorem exists_earliestTs {c : Cluster} {x : ClusterInput} (hx : x ∈ inputs)
    (hid : x.memoryId ∈ c.episodeIds) :
    ∃ y ∈ inputs, y.memoryId ∈ c.episodeIds ∧ y.tsMs = earliestTs inputs c := by
  have hmem : x.tsMs ∈ (inputs.filter fun x => c.episodeIds.contains x.memoryId).map (·.tsMs) :=
    List.mem_map_of_mem (List.mem_filter.2 ⟨hx, List.contains_iff_mem.2 hid⟩)
  cases hmin : ((inputs.filter fun x => c.episodeIds.contains x.memoryId).map (·.tsMs)).min? with
  | none =>
    rw [List.min?_eq_none_iff] at hmin
    rw [hmin] at hmem
    cases hmem
  | some m =>
    obtain ⟨y, hy, hm⟩ := List.mem_map.1 (List.min?_eq_some_iff.1 hmin).1
    obtain ⟨hy, hyid⟩ := List.mem_filter.1 hy
    refine ⟨y, hy, List.contains_iff_mem.1 hyid, ?_⟩
    unfold earliestTs
    rw [hmin, hm]
    rfl

/-! ### What the clusters satisfy -/

/-- What the clusters of a list are to be: disjoint parts of components, within the bounds, in the
order of their earliest episodes. -/
structure ClustersOf (cosine : List Float32 → List Float32 → Float32) (cfg : StewardConfig)
    (inputs : List ClusterInput) (clusters : List Cluster) : Prop where
  nodup : ∀ c ∈ clusters, c.episodeIds.Nodup
  disjoint : clusters.Pairwise fun c d => c.episodeIds.Disjoint d.episodeIds
  component : ∀ c ∈ clusters, ∃ day, ∃ i < (bucketOf inputs day).length, ∀ id ∈ c.episodeIds,
    ∃ y ∈ componentOf cosine cfg (bucketOf inputs day) i, y.1.memoryId = id
  size : ∀ c ∈ clusters, cfg.clusterMinSize ≤ c.episodeIds.length ∧
    c.episodeIds.length ≤ cfg.clusterMaxSize
  ordered : clusters.Pairwise fun c d => ∃ x ∈ inputs, x.memoryId ∈ c.episodeIds ∧
    ∀ y ∈ inputs, y.memoryId ∈ d.episodeIds → x.tsMs ≤ y.tsMs

theorem members_of_mem_clusters (h : clusterEpisodes cosine cfg hash newId inputs = .ok clusters)
    {c : Cluster}
    (hc : c ∈ clusters) :
    ∃ day, ∃ members ∈ dayComponents cosine cfg hash (inputs.map ClusterInput.withView) day,
      c.episodeIds.Perm (members.map (·.1.memoryId)) := by
  obtain ⟨dim, rfl⟩ := clusterEpisodes_eq_ok h
  obtain ⟨m, hm, rfl⟩ := List.mem_map.1 ((List.mem_insertionSort _).1 hc)
  obtain ⟨day, -, hmembers⟩ := List.mem_flatMap.1 (List.fst_mem_of_mem_zipIdx hm)
  exact ⟨day, m.1, hmembers, (List.perm_insertionSort _ _).map _⟩

/-- Every successful call emits such clusters. -/
theorem clusterEpisodes_meetsSpec (h : clusterEpisodes cosine cfg hash newId inputs = .ok clusters)
    (hids : (inputs.map (·.memoryId)).Nodup) (hsizes : cfg.clusterMinSize ≤ cfg.clusterMaxSize) :
    ClustersOf cosine cfg inputs clusters := by
  have hnodup := nodup_episodeIds h hids
  rw [List.nodup_flatMap] at hnodup
  have hmax : cfg.maxSize = cfg.clusterMaxSize := Nat.max_eq_left hsizes
  refine ⟨hnodup.1, hnodup.2, fun c hc => ?_, fun c hc => ?_, ?_⟩
  · obtain ⟨day, members, hmembers, hperm⟩ := members_of_mem_clusters h hc
    obtain ⟨⟨i, hi, hcomp⟩, -⟩ := mem_dayComponents hmembers
    refine ⟨day, i, hi, fun id hid => ?_⟩
    obtain ⟨x, hx, rfl⟩ := List.mem_map.1 (hperm.mem_iff.1 hid)
    obtain ⟨y, hy, heq⟩ := hcomp x hx
    exact ⟨y, hy, congrArg _ heq⟩
  · obtain ⟨day, members, hmembers, hperm⟩ := members_of_mem_clusters h hc
    obtain ⟨-, hmin, hle⟩ := mem_dayComponents hmembers
    rw [hperm.length_eq, List.length_map, ← hmax]
    exact ⟨hmin, hle⟩
  · have hne : ∀ c ∈ clusters, ∃ x ∈ inputs, x.memoryId ∈ c.episodeIds := by
      intro c hc
      obtain ⟨day, members, hmembers, hperm⟩ := members_of_mem_clusters h hc
      obtain ⟨⟨i, hi, hcomp⟩, hmin, -⟩ := mem_dayComponents hmembers
      have hpos := cfg.clusterMinSize_pos
      obtain ⟨x, hx⟩ := List.exists_mem_of_length_pos (by omega : 0 < members.length)
      obtain ⟨y, hy, heq⟩ := hcomp x hx
      have hy' : y.1 ∈ inputs :=
        List.mem_of_mem_filter (List.fst_mem_of_mem_zipIdx (List.mem_of_mem_filter hy))
      exact ⟨y.1, hy', hperm.mem_iff.2 (List.mem_map.2 ⟨x, hx, heq ▸ rfl⟩)⟩
    have hsorted : clusters.Pairwise fun c d => earliestTs inputs c ≤ earliestTs inputs d := by
      obtain ⟨dim, rfl⟩ := clusterEpisodes_eq_ok h
      have : Std.Total fun a b : Cluster => earliestTs inputs a ≤ earliestTs inputs b :=
        ⟨fun a b => Int.le_total _ _⟩
      have : IsTrans Cluster fun a b => earliestTs inputs a ≤ earliestTs inputs b :=
        ⟨fun a b c => Int.le_trans⟩
      exact List.pairwise_insertionSort _ _
    refine hsorted.imp_of_mem fun {c d} hc _ hle => ?_
    obtain ⟨x, hx, hid⟩ := hne c hc
    obtain ⟨y, hy, hyid, hts⟩ := exists_earliestTs hx hid
    exact ⟨y, hy, hyid, fun z hz hzid => hts ▸ hle.trans (earliestTs_le hz hzid)⟩

end Emitted

namespace ClusterSample

/-- The number one, as a vector. -/
def one : Embedding := ⟨.f32, 1, [0, 0, 128, 63]⟩

def cfg : StewardConfig := ⟨2, 3, 0.9, Nat.two_pos⟩

def keysOrder : HashOrder := ⟨fun _ keys => keys, fun _ _ => .refl _⟩

/-- Four episodes of one day that are all alike, one more than the cap. -/
def four : List ClusterInput := [⟨"a", 1, one⟩, ⟨"b", 2, one⟩, ⟨"c", 3, one⟩, ⟨"d", 4, one⟩]

theorem four_nodup : (four.map (·.memoryId)).Nodup := by decide

theorem four_run : ∃ clusters, clusterEpisodes cosineSimilarityF32 cfg keysOrder (fun _ => "k")
    four = .ok clusters ∧ clusters.map (·.episodeIds) = [["a", "b", "c"]] := by
  have hrun : ((clusterEpisodes cosineSimilarityF32 cfg keysOrder (fun _ => "k") four).toOption.map
      fun cs => cs.map (·.episodeIds)) = some [["a", "b", "c"]] := by decide +kernel
  cases hres : clusterEpisodes cosineSimilarityF32 cfg keysOrder (fun _ => "k") four with
  | error e =>
    rw [hres] at hrun
    cases hrun
  | ok clusters =>
    rw [hres] at hrun
    exact ⟨clusters, rfl, Option.some.inj hrun⟩

/-- All four are in one component. -/
theorem four_component : componentOf cosineSimilarityF32 cfg (bucketOf four 0) 0 = four.zipIdx := by
  have hbucket : bucketOf four 0 = four := List.filter_eq_self.2 (by decide)
  have hedges : ∀ b < 4, 0 < b → similarAt cosineSimilarityF32 cfg four 0 b = true := by
    decide +kernel
  rw [hbucket, componentOf]
  refine List.filter_eq_self.2 fun y hy => ?_
  simp only [decide_eq_true_eq]
  have hlt : y.2 < four.length + 0 := List.snd_lt_add_of_mem_zipIdx hy
  by_cases hzero : y.2 = 0
  · rw [hzero]
    exact .refl 0
  · exact .rel _ _ ⟨Nat.pos_of_ne_zero hzero, hlt, hedges y.2 hlt (Nat.pos_of_ne_zero hzero)⟩

end ClusterSample

open ClusterSample in
theorem clusterEpisodes_meetsSpec_four : ∃ clusters,
    clusterEpisodes cosineSimilarityF32 cfg keysOrder (fun _ => "k") four = .ok clusters ∧
      clusters.map (·.episodeIds) = [["a", "b", "c"]] ∧
      ClustersOf cosineSimilarityF32 cfg four clusters := by
  obtain ⟨clusters, hrun, hids⟩ := four_run
  exact ⟨clusters, hrun, hids, clusterEpisodes_meetsSpec hrun four_nodup (Nat.le_succ 2)⟩

/-! ### What splitting loses -/

section Lost

variable {cosine : List Float32 → List Float32 → Float32} {cfg : StewardConfig} {hash : HashOrder}
  {newId : Nat → MemoryId} {inputs : List ClusterInput} {clusters : List Cluster}

/-- Every component that reaches the minimum is a whole number of full chunks, or leaves a remainder
that reaches the minimum too. -/
def ComponentsFit (cosine : List Float32 → List Float32 → Float32) (cfg : StewardConfig)
    (inputs : List ClusterInput) : Prop :=
  ∀ day, ∀ i < (bucketOf inputs day).length,
    cfg.clusterMinSize ≤ (componentOf cosine cfg (bucketOf inputs day) i).length →
      cfg.Fits (componentOf cosine cfg (bucketOf inputs day) i).length

/-- The clusters hold each clusterable episode as often as the list does. -/
def LosesNone (cosine : List Float32 → List Float32 → Float32) (cfg : StewardConfig)
    (inputs : List ClusterInput) (clusters : List Cluster) : Prop :=
  (clusters.flatMap (·.episodeIds)).Perm ((allClusterable cosine cfg inputs).map (·.memoryId))

/-- Each clusterable episode is in exactly one cluster. -/
def EachInOne (cosine : List Float32 → List Float32 → Float32) (cfg : StewardConfig)
    (inputs : List ClusterInput) (clusters : List Cluster) : Prop :=
  ∀ x ∈ allClusterable cosine cfg inputs, clusters.countP (fun c => x.memoryId ∈ c.episodeIds) = 1

theorem losesNone_iff (h : clusterEpisodes cosine cfg hash newId inputs = .ok clusters) :
    LosesNone cosine cfg inputs clusters ↔ ComponentsFit cosine cfg inputs := by
  have hlists : LosesNone cosine cfg inputs clusters ↔
      (memberLists cosine cfg hash inputs).flatten.Perm
      ((allClusterable cosine cfg inputs).map ClusterInput.withView) := by
    constructor
    · intro hperm
      have hlen := ((episodeIds_perm h).symm.trans hperm).length_eq
      rw [List.length_map, List.length_map] at hlen
      refine flatten_memberLists_subperm.perm_of_length_le ?_
      rw [List.length_map, hlen]
    · intro hperm
      have hids := hperm.map fun x => x.1.memoryId
      rw [map_memoryId_withView] at hids
      exact (episodeIds_perm h).trans hids
  rw [hlists, flatten_memberLists, map_allClusterable,
    flatMap_perm_iff fun day _ => (flatten_dayComponents hash inputs day).1]
  constructor
  · intro hdays day i hi
    have hne : (bucketOf inputs day) ≠ [] := List.ne_nil_of_length_pos (by omega)
    obtain ⟨x, hx⟩ := List.exists_mem_of_ne_nil _ hne
    obtain ⟨hx, hday⟩ := List.mem_filter.1 hx
    have hmem : day ∈ daysOf inputs := mem_daysOf.2 ⟨x, hx, of_decide_eq_true hday⟩
    exact (flatten_dayComponents hash inputs day).2.1 (hdays day hmem) i hi
  · intro hfit day _
    exact (flatten_dayComponents hash inputs day).2.2 (hfit day)

theorem countP_mem_eq_count {l : List (List MemoryId)} (hl : ∀ c ∈ l, c.Nodup) {a : MemoryId} :
    l.countP (fun c => a ∈ c) = l.flatten.count a := by
  induction l with
  | nil => rfl
  | cons c l ih =>
    rw [List.countP_cons, List.flatten_cons, List.count_append,
      ih fun c hc => hl c (List.mem_cons_of_mem _ hc)]
    by_cases ha : a ∈ c
    · rw [List.count_eq_one_of_mem (hl c List.mem_cons_self) ha, if_pos (by simpa using ha)]
      omega
    · rw [List.count_eq_zero_of_not_mem ha, if_neg (by simpa using ha)]
      omega

theorem eachInOne_iff (h : clusterEpisodes cosine cfg hash newId inputs = .ok clusters)
    (hids : (inputs.map (·.memoryId)).Nodup) :
    EachInOne cosine cfg inputs clusters ↔ LosesNone cosine cfg inputs clusters := by
  have hnodup := nodup_episodeIds h hids
  have hcount : ∀ id, clusters.countP (fun c => id ∈ c.episodeIds) =
      (clusters.flatMap (·.episodeIds)).count id := by
    intro id
    rw [List.flatMap_def, ← countP_mem_eq_count, List.countP_map]
    · rfl
    · intro c hc
      obtain ⟨k, hk, rfl⟩ := List.mem_map.1 hc
      exact (List.nodup_flatMap.1 hnodup).1 k hk
  unfold EachInOne LosesNone
  constructor
  · intro hone
    have hsub : ((allClusterable cosine cfg inputs).map (·.memoryId)).Subperm
        (clusters.flatMap (·.episodeIds)) := by
      refine List.subperm_of_subset (nodup_of_subperm (map_subperm allClusterable_subperm) hids)
        fun id hid => ?_
      obtain ⟨x, hx, rfl⟩ := List.mem_map.1 hid
      have hx := hone x hx
      rw [hcount] at hx
      exact List.count_pos_iff.1 (by omega)
    exact (episodeIds_subperm h).antisymm hsub
  · intro hperm x hx
    rw [hcount]
    exact List.count_eq_one_of_mem hnodup (hperm.mem_iff.2 (List.mem_map_of_mem hx))

/-- Splitting keeps every clusterable episode exactly when every component fits. -/
theorem split_losesNone_iff (h : clusterEpisodes cosine cfg hash newId inputs = .ok clusters) :
    (LosesNone cosine cfg inputs clusters ↔ ComponentsFit cosine cfg inputs) ∧
      ((inputs.map (·.memoryId)).Nodup →
        (EachInOne cosine cfg inputs clusters ↔ ComponentsFit cosine cfg inputs)) :=
  ⟨losesNone_iff h, fun hids => (eachInOne_iff h hids).trans (losesNone_iff h)⟩

end Lost

open ClusterSample in
theorem split_losesNone_iff_four : ∃ clusters,
    clusterEpisodes cosineSimilarityF32 cfg keysOrder (fun _ => "k") four = .ok clusters ∧
      (EachInOne cosineSimilarityF32 cfg four clusters ↔
        ComponentsFit cosineSimilarityF32 cfg four) := by
  obtain ⟨clusters, hrun, -⟩ := four_run
  exact ⟨clusters, hrun, (split_losesNone_iff hrun).2 four_nodup⟩

open ClusterSample in
/-- The fourth of four alike is a remainder of one, and below the minimum of two. -/
theorem fourAlike_loses : ¬ ∀ (cfg : StewardConfig) (hash : HashOrder) (newId : Nat → MemoryId)
    (inputs : List ClusterInput) (clusters : List Cluster), (inputs.map (·.memoryId)).Nodup →
    cfg.clusterMinSize ≤ cfg.clusterMaxSize →
    clusterEpisodes cosineSimilarityF32 cfg hash newId inputs = .ok clusters →
    EachInOne cosineSimilarityF32 cfg inputs clusters := by
  intro h
  obtain ⟨clusters, hrun, -⟩ := four_run
  have hone := h cfg keysOrder (fun _ => "k") four clusters four_nodup (Nat.le_succ 2) hrun
  have hfit := (losesNone_iff hrun).1 ((eachInOne_iff hrun four_nodup).1 hone) 0 0 (by decide)
  rw [four_component] at hfit
  have hfour : cfg.Fits 4 := hfit (by decide)
  unfold StewardConfig.Fits at hfour
  revert hfour
  decide

end Solo
