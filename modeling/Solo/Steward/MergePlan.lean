import Mathlib.Data.List.Dedup
import Solo.Steward.Cluster

/-!
# What a merge plan merges (`compute_merge_plan`)

Whatever the similarity and the union-find made of it, the entries of a plan merge disjoint groups
of the given clusters: one of a group survives, the others are its losers, and together they stay
below the size cap.
-/

namespace Solo

/-- Grouping by key only reorders a list, if the keys are all there, once each. -/
theorem flatMap_filter_perm {κ α : Type} [DecidableEq κ] {keys : List κ} (hkeys : keys.Nodup)
    {l : List (κ × α)}
    (hl : ∀ x ∈ l, x.1 ∈ keys) : (keys.flatMap fun k => l.filter (·.1 = k)).Perm l := by
  induction keys generalizing l with
  | nil =>
    cases l with
    | nil => exact .nil
    | cons x l => exact absurd (hl x List.mem_cons_self) List.not_mem_nil
  | cons k keys ih =>
    obtain ⟨hk, hkeys⟩ := List.nodup_cons.1 hkeys
    set rest := l.filter fun x => !decide (x.1 = k) with hrest
    have hsame : (keys.flatMap fun k' => l.filter (·.1 = k')) = keys.flatMap fun k' =>
        rest.filter (·.1 = k') := by
      refine List.flatMap_congr fun k' hk' => ?_
      rw [hrest, List.filter_filter]
      refine List.filter_congr fun x _ => ?_
      by_cases hx : x.1 = k'
      · have hne : k' ≠ k := fun heq => hk (heq ▸ hk')
        simp [hx, hne]
      · simp [hx]
    have hmem : ∀ x ∈ rest, x.1 ∈ keys := by
      intro x hx
      obtain ⟨hx, hne⟩ := List.mem_filter.1 hx
      exact (List.mem_cons.1 (hl x hx)).resolve_left (by simpa using hne)
    rw [List.flatMap_cons, hsame]
    exact ((ih hkeys hmem).append_left _).trans (List.filter_append_perm _ l)

theorem flatten_groupsBy_perm {α : Type} {keys roots : List Nat} {items : List α}
    (hkeys : keys.Nodup) (hroots : ∀ r ∈ roots, r ∈ keys) (hlen : roots.length = items.length) :
    (groupsBy keys roots items).flatten.Perm items := by
  have hzip : (roots.zip items).map Prod.snd = items := by
    rw [List.map_snd_zip]
    exact hlen.ge
  have hperm : ((keys.flatMap fun k => (roots.zip items).filter (·.1 = k)).map Prod.snd).Perm
      items := by
    refine ((flatMap_filter_perm hkeys fun x hx => hroots _ ?_).map Prod.snd).trans (.of_eq hzip)
    exact (List.of_mem_zip hx).1
  rwa [List.map_flatMap, List.flatMap_def] at hperm

/-- The clusters an entry names. -/
def MergeOp.ids (op : MergeOp) : List MemoryId := op.survivorId :: op.loserIds

/-- An entry merges the group: a survivor, the others as losers, within the cap. -/
structure Merges (cfg : StewardConfig) (op : MergeOp) (group : List Cluster) : Prop where
  members : ∃ survivor losers, group.Perm (survivor :: losers) ∧ losers ≠ [] ∧
    op.survivorId = survivor.clusterId ∧ op.loserIds = losers.map (·.clusterId)
  capped : (group.map (·.episodeIds.length)).sum ≤ cfg.maxSize
  episodeIds :
    op.mergedEpisodeIds = ((group.flatMap (·.episodeIds)).insertionSort (· ≤ ·)).destutter (· ≠ ·)

theorem foldl_betterSurvivor_mem {first : MergeMember} {rest : List MergeMember} :
    rest.foldl betterSurvivor first ∈ first :: rest := by
  induction rest generalizing first with
  | nil => exact List.mem_cons_self
  | cons m rest ih =>
    have hbetter : betterSurvivor first m = first ∨ betterSurvivor first m = m := by
      unfold betterSurvivor
      dsimp only
      split
      · exact .inl rfl
      · exact .inr rfl
    have hrest : rest.foldl betterSurvivor (betterSurvivor first m) ∈ betterSurvivor first m ::
        rest := ih
    rcases List.mem_cons.1 hrest with heq | hmem
    · rw [List.foldl_cons, heq]
      rcases hbetter with hb | hb <;> simp [hb]
    · exact List.mem_cons_of_mem _ (List.mem_cons_of_mem _ hmem)

theorem mergeGroup_eq_some {cfg : StewardConfig} {dim : Nat} {members : List MergeMember}
    {op : MergeOp} (hpos : (members.map (·.pos)).Nodup) (h : mergeGroup cfg dim members = some op) :
    Merges cfg op (members.map (·.cluster)) := by
  unfold mergeGroup at h
  split at h
  · cases h
  · cases h
  next first rest hrest =>
  dsimp only at h
  split at h
  · cases h
  next hcap =>
  obtain rfl := Option.some.inj h
  refine ⟨?_, by rw [List.map_map]; exact Nat.le_of_not_lt hcap, by rw [List.flatMap_map]⟩
  classical
  set survivor := rest.foldl betterSurvivor first with hsurvivor
  have hmem : survivor ∈ first :: rest := foldl_betterSurvivor_mem
  have hinj {m : MergeMember} (hm : m ∈ first :: rest) : m = survivor ↔ m.pos = survivor.pos :=
    ⟨congrArg _, fun heq => List.inj_on_of_nodup_map hpos hm hmem heq⟩
  have hlosers : (first :: rest).filter (fun m => decide (m.pos ≠ survivor.pos)) =
      (first :: rest).erase survivor := by
    rw [List.Nodup.erase_eq_filter (List.Nodup.of_map _ hpos)]
    refine List.filter_congr fun m hm => ?_
    rw [Bool.eq_iff_iff, decide_eq_true_eq, bne_iff_ne, Ne, Ne, hinj hm]
  refine ⟨survivor.cluster, ((first :: rest).erase survivor).map (·.cluster), ?_, ?_, rfl, ?_⟩
  · exact (List.perm_cons_erase hmem).map _
  · intro hnil
    have hlen := congrArg List.length hnil
    rw [List.length_map, List.length_erase_of_mem hmem] at hlen
    cases rest with
    | nil => exact hrest rfl
    | cons => simp at hlen
  · rw [← hlosers, List.map_map]
    rfl

theorem mergeMember_eq_ok {x : Cluster × Nat} {m : MergeMember} (h : mergeMember x = .ok m) :
    m.pos = x.2 ∧ m.cluster = x.1 := by
  unfold mergeMember at h
  split at h
  · cases h
  · exact Except.ok.inj h ▸ ⟨rfl, rfl⟩

/-- The entries of a plan, by what holds of each entry and its group. -/
theorem filterMap_mergeGroup {cfg : StewardConfig} {dim : Nat} {R : MergeOp → List Cluster → Prop}
    (hR : ∀ g op, (g.map (·.pos)).Nodup → mergeGroup cfg dim g = some op → R op (g.map (·.cluster)))
    {groups : List (List MergeMember)} (hpos : ∀ g ∈ groups, (g.map (·.pos)).Nodup) :
    ∃ merged : List (List Cluster), merged.flatten.Subperm (groups.flatten.map (·.cluster)) ∧
      List.Forall₂ R (groups.filterMap (mergeGroup cfg dim)) merged := by
  induction groups with
  | nil => exact ⟨[], List.nil_subperm, .nil⟩
  | cons g groups ih =>
    obtain ⟨merged, hsub, hall⟩ := ih fun g' hg' => hpos g' (List.mem_cons_of_mem _ hg')
    rw [List.flatten_cons, List.map_append]
    cases hop : mergeGroup cfg dim g with
    | none =>
      rw [List.filterMap_cons_none hop]
      exact ⟨merged, hsub.trans (List.sublist_append_right _ _).subperm, hall⟩
    | some op =>
      rw [List.filterMap_cons_some hop]
      exact ⟨g.map (·.cluster) :: merged, (List.Subperm.refl _).append hsub,
        .cons (hR g op (hpos g List.mem_cons_self) hop) hall⟩

section Plan

variable {cosine : List Float32 → List Float32 → Float32} {cfg : StewardConfig}
  {clusters : List Cluster} {merges : List MergeOp}

/-- The entries of a plan are of disjoint groups of the clusters. -/
theorem computeMergePlan_groups {R : MergeOp → List Cluster → Prop}
    (hR : ∀ dim g op, (g.map (·.pos)).Nodup → mergeGroup cfg dim g = some op →
      R op (g.map (·.cluster)))
    (h : computeMergePlan cosine cfg clusters = .ok merges) :
    ∃ groups : List (List Cluster), groups.flatten.Subperm clusters ∧
    List.Forall₂ R merges groups := by
  unfold computeMergePlan at h
  split at h
  · cases h
    exact ⟨[], List.nil_subperm, .nil⟩
  split at h
  · cases h
  next first _ =>
  obtain ⟨-, -, h⟩ := Result.bind_eq_ok.1 h
  obtain ⟨members, hmembers, h⟩ := Result.bind_eq_ok.1 h
  rw [Result.pure_eq_ok] at h
  have hcluster : members.map (·.cluster) = clusters := by
    rw [Result.map_of_mapM_eq_ok (fun x m hx => (mergeMember_eq_ok hx).2) hmembers,
      List.zipIdx_map_fst]
  have hpos : (members.map (·.pos)).Nodup := by
    rw [Result.map_of_mapM_eq_ok (fun x m hx => (mergeMember_eq_ok hx).1) hmembers,
      List.zipIdx_map_snd]
    exact List.nodup_range'
  set roots := UnionFind.roots clusters.length fun a b => decide (cfg.clusterCosineThreshold ≤
    cosine ((members.map (·.view)).getD a []) ((members.map (·.view)).getD b [])) with hroots
  have hperm :
      (groupsBy (roots.dedup.insertionSort (· ≤ ·)) roots members).flatten.Perm members := by
    refine flatten_groupsBy_perm ?_ ?_ ?_
    · exact (List.perm_insertionSort _ _).nodup_iff.2 (List.nodup_dedup _)
    · exact fun r hr => (List.mem_insertionSort _).2 (List.mem_dedup.2 hr)
    · rw [hroots, UnionFind.length_roots, ← hcluster, List.length_map]
  obtain ⟨merged, hsub, hall⟩ := filterMap_mergeGroup (hR first.dim)
    fun g (hg : g ∈ groupsBy (roots.dedup.insertionSort (· ≤ ·)) roots members) =>
      ((List.sublist_flatten_of_mem hg).map _).nodup ((hperm.map _).nodup_iff.2 hpos)
  exact ⟨merged, hsub.trans ((hperm.map _).trans (.of_eq hcluster)).subperm, h ▸ hall⟩

/-- The entries of a plan merge disjoint groups of the clusters. -/
theorem computeMergePlan_eq_ok (h : computeMergePlan cosine cfg clusters = .ok merges) :
    ∃ groups : List (List Cluster), groups.flatten.Subperm clusters ∧
    List.Forall₂ (Merges cfg) merges groups :=
  computeMergePlan_groups (fun _ _ _ => mergeGroup_eq_some) h

/-- The entries name each cluster of their groups once. -/
theorem flatMap_ids_perm {groups : List (List Cluster)}
    (h : List.Forall₂ (Merges cfg) merges groups) :
    (merges.flatMap MergeOp.ids).Perm (groups.flatten.map (·.clusterId)) := by
  induction h with
  | nil => exact .nil
  | cons hop _ ih =>
    obtain ⟨survivor, losers, hperm, -, hsurvivor, hlosers⟩ := hop.members
    rw [List.flatMap_cons, List.flatten_cons, List.map_append]
    refine List.Perm.append ?_ ih
    rw [MergeOp.ids, hsurvivor, hlosers]
    exact (hperm.map (·.clusterId)).symm

theorem loserIds_ne_nil {groups : List (List Cluster)} (h : List.Forall₂ (Merges cfg) merges groups)
    {op : MergeOp} (hop : op ∈ merges) : op.loserIds ≠ [] := by
  induction h with
  | nil => cases hop
  | cons hhead _ ih =>
    rcases List.mem_cons.1 hop with rfl | hop
    · obtain ⟨survivor, losers, -, hne, -, hlosers⟩ := hhead.members
      rw [hlosers]
      exact fun hnil => hne (List.map_eq_nil_iff.1 hnil)
    · exact ih hop

/-- A plan over clusters with distinct ids names each of them at most once, and merges something. -/
theorem computeMergePlan_ids (hids : (clusters.map (·.clusterId)).Nodup)
    (h : computeMergePlan cosine cfg clusters = .ok merges) :
    (merges.flatMap MergeOp.ids).Nodup ∧ (∀ op ∈ merges, op.loserIds ≠ []) ∧
      ∀ id ∈ merges.flatMap MergeOp.ids, ∃ c ∈ clusters, c.clusterId = id := by
  obtain ⟨groups, hsub, hall⟩ := computeMergePlan_eq_ok h
  have hperm := flatMap_ids_perm hall
  refine ⟨hperm.nodup_iff.2 ?_, fun op hop => loserIds_ne_nil hall hop, fun id hid => ?_⟩
  · obtain ⟨l, hl, hsublist⟩ := hsub
    exact (hl.map _).nodup_iff.1 ((hsublist.map _).nodup hids)
  · obtain ⟨c, hc, rfl⟩ := List.mem_map.1 (hperm.mem_iff.1 hid)
    exact ⟨c, hsub.subset hc, rfl⟩

end Plan

end Solo
