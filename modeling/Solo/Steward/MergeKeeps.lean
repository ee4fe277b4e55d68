import Mathlib.Data.String.Basic
import Solo.Steward.MergePlan

/-!
# What merging keeps (`merge_clusters_by_centroid`)

Merging and its plan are of one algorithm: the list that is merged in memory is the one the plan
describes. `mergeClustersByCentroid_keeps`: over clusters with ids of their own, every episode stays
in exactly one cluster, each group is left under the id of its largest member, and the count is that
of the clusters that are gone. Two clusters of one id would both be taken for losers.
-/

namespace Solo

/-- The largest of a group, of equals the one with the smallest id. -/
def Cluster.Leads (c : Cluster) (group : List Cluster) : Prop :=
  c ∈ group ∧ ∀ c' ∈ group, c'.episodeIds.length < c.episodeIds.length ∨
    c'.episodeIds.length = c.episodeIds.length ∧ c.clusterId ≤ c'.clusterId

/-- An entry merges the group under the id of its leader. -/
structure MergesUnder (cfg : StewardConfig) (op : MergeOp) (group : List Cluster) :
    Prop extends Merges cfg op group where
  leader : ∃ c : Cluster, c.Leads group ∧ op.survivorId = c.clusterId

/-- The cluster that an entry leaves. -/
def MergeOp.merged (op : MergeOp) : Cluster :=
  ⟨op.survivorId, op.mergedEpisodeIds, some op.mergedCentroid, op.mergedCoherence⟩

/-! ### The survivor -/

/-- What the survivor is to the others. -/
def MergeMember.Beats (a b : MergeMember) : Prop :=
  b.cluster.episodeIds.length < a.cluster.episodeIds.length ∨
    b.cluster.episodeIds.length = a.cluster.episodeIds.length ∧
    a.cluster.clusterId ≤ b.cluster.clusterId

namespace MergeMember

theorem Beats.refl (a : MergeMember) : a.Beats a := .inr ⟨rfl, le_rfl⟩

theorem Beats.trans {a b c : MergeMember} (hab : a.Beats b) (hbc : b.Beats c) : a.Beats c := by
  rcases hab with hab | ⟨hab, hid⟩ <;> rcases hbc with hbc | ⟨hbc, hid'⟩
  · exact .inl (hbc.trans hab)
  · exact .inl (hbc ▸ hab)
  · exact .inl (hab ▸ hbc)
  · exact .inr ⟨hbc.trans hab, hid.trans hid'⟩

end MergeMember

theorem betterSurvivor_beats (a b : MergeMember) : (betterSurvivor a b).Beats a ∧
    (betterSurvivor a b).Beats b := by
  unfold betterSurvivor
  dsimp only
  split
  · next h =>
    refine ⟨.refl a, ?_⟩
    rcases h with h | ⟨h, hid⟩
    · exact .inl h
    · exact .inr ⟨h, hid.le⟩
  · next h =>
    refine ⟨?_, .refl b⟩
    rw [not_or, not_and] at h
    rcases Nat.lt_or_eq_of_le (Nat.le_of_not_lt h.1) with hlt | heq
    · exact .inl hlt
    · exact .inr ⟨heq, le_of_not_gt (h.2 heq.symm)⟩

theorem foldl_betterSurvivor_beats {first : MergeMember} {rest : List MergeMember} {m : MergeMember}
    (hm : m ∈ first :: rest) : (rest.foldl betterSurvivor first).Beats m := by
  induction rest generalizing first m with
  | nil =>
    obtain rfl := List.mem_singleton.1 hm
    exact .refl m
  | cons b rest ih =>
    obtain ⟨hfirst, hb⟩ := betterSurvivor_beats first b
    have hbest :
        (rest.foldl betterSurvivor (betterSurvivor first b)).Beats (betterSurvivor first b) :=
      ih List.mem_cons_self
    rcases List.mem_cons.1 hm with rfl | hm
    · exact hbest.trans hfirst
    · rcases List.mem_cons.1 hm with rfl | hm
      · exact hbest.trans hb
      · exact ih (List.mem_cons_of_mem _ hm)

theorem mergeGroup_mergesUnder {cfg : StewardConfig} {dim : Nat} {members : List MergeMember}
    {op : MergeOp} (hpos : (members.map (·.pos)).Nodup) (h : mergeGroup cfg dim members = some op) :
    MergesUnder cfg op (members.map (·.cluster)) := by
  refine ⟨mergeGroup_eq_some hpos h, ?_⟩
  unfold mergeGroup at h
  split at h
  · cases h
  · cases h
  next first rest _ =>
  dsimp only at h
  split at h
  · cases h
  obtain rfl := Option.some.inj h
  refine ⟨_, ⟨List.mem_map_of_mem foldl_betterSurvivor_mem, fun c' hc' => ?_⟩, rfl⟩
  obtain ⟨m, hm, rfl⟩ := List.mem_map.1 hc'
  exact foldl_betterSurvivor_beats hm

/-! ### Episodes -/

/-- Without repetitions, lists that share nothing may be joined first. -/
theorem dedup_flatMap_perm {α β : Type} [DecidableEq β] {f : α → List β} {l : List α}
    (h : l.Pairwise fun a b => (f a).Disjoint (f b)) :
    (l.flatMap f).dedup.Perm (l.flatMap fun a => (f a).dedup) := by
  refine (List.perm_ext_iff_of_nodup (List.nodup_dedup _) ?_).2 fun x => ?_
  · refine List.nodup_flatMap.2 ⟨fun a _ => List.nodup_dedup _, h.imp fun {a b} hab => ?_⟩
    exact fun x hx hx' => hab (List.mem_dedup.1 hx) (List.mem_dedup.1 hx')
  · simp only [List.mem_dedup, List.mem_flatMap]

/-- The clusters share no episode. -/
def Cluster.Apart (a b : Cluster) : Prop := a.episodeIds.Disjoint b.episodeIds

instance : DecidableRel Cluster.Apart := fun a b =>
  decidable_of_iff (∀ x ∈ a.episodeIds, x ∉ b.episodeIds) (by simp [Cluster.Apart, List.Disjoint])

theorem Cluster.Apart.symm {a b : Cluster} (h : a.Apart b) : b.Apart a := List.Disjoint.symm h

/-- The episodes of a cluster, once each. -/
def Cluster.episodes (c : Cluster) : List MemoryId := c.episodeIds.dedup

section Group

variable {cfg : StewardConfig} {op : MergeOp} {group : List Cluster}

theorem episodes_merged_perm (h : Merges cfg op group) (hapart : group.Pairwise Cluster.Apart) :
    op.merged.episodes.Perm (group.flatMap Cluster.episodes) := by
  have hsorted : (((group.flatMap (·.episodeIds)).insertionSort (· ≤ ·)).destutter (· ≠ ·)) =
      ((group.flatMap (·.episodeIds)).insertionSort (· ≤ ·)).dedup :=
    (List.pairwise_insertionSort (· ≤ ·) _).destutter_eq_dedup
  rw [Cluster.episodes, MergeOp.merged, h.episodeIds, hsorted, List.dedup_idem]
  exact ((List.perm_insertionSort _ _).dedup).trans (dedup_flatMap_perm hapart)

theorem length_merged_le (h : Merges cfg op group) : op.merged.episodeIds.length ≤ cfg.maxSize := by
  have hsub :=
    (List.destutter_sublist (· ≠ ·)
      ((group.flatMap (·.episodeIds)).insertionSort (· ≤ ·))).length_le
  rw [MergeOp.merged, h.episodeIds]
  refine hsub.trans ?_
  rw [List.length_insertionSort, List.length_flatMap]
  exact h.capped

theorem exists_group {merges : List MergeOp} {groups : List (List Cluster)}
    (h : List.Forall₂ (Merges cfg) merges groups)
    (hop : op ∈ merges) : ∃ group, Merges cfg op group := by
  induction h with
  | nil => cases hop
  | cons hhead _ ih =>
    rcases List.mem_cons.1 hop with rfl | hop
    · exact ⟨_, hhead⟩
    · exact ih hop

theorem length_group (h : Merges cfg op group) : group.length = op.loserIds.length + 1 := by
  obtain ⟨survivor, losers, hperm, -, -, hlosers⟩ := h.members
  rw [hperm.length_eq, hlosers, List.length_map, List.length_cons]

end Group

/-! ### Applying a plan -/

section Apply

variable {cfg : StewardConfig} {merges : List MergeOp}

/-- What becomes of one cluster. -/
def afterMerges (merges : List MergeOp) (c : Cluster) : Option Cluster :=
  if merges.any (·.loserIds.contains c.clusterId) then none
  else
    match merges.reverse.find? (·.survivorId = c.clusterId) with
    | some op => some op.merged
    | none => some c

theorem applyMergePlan_eq (clusters : List Cluster) (merges : List MergeOp) :
    applyMergePlan clusters merges = clusters.filterMap (afterMerges merges) := rfl

/-- Entries that name an id in common are the same. -/
theorem op_unique (hnd : (merges.flatMap MergeOp.ids).Nodup) {op op' : MergeOp} (hop : op ∈ merges)
    (hop' : op' ∈ merges) {id : MemoryId} (hid : id ∈ op.ids) (hid' : id ∈ op'.ids) : op = op' := by
  by_contra hne
  have hsymm : Std.Symm fun a b : MergeOp => a.ids.Disjoint b.ids := ⟨fun _ _ h => h.symm⟩
  exact (List.nodup_flatMap.1 hnd).2.forall hop hop' hne hid hid'

theorem afterMerges_rest {c : Cluster} (h : c.clusterId ∉ merges.flatMap MergeOp.ids) :
    afterMerges merges c = some c := by
  have hnot (op : MergeOp) (hop : op ∈ merges) : c.clusterId ∉ op.ids :=
    fun hid => h (List.mem_flatMap.2 ⟨op, hop, hid⟩)
  unfold afterMerges
  rw [if_neg, List.find?_eq_none.2]
  · intro op hop heq
    exact hnot op (List.mem_reverse.1 hop) (of_decide_eq_true heq ▸ List.mem_cons_self)
  · rw [List.any_eq_true]
    rintro ⟨op, hop, hloser⟩
    exact hnot op hop (List.mem_cons_of_mem _ (List.contains_iff_mem.1 hloser))

theorem afterMerges_loser {op : MergeOp} (hop : op ∈ merges) {c : Cluster}
    (hc : c.clusterId ∈ op.loserIds) : afterMerges merges c = none := by
  have hcontains : op.loserIds.contains c.clusterId = true := List.contains_iff_mem.2 hc
  unfold afterMerges
  exact if_pos (List.any_eq_true.2 ⟨op, hop, hcontains⟩)

theorem afterMerges_survivor (hnd : (merges.flatMap MergeOp.ids).Nodup) {op : MergeOp}
    (hop : op ∈ merges) {c : Cluster}
    (hc : op.survivorId = c.clusterId) : afterMerges merges c = some op.merged := by
  have hself : c.clusterId ∈ op.ids := hc ▸ List.mem_cons_self
  unfold afterMerges
  rw [if_neg]
  · have hfind : merges.reverse.find? (·.survivorId = c.clusterId) = some op := by
      cases h : merges.reverse.find? (·.survivorId = c.clusterId) with
      | none =>
        exact absurd (decide_eq_true hc) (List.find?_eq_none.1 h op (List.mem_reverse.2 hop))
      | some op' =>
        have hsame : op'.survivorId = c.clusterId := by simpa using List.find?_some h
        have hid : c.clusterId ∈ op'.ids := hsame ▸ List.mem_cons_self
        rw [op_unique hnd (List.mem_reverse.1 (List.mem_of_find?_eq_some h)) hop hid hself]
    rw [hfind]
  · rw [List.any_eq_true]
    rintro ⟨op', hop', hloser⟩
    have hmem := List.contains_iff_mem.1 hloser
    rw [op_unique hnd hop' hop (List.mem_cons_of_mem _ hmem) hself] at hmem
    exact (List.nodup_cons.1 ((List.nodup_flatMap.1 hnd).1 op hop)).1 (hc ▸ hmem)

theorem filterMap_group (hnd : (merges.flatMap MergeOp.ids).Nodup) {op : MergeOp}
    (hop : op ∈ merges)
    {group : List Cluster} (h : Merges cfg op group) :
    (group.filterMap (afterMerges merges)).Perm [op.merged] := by
  obtain ⟨survivor, losers, hperm, -, hsurvivor, hlosers⟩ := h.members
  have hnone : losers.filterMap (afterMerges merges) = [] := by
    refine List.filterMap_eq_nil_iff.2 fun c hc => afterMerges_loser hop ?_
    rw [hlosers]
    exact List.mem_map_of_mem hc
  refine (hperm.filterMap _).trans (.of_eq ?_)
  rw [List.filterMap_cons_some (afterMerges_survivor hnd hop hsurvivor), hnone]

theorem filterMap_groups (hnd : (merges.flatMap MergeOp.ids).Nodup) {ops : List MergeOp}
    {groups : List (List Cluster)}
    (hsub : ops ⊆ merges) (h : List.Forall₂ (Merges cfg) ops groups) :
    (groups.flatten.filterMap (afterMerges merges)).Perm (ops.map MergeOp.merged) := by
  induction h with
  | nil => exact .nil
  | cons hop _ ih =>
    rw [List.flatten_cons, List.filterMap_append, List.map_cons, ← List.singleton_append]
    exact (filterMap_group hnd (hsub List.mem_cons_self) hop).append
      (ih fun op hop => hsub (List.mem_cons_of_mem _ hop))

end Apply

/-! ### Merging -/

/-- The merged list, against the plan: the groups that were merged and the clusters that were
not. -/
structure MergedBy (cfg : StewardConfig) (clusters : List Cluster) (merges : List MergeOp)
    (out : List Cluster) (absorbed : Nat) : Prop where
  episodes : (out.flatMap Cluster.episodes).Perm (clusters.flatMap Cluster.episodes)
  apart : out.Pairwise Cluster.Apart
  capped : ∀ c ∈ out, c ∈ clusters ∨ c.episodeIds.length ≤ cfg.maxSize
  absorbed : out.length + absorbed = clusters.length
  groups : ∃ groups rest, (groups.flatten ++ rest).Perm clusters ∧
    List.Forall₂ (MergesUnder cfg) merges groups ∧ out.Perm (merges.map MergeOp.merged ++ rest)

section Merge

variable {cosine : List Float32 → List Float32 → Float32} {cfg : StewardConfig}
  {clusters out : List Cluster} {merges : List MergeOp}

theorem applyMergePlan_perm (hids : (clusters.map (·.clusterId)).Nodup)
    {groups : List (List Cluster)} {rest : List Cluster}
    (hperm : (groups.flatten ++ rest).Perm clusters) (h : List.Forall₂ (Merges cfg) merges groups) :
    (applyMergePlan clusters merges).Perm (merges.map MergeOp.merged ++ rest) := by
  have hnd := (hperm.map (·.clusterId)).nodup_iff.2 hids
  rw [List.map_append] at hnd
  have hnamed := flatMap_ids_perm h
  have hndIds : (merges.flatMap MergeOp.ids).Nodup :=
    hnamed.nodup_iff.2 (List.Nodup.of_append_left hnd)
  have hrest : rest.filterMap (afterMerges merges) = rest := by
    refine (List.filterMap_congr fun c hc => afterMerges_rest fun hid => ?_).trans
      List.filterMap_some
    exact (List.nodup_append.1 hnd).2.2 _ (hnamed.mem_iff.1 hid) _ (List.mem_map_of_mem hc) rfl
  rw [applyMergePlan_eq]
  refine (hperm.symm.filterMap _).trans ?_
  rw [List.filterMap_append, hrest]
  exact (filterMap_groups hndIds (List.Subset.refl _) h).append_right rest

theorem flatMap_episodes_perm {groups : List (List Cluster)}
    (h : List.Forall₂ (Merges cfg) merges groups) (hapart : groups.flatten.Pairwise Cluster.Apart) :
    ((merges.map MergeOp.merged).flatMap Cluster.episodes).Perm
    (groups.flatten.flatMap Cluster.episodes) := by
  induction h with
  | nil => exact .nil
  | cons hop _ ih =>
    rw [List.flatten_cons, List.pairwise_append] at hapart
    rw [List.map_cons, List.flatMap_cons, List.flatten_cons, List.flatMap_append]
    exact (episodes_merged_perm hop hapart.1).append (ih hapart.2.1)

theorem length_flatten {groups : List (List Cluster)}
    (h : List.Forall₂ (Merges cfg) merges groups) :
    groups.flatten.length = merges.length + absorbedCount merges := by
  unfold absorbedCount
  induction h with
  | nil => rfl
  | cons hop _ ih =>
    rw [List.flatten_cons, List.length_append, ih, length_group hop, List.map_cons, List.sum_cons,
      List.length_cons]
    omega

theorem applyMergePlan_mergedBy (hids : (clusters.map (·.clusterId)).Nodup)
    (hapart : clusters.Pairwise Cluster.Apart)
    (h : computeMergePlan cosine cfg clusters = .ok merges) :
    MergedBy cfg clusters merges (applyMergePlan clusters merges) (absorbedCount merges) := by
  obtain ⟨groups, ⟨l, hl, hsublist⟩, hunder⟩ :=
    computeMergePlan_groups (fun _ _ _ => mergeGroup_mergesUnder) h
  have hall : List.Forall₂ (Merges cfg) merges groups := hunder.imp fun _ _ hop => hop.toMerges
  obtain ⟨rest, hrest⟩ := hsublist.exists_perm_append
  have hperm : (groups.flatten ++ rest).Perm clusters :=
    (hl.symm.append_right rest).trans hrest.symm
  have hout := applyMergePlan_perm hids hperm hall
  have hapart' := (hperm.pairwise_iff fun {_ _} => Cluster.Apart.symm).2 hapart
  have hepisodes : ((applyMergePlan clusters merges).flatMap Cluster.episodes).Perm
      (clusters.flatMap Cluster.episodes) := by
    refine (hout.flatMap_right _).trans (.trans ?_ (hperm.flatMap_right _))
    rw [List.flatMap_append, List.flatMap_append]
    exact (flatMap_episodes_perm hall (List.pairwise_append.1 hapart').1).append_right _
  refine ⟨hepisodes, ?_, fun c hc => ?_, ?_, groups, rest, hperm, hunder, hout⟩
  · have hnd : (clusters.flatMap Cluster.episodes).Nodup := by
      refine List.nodup_flatMap.2 ⟨fun c _ => List.nodup_dedup _, hapart.imp fun {a b} hab => ?_⟩
      exact fun x hx hx' => hab (List.mem_dedup.1 hx) (List.mem_dedup.1 hx')
    refine (List.nodup_flatMap.1 (hepisodes.nodup_iff.2 hnd)).2.imp fun {a b} hab => ?_
    exact fun x hx hx' => hab (List.mem_dedup.2 hx) (List.mem_dedup.2 hx')
  · rcases List.mem_append.1 (hout.mem_iff.1 hc) with hc | hc
    · obtain ⟨op, hop, rfl⟩ := List.mem_map.1 hc
      obtain ⟨g, hg⟩ := exists_group hall hop
      exact .inr (length_merged_le hg)
    · exact .inl (hperm.mem_iff.1 (List.mem_append_right _ hc))
  · have hlen := hperm.length_eq
    rw [List.length_append, length_flatten hall] at hlen
    rw [hout.length_eq, List.length_append, List.length_map]
    omega

theorem mergeClustersByCentroid_keeps (cosine : List Float32 → List Float32 → Float32)
    (cfg : StewardConfig)
    {clusters : List Cluster} (hids : (clusters.map (·.clusterId)).Nodup)
    (hapart : clusters.Pairwise Cluster.Apart) :
    (∀ e, mergeClustersByCentroid cosine cfg clusters = .error e ↔
      planExistingMerges cosine cfg clusters = .error e) ∧
      ∀ out absorbed, mergeClustersByCentroid cosine cfg clusters = .ok (out, absorbed) →
        ∃ merges, planExistingMerges cosine cfg clusters = .ok merges ∧
        absorbed = absorbedCount merges ∧
          MergedBy cfg clusters merges out absorbed := by
  unfold mergeClustersByCentroid planExistingMerges
  cases hplan : computeMergePlan cosine cfg clusters with
  | error e =>
    refine ⟨fun e' => ⟨fun h => ?_, fun h => ?_⟩, fun out absorbed h => ?_⟩
    · exact congrArg Except.error (Except.error.inj h)
    · exact congrArg Except.error (Except.error.inj h)
    · cases h
  | ok merges =>
    refine ⟨fun e => ⟨by rintro ⟨⟩, by rintro ⟨⟩⟩, fun out absorbed h => ?_⟩
    obtain ⟨merges', hmerges, h⟩ := Result.bind_eq_ok.1 h
    rw [Result.pure_eq_ok, Prod.mk.injEq] at h
    rw [← Except.ok.inj hmerges] at h
    obtain ⟨rfl, rfl⟩ := h
    exact ⟨merges, rfl, rfl, applyMergePlan_mergedBy hids hapart hplan⟩

end Merge

namespace TwoDays

/-- Two clusters of one conversation. -/
def centroid : Embedding := ⟨.f32, 2, [0, 0, 128, 63, 0, 0, 0, 0]⟩

def config : StewardConfig := ⟨1, 10, 0.5, Nat.one_pos⟩

def monday : Cluster := ⟨"a", ["m"], some centroid, 1⟩

def tuesday : Cluster := ⟨"b", ["n", "o"], some centroid, 1⟩

end TwoDays

open TwoDays in
theorem mergeClustersByCentroid_keeps_twoDays : ∃ out,
    mergeClustersByCentroid cosineSimilarityF32 config [monday, tuesday] = .ok (out, 1) ∧
      ∃ merges, planExistingMerges cosineSimilarityF32 config [monday, tuesday] = .ok merges ∧
      1 = absorbedCount merges ∧
        MergedBy config [monday, tuesday] merges out 1 := by
  have hrun :
      ((mergeClustersByCentroid cosineSimilarityF32 config [monday, tuesday]).toOption.map
        Prod.snd) = some 1 := by
    decide +kernel
  have hids : ([monday, tuesday].map (·.clusterId)).Nodup := by decide
  have hkeeps := (mergeClustersByCentroid_keeps cosineSimilarityF32 config hids (by decide)).2
  cases hres : mergeClustersByCentroid cosineSimilarityF32 config [monday, tuesday] with
  | error e =>
    rw [hres] at hrun
    cases hrun
  | ok res =>
    rw [hres] at hrun
    obtain ⟨out, absorbed⟩ := res
    obtain rfl : absorbed = 1 := Option.some.inj hrun
    exact ⟨out, rfl, hkeeps out 1 hres⟩

open TwoDays in
/-- Of two clusters with the same id, merging keeps neither. -/
theorem sameId_lost : [monday, { tuesday with clusterId := "a" }].Pairwise Cluster.Apart ∧
    (mergeClustersByCentroid cosineSimilarityF32 config
      [monday, { tuesday with clusterId := "a" }]).toOption = some ([], 1) := by
  decide +kernel

end Solo
