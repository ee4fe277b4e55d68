import Solo.Derived.Grouped

/-!
# Planned consolidations commit (`handle_consolidate_impl`)

The plans are made before the statements run, and nothing in between looks again at the tables.
Where every memory is in one cluster at most and the new ids are new, no statement of either
transaction fails: a consolidation that ends with an error could not make a plan.
-/

namespace Table

variable {ρ : Type*} [Keyed ρ] {t : Table ρ}

theorem exists_insert {r : ρ} (h : ∀ a ∈ t, Keyed.clash a r = false) :
    ∃ t', t.insert? r = some t' := by
  cases hins : t.insert? r with
  | some t' => exact ⟨t', rfl⟩
  | none =>
    obtain ⟨a, ha, hc⟩ := insert?_eq_none.1 hins
    rw [h a ha] at hc
    cases hc

/-- Keys may move if different rows go to rows that do not clash. -/
theorem exists_rekeyWhere {p : ρ → Bool} {f : ρ → ρ}
    (h : ∀ a ∈ t, ∀ b ∈ t, Keyed.clash a b = false →
    Keyed.clash (if p a then f a else a) (if p b then f b else b) = false) :
    ∃ t', t.rekeyWhere? p f = some t' := by
  have hunique : (t.rows.map fun r => if p r then f r else r).Pairwise fun a b => Keyed.clash a b =
      false := by
    refine List.pairwise_map.2 (t.unique.imp_of_mem fun {a b} ha hb hab => ?_)
    exact h a ha b hb hab
  exact ⟨⟨_, hunique⟩, rekeyWhere?_eq_some.2 rfl⟩

end Table

namespace Solo

namespace Derived

variable {s : Store} {nowMs : Int} {d d₁ d' : Derived}

theorem clusterRef_iff {c : ClusterId} : d.clusterRef (some c) = true ↔ d.HasCluster c := by
  simp [clusterRef, HasCluster]

theorem exists_orStorage {α : Type} {msg : String} {o : Option α} (h : ∃ a, o = some a) :
    ∃ a, orStorage msg o = .ok a := by
  obtain ⟨a, ha⟩ := h
  exact ⟨a, orStorage_eq_ok.2 ha⟩

/-! ### The first transaction -/

theorem exists_insertMember {c : ClusterId} {m : MemoryId} (hc : d.HasCluster c)
    (he : ∃ e ∈ s.episodes, e.memoryId = m)
    (hm : ¬ d.MemberOf c m) : ∃ d', insertMember s c d m = some d' := by
  have hguard : (d.clusterRef (some c) && s.episodes.rows.any (·.memoryId = m)) = true := by
    rw [clusterRef_iff.2 hc, Bool.true_and, List.any_eq_true]
    obtain ⟨e, he, hem⟩ := he
    exact ⟨e, he, decide_eq_true hem⟩
  obtain ⟨members, hins⟩ : ∃ members, d.clusterEpisodes.insert? ⟨c, m⟩ = some members := by
    refine Table.exists_insert fun r hr => decide_eq_false fun heq => hm ?_
    rwa [heq] at hr
  refine ⟨{ d with clusterEpisodes := members }, ?_⟩
  simp [insertMember, hguard, hins]

theorem exists_insertMembers {c : ClusterId} {ms : List MemoryId} (hnodup : ms.Nodup)
    (hc : d.HasCluster c) (hms : ∀ m ∈ ms, (∃ e ∈ s.episodes, e.memoryId = m) ∧ ¬ d.MemberOf c m) :
    ∃ d', ms.foldlM (insertMember s c) d = some d' := by
  induction ms generalizing d with
  | nil => exact ⟨d, rfl⟩
  | cons m ms ih =>
    obtain ⟨hm, hnodup⟩ := List.nodup_cons.1 hnodup
    obtain ⟨⟨he, hfree⟩, hrest⟩ := List.forall_mem_cons.1 hms
    obtain ⟨d₁, h₁⟩ := exists_insertMember hc he hfree
    have hone : [m].foldlM (insertMember s c) d = some d₁ := by simp [h₁]
    obtain ⟨members, rfl, hmembers, -⟩ := insertMembers_eq_some hone
    have hc₁ : HasCluster { d with clusterEpisodes := members } c := hc
    obtain ⟨d', h'⟩ := ih hnodup hc₁ fun m' hm' => ⟨(hrest m' hm').1, fun hmem => by
      rcases (hmembers c m').1 hmem with hold | ⟨-, hnew⟩
      · exact (hrest m' hm').2 hold
      · exact hm (List.mem_singleton.1 hnew ▸ hm')⟩
    refine ⟨d', ?_⟩
    rw [List.foldlM_cons, h₁]
    exact h'

/-- What the inserts of the clusters that are left need. -/
structure Insertable (s : Store) (absorptions : List AbsorbedCluster) (d : Derived)
    (cs : List Cluster) : Prop where
  ids : (cs.map (·.clusterId)).Nodup
  nodup : ∀ n ∈ cs, n.episodeIds.Nodup
  apart : cs.Pairwise Cluster.Apart
  free : ∀ n ∈ cs, ∀ m ∈ n.episodeIds, (∃ e ∈ s.episodes, e.memoryId = m) ∧ ∀ c, ¬ d.MemberOf c m
  target : ∀ a ∈ absorptions, d.HasCluster a.existingClusterId
  fresh : ∀ n ∈ cs, ¬ d.HasCluster n.clusterId

theorem exists_persistCluster {absorptions : List AbsorbedCluster} {n : Cluster} {cs : List Cluster}
    (h : Insertable s absorptions d (n :: cs)) : ∃ d', persistCluster s nowMs absorptions d n =
    .ok d' := by
  have hnodup := h.nodup n List.mem_cons_self
  have hfree := h.free n List.mem_cons_self
  unfold persistCluster
  cases hfind : absorptions.reverse.find? (·.newClusterId = n.clusterId) with
  | some a =>
    have ha : a ∈ absorptions := List.mem_reverse.1 (List.mem_of_find?_eq_some hfind)
    exact exists_orStorage
      (exists_insertMembers hnodup (h.target a ha) fun m hm => ⟨(hfree m hm).1, (hfree m hm).2 _⟩)
  | none =>
    obtain ⟨clusters, hins⟩ :
        ∃ clusters, d.clusters.insert? ⟨n.clusterId, n.centroid, n.coherence, nowMs⟩ =
        some clusters :=
      Table.exists_insert fun r hr => decide_eq_false fun heq =>
        h.fresh n List.mem_cons_self ⟨r, hr, heq⟩
    have hcluster : insertCluster nowMs d n = some { d with clusters := clusters } := by
      simp [insertCluster, hins]
    obtain ⟨d', h'⟩ : ∃ d', n.episodeIds.foldlM (insertMember s n.clusterId)
        { d with clusters := clusters } = some d' :=
      exists_insertMembers hnodup ⟨_, (Table.mem_insert hins).2 (.inr rfl), rfl⟩ fun m hm =>
        ⟨(hfree m hm).1, (hfree m hm).2 _⟩
    exact ⟨d', Result.bind_eq_ok.2 ⟨_, orStorage_eq_ok.2 hcluster, orStorage_eq_ok.2 h'⟩⟩

theorem hasCluster_of_persistCluster {absorptions : List AbsorbedCluster} {n : Cluster}
    (h : persistCluster s nowMs absorptions d n = .ok d') {k : ClusterId} (hk : d'.HasCluster k) :
    d.HasCluster k ∨ k = n.clusterId := by
  unfold persistCluster at h
  split at h
  · obtain ⟨members, rfl, -, -⟩ := insertMembers_eq_some (orStorage_eq_ok.1 h)
    exact .inl hk
  · obtain ⟨d₁, h₁, h⟩ := Result.bind_eq_ok.1 h
    have hins := orStorage_eq_ok.1 h₁
    simp only [insertCluster, Option.bind_eq_bind, Option.bind_eq_some_iff, Option.pure_def,
      Option.some.injEq] at hins
    obtain ⟨clusters, hins, rfl⟩ := hins
    obtain ⟨members, rfl, -, -⟩ := insertMembers_eq_some (orStorage_eq_ok.1 h)
    obtain ⟨r, hr, rfl⟩ := hk
    rcases (Table.mem_insert hins).1 hr with hr | rfl
    · exact .inl ⟨r, hr, rfl⟩
    · exact .inr rfl

/-- One cluster is inserted, and the rest can still be. -/
theorem Insertable.tail {absorptions : List AbsorbedCluster} {n : Cluster} {cs : List Cluster}
    (h : Insertable s absorptions d (n :: cs))
    (hn : persistCluster s nowMs absorptions d n = .ok d') : Insertable s absorptions d' cs := by
  obtain ⟨-, hclusters, hmembers, -, -⟩ := persistCluster_spec hn
  obtain ⟨hid, hids⟩ := List.nodup_cons.1 h.ids
  obtain ⟨happart, hapart⟩ := List.pairwise_cons.1 h.apart
  refine ⟨hids, fun n' hn' => h.nodup n' (List.mem_cons_of_mem _ hn'), hapart,
    fun n' hn' m hm => ?_, fun a ha => hclusters _ (h.target a ha), fun n' hn' hk => ?_⟩
  · obtain ⟨he, hfree⟩ := h.free n' (List.mem_cons_of_mem _ hn') m hm
    refine ⟨he, fun c hmem => ?_⟩
    rcases (hmembers c m).1 hmem with hold | ⟨-, hmn⟩
    · exact hfree c hold
    · exact happart n' hn' hmn hm
  · rcases hasCluster_of_persistCluster hn hk with hold | heq
    · exact h.fresh n' (List.mem_cons_of_mem _ hn') hold
    · have hmem : n'.clusterId ∈ cs.map (·.clusterId) := List.mem_map_of_mem hn'
      rw [heq] at hmem
      exact hid hmem

theorem exists_persistClusters {absorptions : List AbsorbedCluster} {cs : List Cluster}
    (h : Insertable s absorptions d cs) : ∃ d', cs.foldlM (persistCluster s nowMs absorptions) d =
    .ok d' := by
  induction cs generalizing d with
  | nil => exact ⟨d, rfl⟩
  | cons n cs ih =>
    obtain ⟨d₁, h₁⟩ : ∃ d₁, persistCluster s nowMs absorptions d n = .ok d₁ :=
      exists_persistCluster h
    obtain ⟨d', h'⟩ := ih (h.tail h₁)
    exact ⟨d', Result.foldlM_cons_eq_ok.2 ⟨d₁, h₁, h'⟩⟩

theorem exists_persistPlan {newId : Nat → ClusterId} {cap : Nat} {plan : ConsolidationPlan}
    (h : Planned s d newId cap plan) (hfresh : ∀ k, ¬ d.HasCluster (newId k)) :
    ∃ d₁, d.persistPlan s nowMs plan = .ok d₁ := by
  have hinsertable : Insertable s plan.absorptions d plan.clusters := by
    refine ⟨h.ids, h.nodup, h.apart, h.free, h.target, fun n hn => ?_⟩
    obtain ⟨k, hk⟩ := h.newIds n hn
    exact hk ▸ hfresh k
  obtain ⟨d', h'⟩ : ∃ d', plan.clusters.foldlM (persistCluster s nowMs plan.absorptions) d =
      .ok d' :=
    exists_persistClusters hinsertable
  exact ⟨_, Result.bind_eq_ok.2 ⟨d', h', rfl⟩⟩

/-! ### The second transaction -/

/-- No memory is in two clusters. -/
def Once (d : Derived) : Prop := ∀ c c' m, d.MemberOf c m → d.MemberOf c' m → c = c'

theorem Once.moved (h : Once d) {g : ClusterId → ClusterId} (hm : MembersMoved g d d') :
    Once d' := by
  intro c c' m hc hc'
  obtain ⟨c₀, hm₀, rfl⟩ := (hm c m).1 hc
  obtain ⟨c₀', hm₀', rfl⟩ := (hm c' m).1 hc'
  rw [h c₀ c₀' m hm₀ hm₀']

theorem exists_moveMembers (h : Once d) {survivor loser : ClusterId} (hs : d.HasCluster survivor) :
    ∃ d', moveMembers survivor d loser = some d' := by
  obtain ⟨members, hmove⟩ : ∃ members, d.clusterEpisodes.rekeyWhere? (·.clusterId = loser)
      (fun r => { r with clusterId := survivor }) = some members := by
    refine Table.exists_rekeyWhere fun a ha b hb hab => decide_eq_false fun heq =>
      of_decide_eq_false hab ?_
    have hmemory : a.memoryId = b.memoryId := by
      have := congrArg ClusterEpisodeRow.memoryId heq
      split at this <;> split at this <;> exact this
    have hcluster := h a.clusterId b.clusterId a.memoryId ha (by rw [hmemory]; exact hb)
    obtain ⟨_, _⟩ := a
    obtain ⟨_, _⟩ := b
    exact ClusterEpisodeRow.mk.injEq .. ▸ ⟨hcluster, hmemory⟩
  refine ⟨{ d with clusterEpisodes := members }, ?_⟩
  simp [moveMembers, clusterRef_iff.2 hs, hmove]

theorem exists_moveLosers (h : Once d) {survivor : ClusterId} (hs : d.HasCluster survivor)
    (losers : List ClusterId) : ∃ d', losers.foldlM (moveMembers survivor) d = some d' := by
  induction losers generalizing d with
  | nil => exact ⟨d, rfl⟩
  | cons loser losers ih =>
    obtain ⟨d₁, h₁⟩ : ∃ d₁, moveMembers survivor d loser = some d₁ := exists_moveMembers h hs
    obtain ⟨⟨members, hd₁⟩, hmoved, -, -⟩ := moveMembers_spec h₁
    have hs₁ : d₁.HasCluster survivor := by
      rw [hd₁]
      exact hs
    obtain ⟨d', h'⟩ := ih (h.moved hmoved) hs₁
    refine ⟨d', ?_⟩
    rw [List.foldlM_cons, h₁]
    exact h'

theorem exists_applyMerges {merges : List MergeOp} (hnodup : (merges.flatMap MergeOp.ids).Nodup)
    (hids : ∀ c ∈ merges.flatMap MergeOp.ids, d.HasCluster c) (h : Once d) :
    ∃ d', merges.foldlM applyMerge d = some d' := by
  induction merges generalizing d with
  | nil => exact ⟨d, rfl⟩
  | cons op merges ih =>
    rw [List.flatMap_cons, List.nodup_append'] at hnodup
    obtain ⟨hop, hrest, hdisjoint⟩ := hnodup
    obtain ⟨hsurvivor, hlosers⟩ := List.nodup_cons.1 hop
    rw [List.flatMap_cons, List.forall_mem_append] at hids
    obtain ⟨d₀, h₀⟩ := exists_moveLosers h (hids.1 op.survivorId List.mem_cons_self) op.loserIds
    obtain ⟨d₁, h₁⟩ : ∃ d₁, applyMerge d op = some d₁ :=
      ⟨_, Option.bind_eq_some_iff.2 ⟨d₀, h₀, rfl⟩⟩
    have hone :=
      applyMerge_spec hsurvivor hlosers (fun l hl => hids.1 l (List.mem_cons_of_mem _ hl)) h₁
    have hids₁ : ∀ c ∈ merges.flatMap MergeOp.ids, d₁.HasCluster c := by
      refine fun c hc => (hone.cluster c).2 ⟨hids.2 c hc, List.forall_mem_singleton.2 fun hl => ?_⟩
      exact hdisjoint (List.mem_cons_of_mem _ hl) hc
    obtain ⟨d', h'⟩ := ih hrest hids₁ (h.moved hone.member)
    refine ⟨d', ?_⟩
    rw [List.foldlM_cons, h₁]
    exact h'

/-! ### The command -/

/-- Where a consolidation can fail: at the plan of the first transaction, or at that of the
second. -/
def FailsToPlan (env : ConsolidateEnv) (s : Store) (nowMs : Int) (hash : HashOrder)
    (newId : Nat → ClusterId) (d : Derived) (scope : ConsolidationScope) (e : Error) : Prop :=
  env.embedderId = none ∨ ∃ embedderId, env.embedderId = some embedderId ∧
    let cutoff := cutoffMs nowMs scope
    let first :=
      planConsolidation env hash newId d embedderId cutoff
      (consolidateCandidates s d embedderId cutoff)
    first = .error e ∨ ∃ plan d₁, first = .ok plan ∧ d.persistPlan s nowMs plan = .ok d₁ ∧
      planMerges env plan cutoff d₁ = .error e

theorem failsToPlan_of_error {cap : Nat} {env : ConsolidateEnv} {hash : HashOrder}
    {newId : Nat → ClusterId}
    {scope : ConsolidationScope} {e : Error} (h : Grouped cap d)
    (henv : ConsolidatesFresh cap env newId d)
    (he : (d.handleConsolidate env s nowMs hash newId scope).2 = .error e) :
    FailsToPlan env s nowMs hash newId d scope e := by
  unfold handleConsolidate at he
  split at he
  · next hnone => exact .inl hnone
  next embedderId hembedder =>
  refine .inr ⟨embedderId, hembedder, ?_⟩
  dsimp only at he ⊢
  split at he
  · cases he
  split at he
  · next hplan =>
    obtain rfl := Except.error.inj he
    exact .inl hplan
  next plan hplan =>
  have hcap := henv.capped _ (config_of_planConsolidation hplan)
  have hplanned := planConsolidation_planned henv.injective hplan hcap
  obtain ⟨d₁, h₁⟩ : ∃ d₁, d.persistPlan s nowMs plan = .ok d₁ :=
    exists_persistPlan hplanned henv.fresh
  rw [h₁] at he
  dsimp only at he
  split at he
  · next hmerges =>
    obtain rfl := Except.error.inj he
    exact .inr ⟨plan, d₁, hplan, h₁, hmerges⟩
  next merges hmerges =>
  obtain ⟨hnodup, -, hids⟩ := planMerges_eq_ok hmerges
  have hgrouped := h.persist hplanned henv.fresh (persistPlan_eq_ok h₁)
  obtain ⟨d₂, h₂⟩ := exists_applyMerges hnodup (fun c hc => (hids c hc).1) hgrouped.once
  rw [applyMerges, orStorage_eq_ok.2 h₂] at he
  cases he

end Derived

namespace Database

/-- After any session, a consolidation that ends with an error could not make one of its plans. -/
theorem consolidate_failsToPlan {cap : Nat} {db : Database} (h : db.derived.Grouped cap)
    {es : List DatabaseEvent}
    (hes : Run.Guarded step (Fresh cap) db es) {env : ConsolidateEnv} {nowMs : Int}
    {hash : HashOrder} {newId : Nat → ClusterId} {scope : ConsolidationScope} {e : Error}
    (henv : Derived.ConsolidatesFresh cap env newId (Run.run step db es).derived)
    (he : ((Run.run step db es).derived.handleConsolidate env (Run.run step db es).store nowMs hash
      newId scope).2 = .error e) :
    Derived.FailsToPlan env (Run.run step db es).store nowMs hash newId (Run.run step db es).derived
    scope e :=
  Derived.failsToPlan_of_error (grouped_always h hes).last henv he

end Database

namespace TwoAlike

/-- The second episode has a vector of another dimension. -/
def odd : Store := { store with
  embeddings := (Table.single ⟨"a", 1, .f32, 1, [0, 0, 128, 63]⟩).insertOrIgnore ⟨"b", 1, .f32, 2, []⟩ }

theorem odd_guarded : Run.Guarded Database.step (Database.Fresh 3) empty [.write odd] :=
  ⟨trivial, trivial⟩

theorem odd_fresh :
    Derived.ConsolidatesFresh 3 env ids (Run.run Database.step empty [.write odd]).derived := by
  refine ⟨ids_injective, fun k => ?_, fun cfg hcfg => ?_⟩
  · rintro ⟨r, hr, -⟩
    exact Table.not_mem_empty hr
  · obtain rfl := Except.ok.inj hcfg
    exact Nat.le_refl 3

end TwoAlike

open TwoAlike in
theorem consolidate_failsToPlan_odd :
    Derived.FailsToPlan env odd 2 keysOrder ids .empty ⟨none, false⟩
    (.steward "cluster_episodes: embedding dim mismatch at index 1: 2 vs 1") :=
  Database.consolidate_failsToPlan empty_grouped odd_guarded odd_fresh (by decide +kernel)

end Solo
