import Solo.Derived.Membership
import Solo.Derived.Repair

/-!
# Regenerating what was derived from a changed cluster (`fetch_clusters_without_abstractions`)

The triples batch picks the clusters that have no abstraction, or a low-signal one. A cluster that
absorbed has lost its abstraction and triples, a cluster that survived a merge has not:
`Reabstracts` holds of a consolidation exactly when the survivors of its merges had nothing derived
to lose.
-/

namespace Solo

namespace Derived

def needsAbstraction (d : Derived) (c : ClusterRow) : Bool :=
  (!d.semanticAbstractions.rows.any (·.clusterId = c.clusterId)) ||
    d.semanticAbstractions.rows.any fun a => a.clusterId = c.clusterId &&
    isLowSignalAbstraction a.content

/-- `fetch_episodes_for_cluster`. -/
def fetchEpisodesForCluster (s : Store) (d : Derived) (c : ClusterId) : List EpisodeRow :=
  (s.episodes.rows.filter fun e => e.status = .active &&
    d.clusterEpisodes.rows.any fun r => r.clusterId = c && r.memoryId = e.memoryId).insertionSort
      fun a b => a.tsMs ≤ b.tsMs

/-- `fetch_clusters_without_abstractions`; the limit counts clusters without active episodes too. -/
def fetchClustersWithoutAbstractions (s : Store) (d : Derived) (limit : Nat) :
    List (Cluster × List EpisodeRow) :=
  ((d.clusters.rows.filter d.needsAbstraction).take limit).filterMap fun c =>
    let episodes := fetchEpisodesForCluster s d c.clusterId
    if episodes.isEmpty then none
    else some (⟨c.clusterId, episodes.map (·.memoryId), c.centroid.filter (0 < ·.dim), c.coherence⟩,
      episodes)

def MembersChanged (d d' : Derived) (c : ClusterId) : Prop :=
  ∃ m, ¬ (d.MemberOf c m ↔ d'.MemberOf c m)

/-- Each cluster whose members changed has nothing derived left, so it is selected once it has an
active episode and the batch has room. -/
def Reabstracts (s : Store) (d d' : Derived) : Prop :=
  ∀ c, MembersChanged d d' c → ¬ d'.DerivedFrom c ∧
    ∀ e ∈ s.episodes, e.status = .active → d'.MemberOf c e.memoryId →
    ∀ limit, d'.clusters.rows.length ≤ limit →
      ∃ p ∈ fetchClustersWithoutAbstractions s d' limit, p.1.clusterId = c

/-- Each merge of existing clusters that the consolidation commits has a survivor that absorbed in
the same run, or from which nothing was derived. -/
def SurvivorsUnderived (env : ConsolidateEnv) (s : Store) (nowMs : Int) (hash : HashOrder)
    (newId : Nat → ClusterId) (d : Derived) (scope : ConsolidationScope) : Prop :=
  ∀ embedderId plan d₁ d₂ merges, env.embedderId = some embedderId →
    ¬ ((consolidateCandidates s d embedderId (cutoffMs nowMs scope)).isEmpty && !scope.forceMerge) →
    planConsolidation env hash newId d embedderId (cutoffMs nowMs scope)
      (consolidateCandidates s d embedderId (cutoffMs nowMs scope)) = .ok plan →
    d.persistPlan s nowMs plan = .ok d₁ → planMerges env plan (cutoffMs nowMs scope) d₁ =
    .ok merges → d₁.applyMerges merges = .ok d₂ →
    ∀ op ∈ merges, (∃ a ∈ plan.absorptions, a.existingClusterId = op.survivorId) ∨
    ¬ d.DerivedFrom op.survivorId

variable {s : Store} {nowMs : Int} {d d₁ d' : Derived}

/-- A cluster with nothing derived from it is selected. -/
theorem selected {c : ClusterId} (hc : d.HasCluster c) (hder : ¬ d.DerivedFrom c) {e : EpisodeRow}
    (he : e ∈ s.episodes)
    (hactive : e.status = .active) (hm : d.MemberOf c e.memoryId) {limit : Nat}
    (hlimit : d.clusters.rows.length ≤ limit) :
    ∃ p ∈ fetchClustersWithoutAbstractions s d limit, p.1.clusterId = c := by
  obtain ⟨r, hr, rfl⟩ := hc
  have hepisode : e ∈ fetchEpisodesForCluster s d r.clusterId := by
    simp only [fetchEpisodesForCluster, List.mem_insertionSort, List.mem_filter, Bool.and_eq_true,
      decide_eq_true_eq, List.any_eq_true]
    exact ⟨he, hactive, _, hm, rfl, rfl⟩
  have hneeds : d.needsAbstraction r = true := by
    have hnone : d.semanticAbstractions.rows.any (·.clusterId = r.clusterId) = false := by
      simp only [List.any_eq_false, decide_eq_true_eq]
      exact fun a ha heq => hder (.inl ⟨a, ha, heq⟩)
    simp [needsAbstraction, hnone]
  have htake : (d.clusters.rows.filter d.needsAbstraction).take limit =
      d.clusters.rows.filter d.needsAbstraction :=
    List.take_of_length_le ((List.length_filter_le _ _).trans hlimit)
  have hmem : r ∈ (d.clusters.rows.filter d.needsAbstraction).take limit := by
    rw [htake]
    exact List.mem_filter.2 ⟨hr, hneeds⟩
  have hsome : (fetchEpisodesForCluster s d r.clusterId).isEmpty = false := by
    simpa [List.isEmpty_iff] using List.ne_nil_of_mem hepisode
  exact ⟨(⟨r.clusterId, _, _, _⟩, _), List.mem_filterMap.2 ⟨r, hmem, by simp only [hsome]; rfl⟩,
    rfl⟩

section Merges

variable {merges : List MergeOp} (hnodup : (merges.flatMap MergeOp.ids).Nodup)

include hnodup

theorem op_eq_of_mem_ids {op op' : MergeOp} (hop : op ∈ merges) (hop' : op' ∈ merges)
    {c : ClusterId} (hc : c ∈ op.ids) (hc' : c ∈ op'.ids) : op = op' := by
  by_contra hne
  have hsymm : Std.Symm (Function.onFun List.Disjoint MergeOp.ids) := ⟨fun _ _ h => h.symm⟩
  exact (List.nodup_flatMap.1 hnodup).2.forall hop hop' hne hc hc'

theorem survivor_not_mem_losers {op op' : MergeOp} (hop : op ∈ merges) (hop' : op' ∈ merges) :
    op.survivorId ∉ op'.loserIds := by
  intro hl
  obtain rfl := op_eq_of_mem_ids hnodup hop hop' List.mem_cons_self (List.mem_cons_of_mem _ hl)
  exact (List.nodup_cons.1 ((List.nodup_flatMap.1 hnodup).1 op hop)).1 hl

theorem mergedInto_loser {op : MergeOp} (hop : op ∈ merges) {c : ClusterId} (hc : c ∈ op.loserIds) :
    mergedInto merges c = op.survivorId := by
  unfold mergedInto
  split
  · next op' hop' =>
    have hl : c ∈ op'.loserIds := by simpa using List.find?_some hop'
    rw [op_eq_of_mem_ids hnodup hop (List.mem_of_find?_eq_some hop') (List.mem_cons_of_mem _ hc)
      (List.mem_cons_of_mem _ hl)]
  · next hnone => exact absurd hc (by simpa using List.find?_eq_none.1 hnone op hop)

/-- Members move from losers to survivors only. -/
theorem mergedInto_cases (c : ClusterId) :
    (mergedInto merges c = c ∧ ∀ op ∈ merges, c ∉ op.loserIds) ∨
    ∃ op ∈ merges, c ∈ op.loserIds ∧ mergedInto merges c = op.survivorId := by
  by_cases hc : ∃ op ∈ merges, c ∈ op.loserIds
  · obtain ⟨op, hop, hl⟩ := hc
    exact .inr ⟨op, hop, hl, mergedInto_loser hnodup hop hl⟩
  · simp only [not_exists, not_and] at hc
    have hnone : merges.find? (·.loserIds.contains c) = none := by simpa using hc
    exact .inl ⟨by rw [mergedInto, hnone], hc⟩

/-- The foreign keys survive the merges. -/
theorem ForeignKeys.merge (h : ForeignKeys d)
    (hids : ∀ c ∈ merges.flatMap MergeOp.ids, d.HasCluster c)
    (hm : AppliesMerges merges d d') : ForeignKeys d' := by
  constructor
  case member =>
    intro c m hmem
    obtain ⟨c₀, hm₀, rfl⟩ := (hm.member c m).1 hmem
    rcases mergedInto_cases hnodup c₀ with ⟨heq, hkept⟩ | ⟨op, hop, -, heq⟩
    · exact heq.symm ▸ (hm.cluster c₀).2 ⟨h.member c₀ m hm₀, hkept⟩
    · exact heq.symm ▸ (hm.cluster _).2 ⟨hids _ (List.mem_flatMap.2 ⟨op, hop, List.mem_cons_self⟩),
        fun op' hop' => survivor_not_mem_losers hnodup hop hop'⟩
  case derived =>
    intro c hc
    obtain ⟨hder, hkept⟩ := (hm.derived c).1 hc
    exact (hm.cluster c).2 ⟨h.derived c hder, hkept⟩

/-- Over both transactions: what changed is regenerated exactly if the survivors had nothing
derived, or lost it by absorbing. -/
theorem reabstracts_iff (h : ForeignKeys d) {plan : ConsolidationPlan} (hp : Persists plan d d₁)
    (hlosers : ∀ op ∈ merges, op.loserIds ≠ [])
    (hids : ∀ c ∈ merges.flatMap MergeOp.ids, d₁.HasCluster c ∧ ∃ m, d₁.MemberOf c m)
    (hm : AppliesMerges merges d₁ d') :
    Reabstracts s d d' ↔ ∀ op ∈ merges,
      (∃ a ∈ plan.absorptions, a.existingClusterId = op.survivorId) ∨
      ¬ d.DerivedFrom op.survivorId := by
  have hfk : ForeignKeys d' := (h.persist hp).merge hnodup (fun c hc => (hids c hc).1) hm
  constructor
  · -- The survivor took a loser's member, so its members changed.
    intro hre op hop
    obtain ⟨l, hl⟩ := List.exists_mem_of_ne_nil _ (hlosers op hop)
    obtain ⟨-, m, hml⟩ := hids l (List.mem_flatMap.2 ⟨op, hop, List.mem_cons_of_mem _ hl⟩)
    have hnew : d'.MemberOf op.survivorId m :=
      (hm.member _ m).2 ⟨l, hml, mergedInto_loser hnodup hop hl⟩
    have hold : ¬ d.MemberOf op.survivorId m :=
      fun hmem => hm.apart op hop l hl m hml ((hp.member _ m).2 (.inl hmem))
    obtain ⟨hunder, -⟩ := hre op.survivorId ⟨m, fun hiff => hold (hiff.2 hnew)⟩
    by_contra hcond
    obtain ⟨habsorbed, hder⟩ := not_or.1 hcond
    refine hunder
      ((hm.derived _).2 ⟨(hp.derived _).2 ⟨not_not.1 hder, fun a ha heq => habsorbed ⟨a, ha, heq⟩⟩,
        ?_⟩)
    exact fun op' hop' => survivor_not_mem_losers hnodup hop hop'
  · intro hsurvivors c ⟨m, hchanged⟩
    have hunder : ¬ d'.DerivedFrom c := by
      intro hder
      obtain ⟨hder₁, hkept⟩ := (hm.derived c).1 hder
      obtain ⟨hder₀, habsorbed⟩ := (hp.derived c).1 hder₁
      -- The cluster lost nobody, so it took in `m`.
      have hstay (hmem : d.MemberOf c m) : d'.MemberOf c m := by
        refine (hm.member c m).2 ⟨c, (hp.member c m).2 (.inl hmem), ?_⟩
        rcases mergedInto_cases hnodup c with ⟨heq, -⟩ | ⟨op, hop, hl, -⟩
        · exact heq
        · exact absurd hl (hkept op hop)
      obtain ⟨hnew, hold⟩ : d'.MemberOf c m ∧ ¬ d.MemberOf c m := by
        by_contra hboth
        exact hchanged ⟨hstay, fun hnew => by_contra fun hold => hboth ⟨hnew, hold⟩⟩
      obtain ⟨c₀, hmem₁, hc₀⟩ := (hm.member c m).1 hnew
      rcases mergedInto_cases hnodup c₀ with ⟨heq, -⟩ | ⟨op, hop, -, heq⟩
      · obtain rfl : c₀ = c := heq.symm.trans hc₀
        rcases (hp.member c₀ m).1 hmem₁ with hmem | ⟨n, hn, rfl, -⟩
        · exact hold hmem
        · rcases hp.fresh n hn with ⟨a, ha, hac⟩ | hno
          · exact habsorbed a ha hac
          · exact hno (h.derived _ hder₀)
      · obtain rfl : op.survivorId = c := heq.symm.trans hc₀
        rcases hsurvivors op hop with ⟨a, ha, hac⟩ | hno
        · exact habsorbed a ha hac
        · exact hno hder₀
    exact ⟨hunder, fun e he hactive hmem limit hlimit => selected (hfk.member c _ hmem)
      hunder he hactive hmem hlimit⟩

end Merges

end Derived

/-- A consolidation leaves nothing stale on the clusters it changed, if and only if the survivors of
its merges had nothing derived or absorbed in the same run. -/
theorem consolidate_reabstracts_iff (env : ConsolidateEnv) (s : Store) (nowMs : Int)
    (hash : HashOrder)
    (newId : Nat → ClusterId) (d : Derived) (scope : ConsolidationScope) (h : d.ForeignKeys) :
    Derived.Reabstracts s d (d.handleConsolidate env s nowMs hash newId scope).1 ↔
      Derived.SurvivorsUnderived env s nowMs hash newId d scope := by
  have hsame : Derived.Reabstracts s d d := fun c ⟨m, hchanged⟩ => absurd Iff.rfl hchanged
  unfold Derived.handleConsolidate
  split
  · next henv =>
    refine iff_of_true hsame fun e _ _ _ _ he => ?_
    rw [henv] at he
    cases he
  next embedderId henv =>
  have hembedder {e : Nat} (he : env.embedderId = some e) : e = embedderId :=
    Option.some.inj (he.symm.trans henv)
  dsimp only
  split
  · next hidle =>
    refine iff_of_true hsame fun e _ _ _ _ he hwork => ?_
    obtain rfl := hembedder he
    exact absurd hidle hwork
  next hwork =>
  split
  · next hplan =>
    refine iff_of_true hsame fun e _ _ _ _ he _ hplan' => ?_
    obtain rfl := hembedder he
    rw [hplan] at hplan'
    cases hplan'
  next plan hplan =>
  have hplanned {e : Nat} {plan' : Derived.ConsolidationPlan} (he : env.embedderId = some e)
      (hplan' : Derived.planConsolidation env hash newId d e (cutoffMs nowMs scope)
        (Derived.consolidateCandidates s d e (cutoffMs nowMs scope)) = .ok plan') :
        plan' = plan := by
    obtain rfl := hembedder he
    exact Except.ok.inj (hplan'.symm.trans hplan)
  split
  · next h₁ =>
    refine iff_of_true hsame fun e plan' _ _ _ he _ hplan' h₁' => ?_
    obtain rfl := hplanned he hplan'
    rw [h₁] at h₁'
    cases h₁'
  next d₁ h₁ =>
  have hpersists := Derived.persistPlan_eq_ok h₁
  have hnil : (([] : List MergeOp).flatMap MergeOp.ids).Nodup := List.nodup_nil
  have hfirst : Derived.Reabstracts s d d₁ :=
    (Derived.reabstracts_iff hnil h hpersists (by simp) (by simp) (.nil d₁)).2 (by simp)
  have hpersisted {e : Nat} {plan' : Derived.ConsolidationPlan} {d₁' : Derived}
      (he : env.embedderId = some e)
      (hplan' : Derived.planConsolidation env hash newId d e (cutoffMs nowMs scope)
        (Derived.consolidateCandidates s d e (cutoffMs nowMs scope)) = .ok plan')
      (h₁' : d.persistPlan s nowMs plan' = .ok d₁') : plan' = plan ∧ d₁' = d₁ := by
    obtain rfl := hplanned he hplan'
    exact ⟨rfl, Except.ok.inj (h₁'.symm.trans h₁)⟩
  split
  · next hmerges =>
    refine iff_of_true hfirst fun e plan' d₁' _ _ he _ hplan' h₁' hmerges' => ?_
    obtain ⟨rfl, rfl⟩ := hpersisted he hplan' h₁'
    rw [hmerges] at hmerges'
    cases hmerges'
  next merges hmerges =>
  split
  · next h₂ =>
    refine iff_of_true hfirst fun e plan' d₁' _ merges' he _ hplan' h₁' hmerges' h₂' => ?_
    obtain ⟨rfl, rfl⟩ := hpersisted he hplan' h₁'
    obtain rfl := Except.ok.inj (hmerges'.symm.trans hmerges)
    rw [h₂] at h₂'
    cases h₂'
  next d₂ h₂ =>
  obtain ⟨hnodup, hlosers, hids⟩ := Derived.planMerges_eq_ok hmerges
  have happlies : Derived.AppliesMerges merges d₁ d₂ :=
    Derived.applyMerges_spec hnodup (fun op hop l hl =>
      (hids l (List.mem_flatMap.2 ⟨op, hop, List.mem_cons_of_mem _ hl⟩)).1) (orStorage_eq_ok.1 h₂)
  rw [Derived.reabstracts_iff hnodup h hpersists hlosers hids happlies]
  constructor
  · intro hsurvivors e plan' d₁' _ merges' he _ hplan' h₁' hmerges' _
    obtain ⟨rfl, rfl⟩ := hpersisted he hplan' h₁'
    obtain rfl := Except.ok.inj (hmerges'.symm.trans hmerges)
    exact hsurvivors
  · exact fun hall => hall embedderId plan d₁ d₂ merges henv hwork hplan h₁ hmerges h₂

/-! ### A survivor that keeps its abstraction -/

namespace MergedSurvivor

def config : StewardConfig := ⟨1, 10, 0.9, by decide⟩

def env : ConsolidateEnv := ⟨some 1, some 1, some config, .error (.other "")⟩

/-- The number one, as a vector. -/
def one : Embedding := ⟨.f32, 1, [0, 0, 0x80, 0x3f]⟩

/-- Two clusters with the same centroid, one of them abstracted. -/
def before : Derived :=
  { Derived.empty with
    clusters := (Table.empty.insertOrIgnore ⟨"j", some one, 1, 0⟩).insertOrIgnore ⟨"k", some one, 1, 0⟩
    clusterEpisodes :=
      ((Table.empty.insertOrIgnore ⟨"j", "m1"⟩).insertOrIgnore ⟨"k", "m2"⟩).insertOrIgnore
        ⟨"k", "m3"⟩
    semanticAbstractions :=
      Table.empty.insertOrIgnore ⟨"a", "k", "of two memories", ⟨[], "llm", "steward", 0⟩, 1⟩ }

def rowid (n : Fin 4) : Rowid := ⟨n, by omega⟩

def store : Store :=
  { Store.empty with
    episodes := ⟨[⟨rowid 1, "m1", 0, .hot, .active, none⟩, ⟨rowid 2, "m2", 0, .hot, .active, none⟩,
      ⟨rowid 3, "m3", 0, .hot, .active, none⟩], by decide⟩ }

def hash : HashOrder := ⟨fun _ keys => keys, fun _ _ => .refl _⟩

def after : Derived := (before.handleConsolidate env store 1 hash (fun _ => "") ⟨none, true⟩).1

theorem foreignKeys : before.ForeignKeys := by
  have hmember : ∀ r ∈ before.clusterEpisodes.rows, ∃ c ∈ before.clusters.rows, c.clusterId =
      r.clusterId := by decide
  have hderived : ∀ a ∈ before.semanticAbstractions.rows, ∃ c ∈ before.clusters.rows, c.clusterId =
      a.clusterId := by
    decide
  constructor
  case member => exact fun c m hm => hmember _ hm
  case derived =>
    rintro c (⟨a, ha, rfl⟩ | ⟨t, ht, -⟩)
    · exact hderived a ha
    · exact absurd ht List.not_mem_nil

end MergedSurvivor

open MergedSurvivor in
theorem consolidate_reabstracts_iff_survivor :
    Derived.Reabstracts store before after ↔
      Derived.SurvivorsUnderived env store 1 hash (fun _ => "") before ⟨none, true⟩ :=
  consolidate_reabstracts_iff env store 1 hash (fun _ => "") before ⟨none, true⟩ foreignKeys

open MergedSurvivor in
/-- The survivor takes in `m1` and keeps the abstraction of its old members. -/
theorem mergedSurvivor_not_reabstracts :
    ¬ ∀ (env : ConsolidateEnv) (s : Store) (nowMs : Int) (hash : HashOrder)
    (newId : Nat → ClusterId) (d : Derived)
      (scope : ConsolidationScope), d.ForeignKeys →
      Derived.Reabstracts s d (d.handleConsolidate env s nowMs hash newId scope).1 := by
  intro h
  have hre : Derived.Reabstracts store before after :=
    h env store 1 hash (fun _ => "") before ⟨none, true⟩ foreignKeys
  have hnew : ClusterEpisodeRow.mk "k" "m1" ∈ after.clusterEpisodes := by decide +kernel
  have hold : ClusterEpisodeRow.mk "k" "m1" ∉ before.clusterEpisodes := by decide
  have habstracted : ∃ a ∈ after.semanticAbstractions.rows, a.clusterId = "k" := by decide +kernel
  exact (hre "k" ⟨"m1", fun hiff => hold (hiff.2 hnew)⟩).1 (.inl habstracted)

end Solo
