import Solo.Derived.Attach
import Solo.Steward.Cluster

/-!
# Consolidation (`handle_consolidate_impl`)

Unclustered episodes are clustered, the new clusters merge among themselves and are persisted or
absorbed by existing ones in a first transaction; with a steward, existing clusters whose centroids
came close merge in a second one. The plans are computed before the statements that apply them.
-/

namespace Solo

structure ConsolidationScope where
  windowDays : Option Int
  forceMerge : Bool

/-- What the writer was started with: its embedder with the `dim` of its row in `embedders`, the
active steward's configuration, and the one read from the environment where there is no steward. -/
structure ConsolidateEnv where
  embedderId : Option Nat
  embedderDim : Option Int
  steward : Option StewardConfig
  envConfig : Except Error StewardConfig

/-- `ConsolidationReport`, without the counts that stay zero. -/
structure ConsolidationReport where
  episodesSeen : Nat := 0
  clustersBuilt : Nat := 0
  episodesClustered : Nat := 0
  clustersMerged : Nat := 0
  clustersAbsorbed : Nat := 0
  existingClustersMerged : Nat := 0
  deriving DecidableEq

/-- `as usize` of an `i64`. -/
def usizeOfI64 (n : Int) : Nat := (n % 2 ^ 64).toNat

/-- The start of the window; a window too long for an `i64` is none. -/
def cutoffMs (nowMs : Int) (scope : ConsolidationScope) : Option Int :=
  scope.windowDays.bind fun days =>
    let w := days * 86400000
    if -2 ^ 63 ≤ w ∧ w < 2 ^ 63 then some ((nowMs - w).bmod (2 ^ 64)) else none

def inWindow (cutoff : Option Int) (ms : Int) : Bool := cutoff.all (· ≤ ms)

namespace Derived

/-! ### Selecting -/

/-- The candidate `SELECT`. -/
def consolidateCandidates (s : Store) (d : Derived) (embedderId : Nat) (cutoff : Option Int) :
    List ClusterInput :=
  let rows := s.episodes.rows.filter fun e =>
    e.status = .active && e.tier = .hot && inWindow cutoff e.tsMs &&
      !d.clusterEpisodes.rows.any (·.memoryId = e.memoryId)
  let sorted :=
    rows.insertionSort fun a b => a.tsMs < b.tsMs ∨ a.tsMs = b.tsMs ∧ a.rowid.val ≤ b.rowid.val
  sorted.filterMap fun e =>
    (s.embeddings.find? fun em => em.memoryId = e.memoryId && em.embedderId = embedderId).map
      fun em =>
      ⟨e.memoryId, e.tsMs, em.dtype, usizeOfI64 em.dim, em.vector⟩

/-- The members of a cluster, in order. -/
def membersOf (d : Derived) (c : ClusterId) : List MemoryId :=
  ((d.clusterEpisodes.rows.filter (·.clusterId = c)).map (·.memoryId)).insertionSort (· ≤ ·)

/-- The rows both fetches read: `f32` centroids of the expected dimension in the window that have a
member, by id. -/
def mergeableClusters (d : Derived) (cutoff : Option Int) (expectedDim : Nat) :
    List (ClusterRow × Embedding) :=
  ((d.clusters.rows.insertionSort fun a b => a.clusterId ≤ b.clusterId).filterMap fun c =>
    c.centroid.bind fun e =>
      if e.dtype = .f32 ∧ e.dim = expectedDim ∧ inWindow cutoff c.createdAtMs ∧
        d.membersOf c.clusterId ≠ [] then
        some (c, e)
      else none)

/-- `fetch_existing_cluster_summaries`. -/
def fetchExistingClusterSummaries (d : Derived) (cutoff : Option Int) (expectedDim : Nat) :
    List ExistingClusterSummary :=
  (d.mergeableClusters cutoff expectedDim).map fun (c, e) =>
    ⟨c.clusterId, e, c.coherence, (d.membersOf c.clusterId).length⟩

/-- `fetch_existing_clusters_full`. -/
def fetchExistingClustersFull (d : Derived) (cutoff : Option Int) (expectedDim : Nat) :
    List Cluster :=
  (d.mergeableClusters cutoff expectedDim).map fun (c, e) =>
    ⟨c.clusterId, d.membersOf c.clusterId, some e, c.coherence⟩

/-! ### Planning -/

/-- What is known before the first transaction. -/
structure ConsolidationPlan where
  config : StewardConfig
  expectedDim : Nat
  clusters : List Cluster
  merged : Nat
  absorptions : List AbsorbedCluster

def expectedDimOf (env : ConsolidateEnv) (embedderId : Nat) (candidates : List ClusterInput) :
    Except Error Nat :=
  match candidates with
  | c :: _ => .ok c.embedding.dim
  | [] =>
    match env.embedderDim with
    | some dim => .ok (usizeOfI64 dim)
    | none => .error (.storage s!"consolidate force_merge: lookup dim for embedder_id {embedderId}")

def planConsolidation (env : ConsolidateEnv) (hash : HashOrder) (newId : Nat → ClusterId)
    (d : Derived)
    (embedderId : Nat) (cutoff : Option Int) (candidates : List ClusterInput) :
    Except Error ConsolidationPlan := do
  let config ← env.steward.elim env.envConfig .ok
  let built ← Solo.clusterEpisodes cosineSimilarityF32 config hash newId candidates
  let (clusters, merged) ← mergeClustersByCentroid cosineSimilarityF32 config built
  let expectedDim ← expectedDimOf env embedderId candidates
  let absorptions ← absorbIntoExisting cosineSimilarityF32 config clusters
    (d.fetchExistingClusterSummaries cutoff expectedDim)
  return ⟨config, expectedDim, clusters, merged, absorptions⟩

/-- The plan of the second transaction, from the tables the first one left. -/
def planMerges (env : ConsolidateEnv) (plan : ConsolidationPlan) (cutoff : Option Int)
    (d : Derived) : Except Error (List MergeOp) :=
  match env.steward with
  | none => .ok []
  | some _ =>
    let full := d.fetchExistingClustersFull cutoff plan.expectedDim
    if full.length < 2 then .ok [] else planExistingMerges cosineSimilarityF32 plan.config full

/-! ### Applying -/

def insertCluster (nowMs : Int) (d : Derived) (c : Cluster) : Option Derived := do
  let clusters ← d.clusters.insert? ⟨c.clusterId, c.centroid, c.coherence, nowMs⟩
  return { d with clusters := clusters }

def insertMember (s : Store) (c : ClusterId) (d : Derived) (m : MemoryId) : Option Derived := do
  guard (d.clusterRef (some c) && s.episodes.rows.any (·.memoryId = m))
  let members ← d.clusterEpisodes.insert? ⟨c, m⟩
  return { d with clusterEpisodes := members }

/-- The inserts of one new cluster: under the cluster that absorbs it, or with a row of its own. -/
def persistCluster (s : Store) (nowMs : Int) (absorptions : List AbsorbedCluster) (d : Derived)
    (c : Cluster) : Except Error Derived :=
  match absorptions.reverse.find? (·.newClusterId = c.clusterId) with
  | some a => orStorage "INSERT cluster_episodes (absorbed)"
    (c.episodeIds.foldlM (insertMember s a.existingClusterId) d)
  | none => do
    let d ← orStorage "INSERT cluster" (d.insertCluster nowMs c)
    orStorage "INSERT cluster_episodes" (c.episodeIds.foldlM (insertMember s c.clusterId) d)

/-- `UPDATE clusters SET centroid, coherence`. -/
def setCentroid (d : Derived) (c : ClusterId) (centroid : Embedding) (coherence : Float32) :
    Derived :=
  { d with clusters := d.clusters.updateWhere (·.clusterId = c) fun r =>
      { r with centroid := some centroid, coherence := coherence } }

/-- The refresh of a cluster that absorbed, which drops what was derived from it. -/
def refreshAbsorbed (d : Derived) (a : AbsorbedCluster) : Derived :=
  ((d.setCentroid a.existingClusterId a.mergedCentroid a.mergedCoherence).deleteAbstractionsOf
    a.existingClusterId).deleteTriplesOf a.existingClusterId

/-- The last absorption of each existing cluster, by id. -/
def lastPerExisting (absorptions : List AbsorbedCluster) : List AbsorbedCluster :=
  ((absorptions.map (·.existingClusterId)).dedup.insertionSort (· ≤ ·)).filterMap fun c =>
    absorptions.reverse.find? (·.existingClusterId = c)

/-- The first transaction. -/
def persistPlan (s : Store) (nowMs : Int) (d : Derived) (plan : ConsolidationPlan) :
    Except Error Derived := do
  let d ← plan.clusters.foldlM (persistCluster s nowMs plan.absorptions) d
  return (lastPerExisting plan.absorptions).foldl refreshAbsorbed d

/-- `UPDATE cluster_episodes SET cluster_id`. -/
def moveMembers (survivor : ClusterId) (d : Derived) (loser : ClusterId) : Option Derived := do
  guard (d.clusterRef (some survivor) || !d.clusterEpisodes.rows.any (·.clusterId = loser))
  let members ← d.clusterEpisodes.rekeyWhere? (·.clusterId = loser) fun r =>
      { r with clusterId := survivor }
  return { d with clusterEpisodes := members }

/-- One entry of the merge plan. -/
def applyMerge (d : Derived) (op : MergeOp) : Option Derived := do
  let d ← op.loserIds.foldlM (moveMembers op.survivorId) d
  let d := d.setCentroid op.survivorId op.mergedCentroid op.mergedCoherence
  return op.loserIds.foldl (fun d loser => d.deleteClusters (·.clusterId = loser)) d

/-- The second transaction. -/
def applyMerges (d : Derived) (merges : List MergeOp) : Except Error Derived :=
  orStorage "UPDATE cluster_episodes (existing-merge)" (merges.foldlM applyMerge d)

/-- Inserting clusters and members touches those two tables only. -/
theorem persistCluster_eq_ok {s : Store} {nowMs : Int} {absorptions : List AbsorbedCluster}
    {d d' : Derived} {c : Cluster} (h : persistCluster s nowMs absorptions d c = .ok d') :
    ∃ clusters members, d' = { d with clusters := clusters, clusterEpisodes := members } := by
  have hmembers {target : ClusterId} {d₁ d₂ : Derived} {ms : List MemoryId}
      (h : ms.foldlM (insertMember s target) d₁ = some d₂) :
      ∃ members, d₂ = { d₁ with clusterEpisodes := members } := by
    refine Result.foldlM_invariant_option
      (fun d => ∃ members, d = { d₁ with clusterEpisodes := members }) ?_ ⟨_, rfl⟩ h
    rintro m - - d₃ ⟨members, rfl⟩ h
    simp only [insertMember, Option.bind_eq_bind, Option.bind_eq_some_iff, Option.pure_def,
      Option.some.injEq] at h
    obtain ⟨-, -, members', -, rfl⟩ := h
    exact ⟨members', rfl⟩
  unfold persistCluster at h
  split at h
  · obtain ⟨members, rfl⟩ := hmembers (orStorage_eq_ok.1 h)
    exact ⟨d.clusters, members, rfl⟩
  · obtain ⟨d₁, h₁, h⟩ := Result.bind_eq_ok.1 h
    have hins := orStorage_eq_ok.1 h₁
    simp only [insertCluster, Option.bind_eq_bind, Option.bind_eq_some_iff, Option.pure_def,
      Option.some.injEq] at hins
    obtain ⟨clusters, -, rfl⟩ := hins
    obtain ⟨members, rfl⟩ := hmembers (orStorage_eq_ok.1 h)
    exact ⟨clusters, members, rfl⟩

theorem moveMembers_eq_some {survivor loser : ClusterId} {d d' : Derived}
    (h : moveMembers survivor d loser = some d') :
    ∃ members, d.clusterEpisodes.rekeyWhere? (·.clusterId = loser)
    (fun r => { r with clusterId := survivor }) =
      some members ∧ d' = { d with clusterEpisodes := members } := by
  simp only [moveMembers, Option.bind_eq_bind, Option.bind_eq_some_iff, Option.pure_def,
    Option.some.injEq] at h
  obtain ⟨-, -, members, hmove, rfl⟩ := h
  exact ⟨members, hmove, rfl⟩

/-- The tables afterwards, and the reply: a failed second transaction leaves the first one
committed. -/
def handleConsolidate (env : ConsolidateEnv) (s : Store) (nowMs : Int) (hash : HashOrder)
    (newId : Nat → ClusterId)
    (d : Derived) (scope : ConsolidationScope) : Derived × Except Error ConsolidationReport :=
  match env.embedderId with
  | none =>
    (d, .error
      (.other "consolidate: writer has no current embedder_id (use spawn_full_with_embedder)"))
  | some embedderId =>
    let cutoff := cutoffMs nowMs scope
    let candidates := consolidateCandidates s d embedderId cutoff
    if candidates.isEmpty && !scope.forceMerge then (d, .ok {})
    else
      match planConsolidation env hash newId d embedderId cutoff candidates with
      | .error e => (d, .error e)
      | .ok plan =>
        match d.persistPlan s nowMs plan with
        | .error e => (d, .error e)
        | .ok d₁ =>
          match planMerges env plan cutoff d₁ with
          | .error e => (d₁, .error e)
          | .ok merges =>
            match d₁.applyMerges merges with
            | .error e => (d₁, .error e)
            | .ok d₂ =>
              (d₂, .ok
                { episodesSeen := candidates.length
                  clustersBuilt := plan.clusters.length - plan.absorptions.length
                  episodesClustered := (plan.clusters.map (·.episodeIds.length)).sum
                  clustersMerged := plan.merged, clustersAbsorbed := plan.absorptions.length
                  existingClustersMerged := absorbedCount merges })

/-- The tables afterwards are those before, or what one or both transactions made of the plan. -/
theorem handleConsolidate_cases (env : ConsolidateEnv) (s : Store) (nowMs : Int) (hash : HashOrder)
    (newId : Nat → ClusterId) (d : Derived) (scope : ConsolidationScope) :
    (handleConsolidate env s nowMs hash newId d scope).1 = d ∨
      ∃ embedderId plan d₁, env.embedderId = some embedderId ∧
        planConsolidation env hash newId d embedderId (cutoffMs nowMs scope)
          (consolidateCandidates s d embedderId (cutoffMs nowMs scope)) = .ok plan ∧
        d.persistPlan s nowMs plan = .ok d₁ ∧
        ((handleConsolidate env s nowMs hash newId d scope).1 = d₁ ∨
          ∃ merges, planMerges env plan (cutoffMs nowMs scope) d₁ = .ok merges ∧
            d₁.applyMerges merges = .ok (handleConsolidate env s nowMs hash newId d scope).1) := by
  unfold handleConsolidate
  split
  · exact .inl rfl
  next embedderId henv =>
  dsimp only
  split
  · exact .inl rfl
  split
  · exact .inl rfl
  next plan hplan =>
  split
  · exact .inl rfl
  next d₁ h₁ =>
  refine .inr ⟨embedderId, plan, d₁, henv, hplan, h₁, ?_⟩
  split
  · exact .inl rfl
  next merges hmerges =>
  split
  · exact .inl rfl
  next d₂ h₂ => exact .inr ⟨merges, hmerges, h₂⟩

end Derived

end Solo
