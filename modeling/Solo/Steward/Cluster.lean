import Mathlib.Data.List.Dedup
import Mathlib.Data.List.Destutter
import Mathlib.Data.List.Sort
import Solo.Lib.Binary32
import Solo.Lib.Result
import Solo.Steward.UnionFind
import Solo.Store.Writer

/-!
# Clustering (`solo-steward/src/cluster.rs`)

Episodes of one day join when the cosine of their embeddings reaches the threshold; components are
cut to the size cap. Clusters merge and are absorbed by the cosine of their centroids. The
similarity is a parameter of each algorithm; `cosineSimilarityF32` is the one the writer uses. A
hash map's iteration order is an input, as are the fresh cluster ids.
-/

namespace Solo

/-- `StewardConfig`, as its loaders check it. -/
structure StewardConfig where
  clusterMinSize : Nat
  clusterMaxSize : Nat
  clusterCosineThreshold : Float32
  clusterMinSize_pos : 0 < clusterMinSize

def StewardConfig.maxSize (cfg : StewardConfig) : Nat := max cfg.clusterMaxSize cfg.clusterMinSize

/-- `solo_core::Cluster`. -/
structure Cluster where
  clusterId : MemoryId
  episodeIds : List MemoryId
  centroid : Option Embedding
  coherence : Float32
  deriving DecidableEq

/-- What clustering reads of an episode and its embedding. -/
structure ClusterInput where
  memoryId : MemoryId
  tsMs : Int
  embedding : Embedding

/-- An order in which a hash map gives back its keys, for each map that is built. -/
structure HashOrder where
  order : Int → List Nat → List Nat
  perm : ∀ i keys, (order i keys).Perm keys

/-! ### Vectors -/

def toFloats (v : Vector) : List Float32 := v.map fun b => Float32.ofBits (UInt32.ofBitVec b)

/-- `bytemuck::cast_slice` to little-endian bytes. -/
def ofFloats (v : List Float32) : Blob :=
  v.flatMap fun x =>
    let b := x.toBits.toBitVec
    [b.extractLsb' 0 8, b.extractLsb' 8 8, b.extractLsb' 16 8, b.extractLsb' 24 8]

/-- `f32::EPSILON`. -/
def epsilon : Float32 := Float32.ofBits 0x34000000

def norm (v : List Float32) : Float32 := ((v.map fun x => x * x).foldl (· + ·) 0).sqrt

def cosineSimilarityF32 (a b : List Float32) : Float32 :=
  let (dot, normA, normB) := (a.zip b).foldl
    (fun (dot, normA, normB) (x, y) => (dot + x * y, normA + x * x, normB + y * y)) (0, 0, 0)
  let denom := normA.sqrt * normB.sqrt
  if denom ≤ epsilon then 0 else Binary32.clamp (dot / denom) (-1) 1

/-- `add_normalized_weighted`; entries of `sum` past the end of `v` stay. -/
def addNormalizedWeighted (sum v : List Float32) (weight : Float32) : List Float32 :=
  if weight ≤ 0 then sum
  else if norm v ≤ epsilon then sum
  else List.zipWith (fun acc x => acc + x / norm v * weight) sum v ++ sum.drop v.length

def normalizeInPlace (v : List Float32) : List Float32 :=
  if epsilon < norm v then v.map (· / norm v) else v

def EmbeddingDtype.debugStr : EmbeddingDtype → String
  | .f32 => "F32"
  | .f16 => "F16"
  | .i8 => "I8"
  | .binary => "Binary"

/-! ### Building clusters -/

def checkInput (dim : Nat) (x : ClusterInput × Nat) : Except Error Unit :=
  let e := x.1.embedding
  if e.dim ≠ dim then
    .error (.steward s!"cluster_episodes: embedding dim mismatch at index {x.2}: {e.dim} vs {dim}")
  else if e.dtype ≠ .f32 then
    .error (.steward
      s!"cluster_episodes: embedding dtype mismatch at index {x.2}: {e.dtype.debugStr} vs F32")
  else if !e.valid then .error (.embedderProtocol "embedding length does not match dtype * dim")
  else .ok ()

def inputView (x : ClusterInput × Nat) : Except Error (ClusterInput × List Float32) :=
  match x.1.embedding.asF32Slice with
  | none => .error (.steward s!"cluster_episodes: embedding at index {x.2} failed F32 cast")
  | some v => .ok (x.1, toFloats v)

def msPerDay : Int := 86400000

/-- `ts_ms.div_euclid(MS_PER_DAY)`. -/
def dayOf (x : ClusterInput) : Int := x.tsMs / msPerDay

/-- `(ts_ms, memory_id)` in order. -/
def Earlier (a b : ClusterInput × List Float32) : Prop :=
  a.1.tsMs < b.1.tsMs ∨ a.1.tsMs = b.1.tsMs ∧ a.1.memoryId ≤ b.1.memoryId

instance : DecidableRel Earlier := fun a b =>
  inferInstanceAs
    (Decidable (a.1.tsMs < b.1.tsMs ∨ a.1.tsMs = b.1.tsMs ∧ a.1.memoryId ≤ b.1.memoryId))

/-- `slice::chunks`, for a positive size. -/
def chunks {α : Type} (size : Nat) (l : List α) : List (List α) :=
  go l.length l
where
  go : Nat → List α → List (List α)
    | 0, _ => []
    | fuel + 1, l => if l.isEmpty then [] else l.take size :: go fuel (l.drop size)

/-- `split_component_by_time`. -/
def splitComponentByTime (cfg : StewardConfig) (members : List (ClusterInput × List Float32)) :
    List (List (ClusterInput × List Float32)) :=
  (chunks cfg.maxSize (members.insertionSort Earlier)).filter fun chunk => cfg.clusterMinSize ≤
    chunk.length

section Similarity

variable (cosine : List Float32 → List Float32 → Float32)

/-- `build_cluster`. -/
def buildCluster (newId : MemoryId) (dim : Nat) (members : List (ClusterInput × List Float32)) :
    Cluster :=
  let sorted := members.insertionSort Earlier
  let sum := sorted.foldl (fun sum m => addNormalizedWeighted sum m.2 1) (List.replicate dim 0)
  let mean := normalizeInPlace (sum.map (· / Float32.ofNat sorted.length))
  let views := sorted.map Prod.snd
  let sims :=
    (UnionFind.pairs sorted.length).map fun p => cosine (views.getD p.1 []) (views.getD p.2 [])
  ⟨newId, sorted.map (·.1.memoryId), some ⟨.f32, dim, ofFloats mean⟩,
    if sims.isEmpty then 1 else sims.foldl (· + ·) 0 / Float32.ofNat sims.length⟩

/-- The members of each root's group, in the order `roots` lists the roots. -/
def groupsBy {α : Type} (keys : List Nat) (roots : List Nat) (items : List α) : List (List α) :=
  keys.map fun root => ((roots.zip items).filter (·.1 = root)).map Prod.snd

/-- The member lists of the clusters of one day, in the order they are pushed. -/
def dayComponents (cfg : StewardConfig) (hash : HashOrder)
    (inputs : List (ClusterInput × List Float32)) (day : Int) :
    List (List (ClusterInput × List Float32)) :=
  let bucket := inputs.filter fun x => dayOf x.1 = day
  if bucket.length < cfg.clusterMinSize then []
  else
    let views := bucket.map Prod.snd
    let roots := UnionFind.roots bucket.length fun a b =>
      cfg.clusterCosineThreshold ≤ cosine (views.getD a []) (views.getD b [])
    let groups := groupsBy (hash.order day roots.dedup) roots bucket
    (groups.filter fun g => cfg.clusterMinSize ≤ g.length).flatMap (splitComponentByTime cfg)

/-- The earliest `ts_ms` of a cluster's members. -/
def earliestTs (inputs : List ClusterInput) (c : Cluster) : Int :=
  (((inputs.filter fun x => c.episodeIds.contains x.memoryId).map (·.tsMs)).min?).getD (2 ^ 63 - 1)

def clusterEpisodes (cfg : StewardConfig) (hash : HashOrder) (newId : Nat → MemoryId)
    (inputs : List ClusterInput) : Except Error (List Cluster) :=
  match inputs with
  | [] => .ok []
  | first :: _ =>
    if first.embedding.dtype ≠ .f32 then
      .error (.steward
        s!"cluster_episodes requires F32 embeddings; got {first.embedding.dtype.debugStr}")
    else do
      inputs.zipIdx.forM (checkInput first.embedding.dim)
      let viewed ← inputs.zipIdx.mapM inputView
      let days := (inputs.map dayOf).dedup.insertionSort (· ≤ ·)
      let members := days.flatMap (dayComponents cosine cfg hash viewed)
      let clusters :=
        members.zipIdx.map fun m => buildCluster cosine (newId m.2) first.embedding.dim m.1
      return clusters.insertionSort fun a b => earliestTs inputs a ≤ earliestTs inputs b

/-! ### Merging by centroid -/

structure MergeOp where
  survivorId : MemoryId
  loserIds : List MemoryId
  mergedEpisodeIds : List MemoryId
  mergedCentroid : Embedding
  mergedCoherence : Float32
  deriving DecidableEq

/-- A cluster of the list with its position and its centroid's entries. -/
structure MergeMember where
  pos : Nat
  cluster : Cluster
  view : List Float32

def checkCentroid (dim : Nat) (x : Cluster × Nat) : Except Error Unit :=
  match x.1.centroid with
  | none => .error (.steward s!"compute_merge_plan: cluster[{x.2}] has no centroid")
  | some c =>
    if c.dtype ≠ .f32 then
      .error (.steward
        s!"compute_merge_plan: cluster[{x.2}] centroid dtype is {c.dtype.debugStr}, want F32")
    else if c.dim ≠ dim then
      .error (.steward s!"compute_merge_plan: cluster[{x.2}] centroid dim {c.dim} != {dim}")
    else .ok ()

def mergeMember (x : Cluster × Nat) : Except Error MergeMember :=
  match x.1.centroid.bind Embedding.asF32Slice with
  | none => .error (.steward s!"compute_merge_plan: cluster[{x.2}] centroid F32 cast failed")
  | some v => .ok ⟨x.2, x.1, toFloats v⟩

/-- `max_by`: more episodes first, then the smaller id; of equals the later. -/
def betterSurvivor (best m : MergeMember) : MergeMember :=
  let lenBest := best.cluster.episodeIds.length
  let lenM := m.cluster.episodeIds.length
  if lenM < lenBest ∨ lenM = lenBest ∧ best.cluster.clusterId < m.cluster.clusterId then best else m

/-- The entry of one group; a group of one or above the cap has none. -/
def mergeGroup (cfg : StewardConfig) (dim : Nat) (members : List MergeMember) : Option MergeOp :=
  match members with
  | [] | [_] => none
  | first :: rest =>
    let weight (m : MergeMember) := Float32.ofNat m.cluster.episodeIds.length
    if cfg.maxSize < (members.map (·.cluster.episodeIds.length)).sum then none
    else
      let survivor := rest.foldl betterSurvivor first
      let losers := members.filter (·.pos ≠ survivor.pos)
      let sum :=
        members.foldl (fun sum m => addNormalizedWeighted sum m.view (weight m))
        (List.replicate dim 0)
      let total := members.foldl (fun t m => t + weight m) 0
      let mean := normalizeInPlace (if 0 < total then sum.map (· / total) else sum)
      let cohSum := members.foldl (fun t m => t + m.cluster.coherence * weight m) 0
      some ⟨survivor.cluster.clusterId, losers.map (·.cluster.clusterId),
        ((members.flatMap (·.cluster.episodeIds)).insertionSort (· ≤ ·)).destutter (· ≠ ·),
        ⟨.f32, dim, ofFloats mean⟩, if 0 < total then cohSum / total else 1⟩

def computeMergePlan (cfg : StewardConfig) (clusters : List Cluster) :
    Except Error (List MergeOp) :=
  if clusters.length < 2 then .ok []
  else
    match clusters.head?.bind (·.centroid) with
    | none => .error (.steward "compute_merge_plan: cluster[0] has no centroid")
    | some first => do
      clusters.zipIdx.forM (checkCentroid first.dim)
      let members ← clusters.zipIdx.mapM mergeMember
      let views := members.map (·.view)
      let roots := UnionFind.roots clusters.length fun a b =>
        cfg.clusterCosineThreshold ≤ cosine (views.getD a []) (views.getD b [])
      let keys := roots.dedup.insertionSort (· ≤ ·)
      return (groupsBy keys roots members).filterMap (mergeGroup cfg first.dim)

def planExistingMerges (cfg : StewardConfig) (clusters : List Cluster) :
    Except Error (List MergeOp) :=
  computeMergePlan cosine cfg clusters

/-- `MergePlan::absorbed`. -/
def absorbedCount (merges : List MergeOp) : Nat := (merges.map (·.loserIds.length)).sum

/-- `apply_merge_plan_in_place`; a survivor named twice takes its last entry. -/
def applyMergePlan (clusters : List Cluster) (merges : List MergeOp) : List Cluster :=
  clusters.filterMap fun c =>
    if merges.any (·.loserIds.contains c.clusterId) then none
    else
      match merges.reverse.find? (·.survivorId = c.clusterId) with
      | some op =>
        some ⟨op.survivorId, op.mergedEpisodeIds, some op.mergedCentroid, op.mergedCoherence⟩
      | none => some c

/-- `merge_clusters_by_centroid`: the merged list and the number absorbed. -/
def mergeClustersByCentroid (cfg : StewardConfig) (clusters : List Cluster) :
    Except Error (List Cluster × Nat) := do
  let merges ← computeMergePlan cosine cfg clusters
  return (applyMergePlan clusters merges, absorbedCount merges)

/-! ### Absorbing into existing clusters -/

structure ExistingClusterSummary where
  clusterId : MemoryId
  centroid : Embedding
  coherence : Float32
  episodeCount : Nat
  deriving DecidableEq

structure AbsorbedCluster where
  newClusterId : MemoryId
  existingClusterId : MemoryId
  mergedCentroid : Embedding
  mergedCoherence : Float32
  absorbedEpisodeIds : List MemoryId
  deriving DecidableEq

/-- The working copy of an existing cluster. -/
structure WorkingCluster where
  clusterId : MemoryId
  centroid : List Float32
  coherence : Float32
  count : Nat

def checkSummary (dim : Nat) (x : ExistingClusterSummary × Nat) : Except Error Unit :=
  let c := x.1.centroid
  if c.dtype ≠ .f32 then
    .error (.steward
      s!"absorb_into_existing: existing[{x.2}] dtype is {c.dtype.debugStr}, want F32")
  else if c.dim ≠ dim then
    .error (.steward s!"absorb_into_existing: existing[{x.2}] dim {c.dim} != {dim}")
  else .ok ()

def workingCluster (s : ExistingClusterSummary) : Except Error WorkingCluster :=
  match s.centroid.asF32Slice with
  | none =>
    .error (.steward s!"absorb_into_existing: existing[{s.clusterId}] centroid F32 cast failed")
  | some v => .ok ⟨s.clusterId, toFloats v, s.coherence, s.episodeCount⟩

/-- The scan's running best: the position and the working cluster there, with its similarity. -/
def bestExisting (cfg : StewardConfig) (view : List Float32) (size : Nat)
    (working : List WorkingCluster) : Option (Nat × WorkingCluster) :=
  let take (best : Option (Nat × WorkingCluster)) (w : WorkingCluster) : Bool :=
    match best with
    | none => true
    | some (_, prev) => prev.count < w.count ||
      (w.count = prev.count && w.clusterId < prev.clusterId)
  (working.zipIdx.foldl (fun (best, bestSim) (w, i) =>
    if cfg.maxSize < w.count + size then (best, bestSim)
    else
      let sim := cosine view w.centroid
      if bestSim ≤ sim && take best w then (some (i, w), sim) else (best, bestSim))
    (none, cfg.clusterCosineThreshold)).1

/-- The working cluster after it took in `n`. -/
def WorkingCluster.absorb (dim : Nat) (w : WorkingCluster) (n : Cluster) (view : List Float32) :
    WorkingCluster :=
  let nW := Float32.ofNat n.episodeIds.length
  let eW := Float32.ofNat w.count
  let total := nW + eW
  let zero := List.replicate dim (0 : Float32)
  let sum :=
    if 0 < total then
      (addNormalizedWeighted (addNormalizedWeighted zero w.centroid eW) view nW).map (· / total)
    else zero
  ⟨w.clusterId, normalizeInPlace sum, (w.coherence * eW + n.coherence * nW) / Binary32.max total 1,
    w.count + n.episodeIds.length⟩

/-- One turn of the loop over the new clusters. -/
def absorbStep (cfg : StewardConfig) (dim : Nat) (st : List WorkingCluster × List AbsorbedCluster)
    (n : Cluster) : Except Error (List WorkingCluster × List AbsorbedCluster) :=
  match n.centroid with
  | none => .error (.steward s!"absorb_into_existing: new cluster {n.clusterId} has no centroid")
  | some c =>
    match c.asF32Slice with
    | none =>
      .error (.steward s!"absorb_into_existing: new cluster {n.clusterId} centroid F32 cast failed")
    | some v =>
      match bestExisting cosine cfg (toFloats v) n.episodeIds.length st.1 with
      | none => .ok st
      | some (i, w) =>
        let w' := w.absorb dim n (toFloats v)
        .ok (st.1.set i w', st.2 ++
          [⟨n.clusterId, w.clusterId, ⟨.f32, dim, ofFloats w'.centroid⟩, w'.coherence,
          n.episodeIds⟩])

def absorbIntoExisting (cfg : StewardConfig) (newClusters : List Cluster)
    (existing : List ExistingClusterSummary) : Except Error (List AbsorbedCluster) :=
  match newClusters, existing with
  | [], _ | _, [] => .ok []
  | firstNew :: _, first :: _ => do
    let dim := first.centroid.dim
    existing.zipIdx.forM (checkSummary dim)
    match firstNew.centroid with
    | none => .error (.steward "absorb_into_existing: new_clusters[0] has no centroid")
    | some c =>
      if c.dim ≠ dim then
        .error (.steward
          s!"absorb_into_existing: new_clusters[0] dim {c.dim} != existing dim {dim}")
      else do
        let working ← existing.mapM workingCluster
        let (_, absorptions) ← newClusters.foldlM (absorbStep cosine cfg dim) (working, [])
        return absorptions

end Similarity

end Solo
