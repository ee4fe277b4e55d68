import Solo.Derived.Facts

/-!
# Attaching abstractions (`handle_attach_abstraction_batch`)

Each cluster of the batch has a savepoint of its own: what it derives replaces the cluster's
abstractions, triples and reviews, or nothing of it happens.
-/

namespace Solo

structure SemanticAbstraction where
  abstractionId : String
  clusterId : ClusterId
  content : String
  triples : List Triple
  provenance : Provenance
  confidence : Float32
  deriving DecidableEq

/-- `AttachAbstractionBatchReport`, without the text of the last error. -/
structure AttachReport where
  abstractionsBuilt : Nat
  triplesExtracted : Nat
  triplesQuarantined : Nat
  clustersFailed : Nat
  clustersDeferred : Nat
  deriving DecidableEq

/-- `resolve_source_episode_id_in_tx`. -/
def resolveSourceEpisodeId (s : Store) (p : Provenance) : Option Rowid :=
  p.derivedFrom.head?.bind fun m => (s.episode? m).map (·.rowid)

def evaluateForCluster (s : Store) (clusterId : ClusterId) (t : Triple) : TripleQualityDecision :=
  evaluateExtractedTriple t clusterId (resolveSourceEpisodeId s t.provenance)

def TripleQualityDecision.isActive : TripleQualityDecision → Bool
  | .active _ => true
  | .review _ => false

namespace Derived

def deleteAbstractionsOf (d : Derived) (c : ClusterId) : Derived :=
  { d with semanticAbstractions := d.semanticAbstractions.deleteWhere (·.clusterId = c) }

def deleteTriplesOf (d : Derived) (c : ClusterId) : Derived :=
  d.deleteTriples (·.clusterId = some c)

def deleteReviewsOf (d : Derived) (c : ClusterId) : Derived :=
  { d with tripleReviews := d.tripleReviews.deleteWhere (·.clusterId = some c) }

/-- One triple of an abstraction, by the gate's decision. -/
def attachTriple (s : Store) (nowMs : Int) (clusterId : ClusterId) (d : Derived) (t : Triple) :
    Option Derived :=
  match evaluateForCluster s clusterId t with
  | .active a =>
    d.insertActiveTriple s nowMs a (some clusterId) (resolveSourceEpisodeId s t.provenance)
      t.provenance
  | .review c => d.insertTripleReview s nowMs c

/-- The statements between a cluster's savepoint and its release. -/
def attachAbstraction (s : Store) (nowMs : Int) (d : Derived) (a : SemanticAbstraction) :
    Option Derived := do
  let d := ((d.deleteAbstractionsOf a.clusterId).deleteTriplesOf a.clusterId).deleteReviewsOf
    a.clusterId
  let d ← d.insertAbstraction ⟨a.abstractionId, a.clusterId, a.content, a.provenance, a.confidence⟩
  a.triples.foldlM (attachTriple s nowMs a.clusterId) d

/-- A cluster of the batch: released, or rolled back to its savepoint and booked as failed. -/
def attachCluster (s : Store) (nowMs : Int) (st : Derived × AttachReport)
    (a : SemanticAbstraction) : Derived × AttachReport :=
  match st.1.attachAbstraction s nowMs a with
  | some d =>
    let accepted := a.triples.countP fun t => (evaluateForCluster s a.clusterId t).isActive
    (d, { st.2 with abstractionsBuilt := st.2.abstractionsBuilt + 1
                    triplesExtracted := st.2.triplesExtracted + accepted
                    triplesQuarantined := st.2.triplesQuarantined + (a.triples.length - accepted) })
  | none => (st.1, { st.2 with clustersFailed := st.2.clustersFailed + 1 })

def handleAttachAbstractionBatch (s : Store) (nowMs : Int) (clustersDeferred : Nat) (d : Derived)
    (items : List (ClusterId × SemanticAbstraction)) : Except Error (Derived × AttachReport) :=
  match items.find? fun i => i.2.clusterId ≠ i.1 with
  | some i =>
    .error (.other (s!"AttachAbstractionBatch: cluster_id mismatch on tuple (got {i.1} but " ++
      s!"abstraction.cluster_id is {i.2.clusterId})"))
  | none =>
    .ok ((items.map Prod.snd).foldl (attachCluster s nowMs) (d, ⟨0, 0, 0, 0, clustersDeferred⟩))

end Derived

end Solo
