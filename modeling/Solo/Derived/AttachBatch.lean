import Solo.Derived.Attach
import Solo.Store.Audit

/-!
# Attaching a batch: faults and audit

`handle_attach_abstraction_batch` with the errors that SQLite can report for it and the audit row
that it emits in the transaction. Without a fault it is `Derived.handleAttachAbstractionBatch`.
-/

namespace Solo

/-- What goes wrong at one cluster, other than a constraint: it is skipped (its provenance does not
serialize, or `SAVEPOINT` fails), one of its statements fails, `RELEASE` fails, or the rollback to
its savepoint does. -/
structure ClusterFault where
  skip : Bool
  statement : Bool
  release : Bool
  rollback : Bool
  deriving DecidableEq

def ClusterFault.none : ClusterFault := ⟨false, false, false, false⟩

/-- What goes wrong in the transaction around the clusters. -/
structure BatchFault where
  begin : Bool
  audit : Bool
  commit : Bool
  deriving DecidableEq

/-- The tables that the command writes. -/
structure DerivedDb where
  derived : Derived
  audit : List AuditEvent

structure AttachBatch where
  items : List (ClusterId × SemanticAbstraction)
  episodeCount : Nat
  durationMs : Nat
  clustersDeferred : Nat
  auditPrincipal : Option String

namespace AttachReport

def fail (r : AttachReport) : AttachReport := { r with clustersFailed := r.clustersFailed + 1 }

/-- The counts of a cluster that was attached. -/
def build (r : AttachReport) (accepted quarantined : Nat) : AttachReport :=
  { r with
    abstractionsBuilt := r.abstractionsBuilt + 1, triplesExtracted := r.triplesExtracted + accepted
    triplesQuarantined := r.triplesQuarantined + quarantined }

end AttachReport

/-- The audit row of a batch. -/
def attachAuditEvent (c : AttachBatch) (nowMs : Int) (report : AttachReport) : AuditEvent where
  tsMs := nowMs
  principalSubject := c.auditPrincipal
  operation := .memoryTriplesExtract
  targetId := none
  result := .ok
  details := some [("episode_count", .num c.episodeCount), ("cluster_count", .num c.items.length),
    ("abstractions_built", .num report.abstractionsBuilt),
    ("triples_extracted", .num report.triplesExtracted),
    ("triples_quarantined", .num report.triplesQuarantined),
    ("clusters_failed", .num report.clustersFailed),
    ("clusters_deferred", .num c.clustersDeferred), ("duration_ms", .num c.durationMs)]

namespace Derived

/-- One cluster of the batch under its faults; an error ends the batch. -/
def attachClusterFaulty (s : Store) (nowMs : Int) (st : Derived × AttachReport)
    (e : ClusterFault × SemanticAbstraction) : Except Error (Derived × AttachReport) :=
  if e.1.skip then .ok (st.1, st.2.fail)
  else
    match if e.1.statement then none else st.1.attachAbstraction s nowMs e.2 with
    | none =>
      if e.1.rollback then .error
        (.storage s!"ROLLBACK TO SAVEPOINT for cluster {e.2.clusterId} failed")
      else .ok (st.1, st.2.fail)
    | some d =>
      -- the result of the rollback after a failed RELEASE is ignored
      if e.1.release then .ok (if e.1.rollback then d else st.1, st.2.fail)
      else
        let accepted := e.2.triples.countP fun t => (evaluateForCluster s e.2.clusterId t).isActive
        .ok (d, st.2.build accepted (e.2.triples.length - accepted))

end Derived

/-- `handle_attach_abstraction_batch`: the reply and the tables. -/
def attachAbstractionBatch (s : Store) (nowMs : Int) (fault : BatchFault)
    (clusterFault : Nat → ClusterFault)
    (c : AttachBatch) (db : DerivedDb) : Except Error AttachReport × DerivedDb :=
  match c.items.find? fun i => i.2.clusterId ≠ i.1 with
  | some i =>
    (.error (.other (s!"AttachAbstractionBatch: cluster_id mismatch on tuple (got {i.1} but " ++
      s!"abstraction.cluster_id is {i.2.clusterId})")), db)
  | none =>
    if fault.begin then (.error (.storage "BEGIN IMMEDIATE for attach_abstraction_batch"), db)
    else
      match ((c.items.map Prod.snd).mapIdx fun i a => (clusterFault i, a)).foldlM
        (Derived.attachClusterFaulty s nowMs)
          (db.derived, ⟨0, 0, 0, 0, c.clustersDeferred⟩) with
      | .error e => (.error e, db)
      | .ok (d, report) =>
        if fault.audit then (.error (.storage "insert audit row"), db)
        else if fault.commit then (.error (.storage "COMMIT attach_abstraction_batch"), db)
        else (.ok report, ⟨d, db.audit ++ [attachAuditEvent c nowMs report]⟩)

namespace Derived

theorem attachClusterFaulty_none (s : Store) (nowMs : Int) (st : Derived × AttachReport)
    (a : SemanticAbstraction) :
    attachClusterFaulty s nowMs st (.none, a) = .ok (attachCluster s nowMs st a) := by
  unfold attachClusterFaulty attachCluster
  cases st.1.attachAbstraction s nowMs a <;>
    simp [ClusterFault.none, AttachReport.fail, AttachReport.build]

theorem foldlM_attachClusterFaulty_none (s : Store) (nowMs : Int) (items : List SemanticAbstraction)
    (st : Derived × AttachReport) :
    (items.map fun a => (ClusterFault.none, a)).foldlM (attachClusterFaulty s nowMs) st =
      .ok (items.foldl (attachCluster s nowMs) st) := by
  induction items generalizing st with
  | nil => rfl
  | cons a items ih =>
    rw [List.map_cons, List.foldlM_cons, attachClusterFaulty_none, List.foldl_cons, ← ih]
    rfl

end Derived

/-- Without a fault the batch is the command of the derived session. -/
theorem attachAbstractionBatch_of_noFault (s : Store) (nowMs : Int) (c : AttachBatch)
    (db : DerivedDb) : attachAbstractionBatch s nowMs ⟨false, false, false⟩ (fun _ => .none) c db =
      match db.derived.handleAttachAbstractionBatch s nowMs c.clustersDeferred c.items with
      | .error e => (.error e, db)
      | .ok (d, report) => (.ok report, ⟨d, db.audit ++ [attachAuditEvent c nowMs report]⟩) := by
  have hitems : (c.items.map Prod.snd).mapIdx (fun _ a => (ClusterFault.none, a)) =
      (c.items.map Prod.snd).map fun a => (ClusterFault.none, a) :=
      List.mapIdx_eq_iff.2 fun i => by simp
  unfold attachAbstractionBatch Derived.handleAttachAbstractionBatch
  cases c.items.find? fun i => i.2.clusterId ≠ i.1 with
  | some i => rfl
  | none =>
    dsimp only
    rw [hitems, Derived.foldlM_attachClusterFaulty_none]
    simp

end Solo
