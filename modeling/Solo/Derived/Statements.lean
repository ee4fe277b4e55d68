import Mathlib.Data.Option.Basic
import Solo.Derived.Schema

/-!
# Statements over the derived tables

One definition for each kind of SQL statement that touches more than one table: the foreign keys it
checks, the deletes that cascade, and the triggers of migration `0017` that keep `evidence_count`
and drop an edge whose last evidence goes. `none` is a failed constraint.
-/

namespace Solo

def EdgeObject.ofKind (kind : ObjectKind) (objectId : String) : EdgeObject :=
  match kind with
  | .entity => .entity objectId
  | .literal => .literal objectId

def EdgeObject.entityId? : EdgeObject → Option EntityId
  | .entity id => some id
  | .literal _ => none

/-- `REFERENCES episodes(rowid)`. -/
def Store.episodeRef (s : Store) (r : Option Rowid) : Bool :=
  r.all fun r => s.episodes.rows.any (·.rowid = r)

namespace Derived

def clusterRef (d : Derived) (c : Option ClusterId) : Bool :=
  c.all fun c => d.clusters.rows.any (·.clusterId = c)

def entityRef (d : Derived) (e : Option EntityId) : Bool :=
  e.all fun e => d.entities.rows.any (·.entityId = e)

def evidenceCount (d : Derived) (id : TripleId) : Nat :=
  d.relationshipEvidence.rows.countP (·.edgeId = id)

/-- `relationship_evidence_after_insert`. -/
def recount (d : Derived) (id : TripleId) : Derived :=
  { d with relationshipEdges :=
      d.relationshipEdges.updateWhere (·.edgeId = id) fun e => { e with evidenceCount := d.evidenceCount id } }

/-- `DELETE FROM relationship_evidence`, with `relationship_evidence_after_delete` for every edge
that lost a row. -/
def deleteEvidence (d : Derived) (p : EvidenceRow → Bool) : Derived :=
  let touched (e : EdgeRow) := d.relationshipEvidence.rows.any fun v => p v && v.edgeId = e.edgeId
  let d := { d with relationshipEvidence := d.relationshipEvidence.deleteWhere p }
  let edges := d.relationshipEdges.updateWhere touched fun e =>
    { e with evidenceCount := d.evidenceCount e.edgeId }
  { d with relationshipEdges := edges.deleteWhere fun e =>
      touched e && !d.relationshipEvidence.rows.any (·.edgeId = e.edgeId) }

/-- `DELETE FROM triples`; the evidence of a triple goes with it. -/
def deleteTriples (d : Derived) (p : TripleRow → Bool) : Derived :=
  let d' := d.deleteEvidence fun v => d.triples.rows.any fun t => p t && t.tripleId = v.tripleId
  { d' with triples := d.triples.deleteWhere p }

/-- `DELETE FROM clusters`; members, abstractions and triples go with them, evidence stays. -/
def deleteClusters (d : Derived) (p : ClusterRow → Bool) : Derived :=
  let gone (c : ClusterId) := d.clusters.rows.any fun r => p r && r.clusterId = c
  let d' := d.deleteTriples fun t => t.clusterId.any gone
  { d' with
    clusters := d'.clusters.deleteWhere p
    clusterEpisodes := d'.clusterEpisodes.deleteWhere fun r => gone r.clusterId
    semanticAbstractions := d'.semanticAbstractions.deleteWhere fun a => gone a.clusterId
    relationshipEvidence := d'.relationshipEvidence.updateWhere (fun v => v.clusterId.any gone) fun v =>
      { v with clusterId := none } }

def insertTriple (s : Store) (d : Derived) (t : TripleRow) : Option Derived := do
  guard (d.clusterRef t.clusterId && s.episodeRef t.sourceEpisodeId)
  let triples ← d.triples.insert? t
  return { d with triples := triples }

def insertAbstraction (d : Derived) (a : AbstractionRow) : Option Derived := do
  guard (d.clusterRef (some a.clusterId))
  let abstractions ← d.semanticAbstractions.insert? a
  return { d with semanticAbstractions := abstractions }

/-- `INSERT INTO relationship_edges ... ON CONFLICT(edge_id) DO UPDATE`. -/
def upsertEdge (d : Derived) (e : EdgeRow) : Option Derived := do
  guard (d.entityRef (some e.subjectEntityId) && d.entityRef e.object.entityId?)
  let edges ← d.relationshipEdges.upsert? e (·.edgeId = e.edgeId) fun old =>
    { e with edgeId := old.edgeId, evidenceCount := old.evidenceCount }
  return { d with relationshipEdges := edges }

/-- `INSERT INTO relationship_evidence ... ON CONFLICT(triple_id) DO UPDATE`; only an insert fires
the trigger. -/
def upsertEvidence (s : Store) (d : Derived) (v : EvidenceRow) : Option Derived := do
  guard (d.relationshipEdges.rows.any (·.edgeId = v.edgeId) &&
    d.triples.rows.any (·.tripleId = v.tripleId) &&
    d.clusterRef v.clusterId && s.episodeRef v.sourceEpisodeId)
  if d.relationshipEvidence.rows.any (·.tripleId = v.tripleId) then
    return { d with relationshipEvidence := d.relationshipEvidence.updateWhere (·.tripleId = v.tripleId) fun old =>
      { v with evidenceId := old.evidenceId, tripleId := old.tripleId, docId := old.docId, chunkId := old.chunkId } }
  else
    let evidence ← d.relationshipEvidence.insert? v
    return { d with relationshipEvidence := evidence }.recount v.edgeId

/-! ### What the statements leave -/

section Spec

variable {s : Store} {d d' : Derived}

theorem insertTriple_eq_some {t : TripleRow} (h : d.insertTriple s t = some d') :
    ∃ triples, d.triples.insert? t = some triples ∧ d' = { d with triples := triples } := by
  simp only [insertTriple, Option.bind_eq_bind, Option.bind_eq_some_iff, Option.pure_def,
    Option.some.injEq] at h
  obtain ⟨-, -, triples, hins, rfl⟩ := h
  exact ⟨triples, hins, rfl⟩

theorem insertAbstraction_eq_some {a : AbstractionRow} (h : d.insertAbstraction a = some d') :
    ∃ abstractions, d.semanticAbstractions.insert? a = some abstractions ∧
      d' = { d with semanticAbstractions := abstractions } := by
  simp only [insertAbstraction, Option.bind_eq_bind, Option.bind_eq_some_iff, Option.pure_def,
    Option.some.injEq] at h
  obtain ⟨-, -, abstractions, hins, rfl⟩ := h
  exact ⟨abstractions, hins, rfl⟩

theorem upsertEdge_eq_some {e : EdgeRow} (h : d.upsertEdge e = some d') :
    ∃ edges, d.relationshipEdges.upsert? e (·.edgeId = e.edgeId)
        (fun old => { e with edgeId := old.edgeId, evidenceCount := old.evidenceCount }) =
        some edges ∧
      d' = { d with relationshipEdges := edges } := by
  simp only [upsertEdge, Option.bind_eq_bind, Option.bind_eq_some_iff, Option.pure_def,
    Option.some.injEq] at h
  obtain ⟨-, -, edges, hups, rfl⟩ := h
  exact ⟨edges, hups, rfl⟩

/-- An evidence upsert either rewrites the row of its triple or inserts one and recounts. -/
theorem upsertEvidence_cases {v : EvidenceRow} (h : d.upsertEvidence s v = some d') :
    (∃ e ∈ d.relationshipEdges, e.edgeId = v.edgeId) ∧
    ((∃ old ∈ d.relationshipEvidence, old.tripleId = v.tripleId) ∧
        d' = { d with relationshipEvidence := d.relationshipEvidence.updateWhere (·.tripleId = v.tripleId) fun old =>
          { v with evidenceId := old.evidenceId, tripleId := old.tripleId, docId := old.docId,
                   chunkId := old.chunkId } } ∨
      (∀ old ∈ d.relationshipEvidence, old.tripleId ≠ v.tripleId) ∧
        ∃ evidence, d.relationshipEvidence.insert? v = some evidence ∧
          d' = { d with relationshipEvidence := evidence }.recount v.edgeId) := by
  simp only [upsertEvidence, Option.bind_eq_bind, Option.bind_eq_some_iff, Option.pure_def,
    Option.guard_eq_some', exists_const] at h
  obtain ⟨href, h⟩ := h
  simp only [Bool.and_eq_true, List.any_eq_true, decide_eq_true_eq] at href
  refine ⟨href.1.1.1, ?_⟩
  split at h
  · next hany =>
    simp only [List.any_eq_true, decide_eq_true_eq] at hany
    exact .inl ⟨hany, (Option.some.inj h).symm⟩
  · next hany =>
    simp only [List.any_eq_true, decide_eq_true_eq, not_exists, not_and] at hany
    obtain ⟨evidence, hins, h⟩ := Option.bind_eq_some_iff.1 h
    exact .inr ⟨hany, evidence, hins, (Option.some.inj h).symm⟩

end Spec

end Derived

end Solo
