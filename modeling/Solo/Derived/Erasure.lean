import Mathlib.Data.List.ReduceOption
import Solo.Asset.Store
import Solo.Derived.Mirror
import Solo.Store.Erase

/-!
# Erasure over all tables (`gdpr.rs`, `gdpr_assets.rs`)

The erasure of a principal on the whole database: documents and originals that the principal alone
has a part of are scoped first, and an original that somebody else owns or refers to ends the
command; then the statements, with the cascades of the schema; then the files. `erased_eraseRows`
says of every table that a statement, a cascade or a reference reaches which rows remain. So all
declared references hold afterwards, and the graph still mirrors the triples. What the schema does
not declare is left behind (`resolved_eraseRows_iff`).
-/

namespace Solo

structure DocumentAssetRow where
  linkId : String
  docId : DocumentId
  assetId : String
  relationType : String
  deriving DecidableEq

instance : Keyed DocumentAssetRow where
  clash a b :=
    a.linkId = b.linkId ||
    (a.docId = b.docId && a.assetId = b.assetId && a.relationType = b.relationType)
  clash_comm a b := by simp [eq_comm]

/-- The one of `doc_id` and `asset_id` that is not null. -/
inductive AttachmentTarget
  | document (id : DocumentId)
  | asset (id : String)
  deriving DecidableEq

structure MemoryAttachmentRow where
  attachmentId : String
  memoryId : MemoryId
  target : AttachmentTarget
  relationType : String
  deriving DecidableEq

instance : Keyed MemoryAttachmentRow where
  clash a b := a.attachmentId = b.attachmentId ||
    (a.memoryId = b.memoryId && a.target = b.target && a.relationType = b.relationType)
  clash_comm a b := by simp [eq_comm]

structure MemoryReviewRow where
  memoryId : MemoryId
  deriving DecidableEq

instance : Keyed MemoryReviewRow where
  clash a b := a.memoryId = b.memoryId
  clash_comm a b := by simp [eq_comm]

structure AssetExtractionRow where
  extractionId : String
  assetId : String
  extractorName : String
  extractorVersion : String
  deriving DecidableEq

instance : Keyed AssetExtractionRow where
  clash a b :=
    a.extractionId = b.extractionId ||
    (a.assetId = b.assetId && a.extractorName = b.extractorName &&
    a.extractorVersion = b.extractorVersion)
  clash_comm a b := by simp [eq_comm]

structure EmbedderRow where
  embedderId : Nat
  deriving DecidableEq

instance : Keyed EmbedderRow where
  clash a b := a.embedderId = b.embedderId
  clash_comm a b := by simp [eq_comm]

/-- The tables that refer to others or are referred to, and the files of the originals. -/
structure Database where
  store : Store
  derived : Derived
  originals : AssetStore
  documentAssets : Table DocumentAssetRow
  memoryAttachments : Table MemoryAttachmentRow
  memoryReviews : Table MemoryReviewRow
  assetExtractions : Table AssetExtractionRow
  embedders : Table EmbedderRow

namespace Store

variable {s : Store}

theorem deleteEpisodes_eq_self {p : EpisodeRow → Bool} (h : ∀ e ∈ s.episodes, p e = false) :
    s.deleteEpisodes p = s := by
  have hgone (m : MemoryId) : (s.episodes.rows.any fun e => p e && e.memoryId = m) = false := by
    refine List.any_eq_false.2 fun e he hboth => ?_
    rw [h e he] at hboth
    cases hboth
  unfold deleteEpisodes
  simp only [hgone]
  rw [Table.deleteWhere_eq_self h, Table.deleteWhere_eq_self fun _ _ => rfl,
    Table.deleteWhere_eq_self fun r _ => ?_]
  cases r.target <;> rfl

theorem deleteChunks_eq_self {p : ChunkRow → Bool} (h : ∀ c ∈ s.documentChunks, p c = false) :
    s.deleteChunks p = s := by
  have hgone (id : ChunkId) : (s.documentChunks.rows.any fun c => p c && c.chunkId = id) =
      false := by
    refine List.any_eq_false.2 fun c hc hboth => ?_
    rw [h c hc] at hboth
    cases hboth
  unfold deleteChunks
  simp only [hgone]
  rw [Table.deleteWhere_eq_self h, Table.deleteWhere_eq_self fun _ _ => rfl,
    Table.deleteWhere_eq_self fun r _ => ?_]
  cases r.target <;> rfl

theorem deleteDocuments_eq_self {p : DocumentRow → Bool} (h : ∀ d ∈ s.documents, p d = false) :
    s.deleteDocuments p = s := by
  unfold deleteDocuments
  rw [deleteChunks_eq_self fun c _ => ?_]
  · dsimp only
    rw [Table.deleteWhere_eq_self h]
  · refine List.any_eq_false.2 fun d hd hboth => ?_
    rw [h d hd] at hboth
    cases hboth

end Store

namespace Database

/-! ### The scope -/

section Scope

variable (db : Database) (p : String)

def mine (e : EpisodeRow) : Bool := e.principalSubject = some p

def mineChunk (c : ChunkRow) : Bool := c.ingestedByPrincipal = some p

/-- `IN (SELECT rowid FROM episodes WHERE principal_subject = ?)`. -/
def mineRowid (r : Rowid) : Bool := db.store.episodes.rows.any fun e => mine p e && e.rowid = r

def mineMemory (m : MemoryId) : Bool :=
  db.store.episodes.rows.any fun e => mine p e && e.memoryId = m

/-- `IN (SELECT chunk_id FROM document_chunks WHERE ingested_by_principal = ?)`. -/
def mineChunkId (id : ChunkId) : Bool :=
  db.store.documentChunks.rows.any fun c => mineChunk p c && c.chunkId = id

/-- Attached to a memory of somebody else. -/
def attachedElsewhere (t : AttachmentTarget) : Bool :=
  db.memoryAttachments.rows.any fun ma => ma.target = t &&
    db.store.episodes.rows.any fun e => e.memoryId = ma.memoryId && !mine p e

/-- `solo_forget_docs`. -/
def forgetsDocument (d : DocumentRow) : Bool :=
  (db.store.documentChunks.rows.any (fun c => c.docId = d.docId && mineChunk p c) ||
    db.documentAssets.rows.any fun da => da.docId = d.docId &&
      db.originals.assets.rows.any fun a => a.assetId = da.assetId &&
        a.createdByPrincipal = some p) &&
  !db.store.documentChunks.rows.any (fun c => c.docId = d.docId && !mineChunk p c) &&
  !db.attachedElsewhere p (.document d.docId)

def forgetsDocId (id : DocumentId) : Bool :=
  db.store.documents.rows.any fun d => db.forgetsDocument p d && d.docId = id

/-- `solo_forget_assets`. -/
def forgetsAsset (a : AssetRow) : Bool :=
  a.createdByPrincipal = some p ||
  db.documentAssets.rows.any (fun da => da.assetId = a.assetId && db.forgetsDocId p da.docId) ||
  db.memoryAttachments.rows.any fun ma => ma.target = .asset a.assetId &&
  db.mineMemory p ma.memoryId

def forgetsAssetId (id : String) : Bool :=
  db.originals.assets.rows.any fun a => db.forgetsAsset p a && a.assetId = id

/-- An original in scope is owned or referred to by somebody else. -/
def shared : Bool :=
  db.originals.assets.rows.any fun a => db.forgetsAsset p a &&
    (a.createdByPrincipal.any (· ≠ p) ||
      db.documentAssets.rows.any
      (fun da => da.assetId = a.assetId && !db.forgetsDocId p da.docId) ||
      db.attachedElsewhere p (.asset a.assetId))

/-- `solo_forget_triples`. -/
def forgetsTriple (id : TripleId) : Bool :=
  db.derived.triples.rows.any
    (fun t => t.tripleId = id && t.sourceEpisodeId.any (db.mineRowid p)) ||
  db.derived.relationshipEvidence.rows.any fun v => v.tripleId = id &&
    (v.sourceEpisodeId.any (db.mineRowid p) || v.memoryId.any (db.mineMemory p) ||
      v.chunkId.any (db.mineChunkId p) || v.docId.any (db.forgetsDocId p))

/-- `solo_forget_edges`. -/
def forgetsEdge (id : TripleId) : Bool :=
  db.derived.relationshipEvidence.rows.any fun v => v.edgeId = id && db.forgetsTriple p v.tripleId

end Scope

/-! ### The statements -/

section Statements

variable (db : Database) (p : String)

def forgetsClaim (c : ClaimRow) : Bool :=
  c.sourceEpisodeId.any (db.mineRowid p) || c.chunkId.any (db.mineChunkId p) ||
    c.docId.any (db.forgetsDocId p) || c.tripleId.any (db.forgetsTriple p)

def forgetsReview (r : ReviewRow) : Bool :=
  r.sourceEpisodeId.any (db.mineRowid p) || r.tripleId.any (db.forgetsTriple p)

/-- Claims, reviews and abstractions go before the references of the former are cleared. -/
def deleteDerived (d : Derived) : Derived :=
  { d with
    memoryClaims := d.memoryClaims.deleteWhere (db.forgetsClaim p)
    tripleReviews := d.tripleReviews.deleteWhere (db.forgetsReview p)
    semanticAbstractions := d.semanticAbstractions.deleteWhere fun a =>
      d.clusterEpisodes.rows.any fun m => m.clusterId = a.clusterId && db.mineMemory p m.memoryId }

/-- `DELETE FROM relationship_edges ... AND NOT EXISTS`, then
`UPDATE relationship_edges SET evidence_count`. -/
def dropUnsupported (d : Derived) : Derived :=
  let edges := d.relationshipEdges.deleteWhere fun e =>
    db.forgetsEdge p e.edgeId && !d.relationshipEvidence.rows.any (·.edgeId = e.edgeId)
  { d with relationshipEdges := edges.updateWhere (fun e => db.forgetsEdge p e.edgeId) fun e =>
      { e with evidenceCount := d.evidenceCount e.edgeId } }

/-- What `DELETE FROM episodes` does to the derived tables. -/
def cascadeEpisodes (d : Derived) : Derived :=
  { d with
    clusterEpisodes := d.clusterEpisodes.deleteWhere fun m => db.mineMemory p m.memoryId
    triples := d.triples.updateWhere (fun t => t.sourceEpisodeId.any (db.mineRowid p)) fun t =>
      { t with sourceEpisodeId := none }
    tripleReviews := d.tripleReviews.updateWhere (fun r => r.sourceEpisodeId.any (db.mineRowid p)) fun r =>
      { r with sourceEpisodeId := none }
    memoryClaims := d.memoryClaims.updateWhere (fun c => c.sourceEpisodeId.any (db.mineRowid p)) fun c =>
      { c with sourceEpisodeId := none }
    relationshipEvidence :=
      (d.relationshipEvidence.updateWhere (fun v => v.memoryId.any (db.mineMemory p)) fun v =>
      { v with memoryId := none }).updateWhere (fun v => v.sourceEpisodeId.any (db.mineRowid p)) fun v =>
        { v with sourceEpisodeId := none } }

/-- A chunk that goes, by itself or with its document. -/
def losesChunk (id : ChunkId) : Bool :=
  db.store.documentChunks.rows.any fun c => (mineChunk p c || db.forgetsDocId p c.docId) &&
    c.chunkId = id

/-- What `DELETE FROM document_chunks` and `DELETE FROM documents` do to the derived tables. -/
def cascadeDocuments (d : Derived) : Derived :=
  { d with
    memoryClaims := (d.memoryClaims.updateWhere (fun c => c.chunkId.any (db.losesChunk p)) fun c =>
      { c with chunkId := none }).updateWhere (fun c => c.docId.any (db.forgetsDocId p)) fun c =>
        { c with docId := none }
    relationshipEvidence :=
      (d.relationshipEvidence.updateWhere (fun v => v.chunkId.any (db.losesChunk p)) fun v =>
      { v with chunkId := none }).updateWhere (fun v => v.docId.any (db.forgetsDocId p)) fun v =>
        { v with docId := none } }

def eraseDerived : Derived :=
  let d := db.deleteDerived p db.derived
  let d := d.deleteTriples fun t => db.forgetsTriple p t.tripleId
  db.cascadeDocuments p (db.cascadeEpisodes p (db.dropUnsupported p d))

def eraseStore : Store :=
  ((db.store.deleteEpisodes (mine p)).deleteChunks (mineChunk p)).deleteDocuments
    (db.forgetsDocument p)

def forgetsTarget : AttachmentTarget → Bool
  | .document id => db.forgetsDocId p id
  | .asset id => db.forgetsAssetId p id

/-- The statements of the transaction. -/
def eraseRows : Database where
  store := db.eraseStore p
  derived := db.eraseDerived p
  originals := db.originals.setAssets (db.originals.assets.deleteWhere (db.forgetsAsset p))
  documentAssets := db.documentAssets.deleteWhere fun da => db.forgetsDocId p da.docId ||
    db.forgetsAssetId p da.assetId
  memoryAttachments := db.memoryAttachments.deleteWhere fun ma =>
    db.mineMemory p ma.memoryId || db.forgetsTarget p ma.target
  memoryReviews := db.memoryReviews.deleteWhere fun r => db.mineMemory p r.memoryId
  assetExtractions := db.assetExtractions.deleteWhere fun x => db.forgetsAssetId p x.assetId
  embedders := db.embedders

end Statements

/-! ### The command -/

/-- The file of an original in scope, if it is still there. -/
def checkOriginal (files : BlobPath → Option (List UInt8)) (a : AssetRow) :
    Except Error (Option BlobPath) := do
  safeAssetStoragePath a.storagePath
  if (pathComponents a.storagePath).getLast? ≠ some a.sha256 then
    throw (.storage "principal erasure asset path/hash mismatch")
  return if (files (.final a.storagePath)).isSome then some (.final a.storagePath) else none

def scopedAssets (db : Database) (p : String) : List AssetRow :=
  db.originals.assets.rows.filter (db.forgetsAsset p)

/-- `gdpr_assets::prepare`: the files to remove. -/
def prepare (db : Database) (p : String) : Except Error (List BlobPath) :=
  if db.shared p then
    .error (.invalidInput
      "principal erasure includes an original file owned or referenced by another principal; resolve shared document/attachment ownership before retrying; nothing was erased")
  else return (← (db.scopedAssets p).mapM (checkOriginal db.originals.files)).reduceOption

/-- The loop of `AssetErasure::delete`; `fails` says which removals fail. -/
def removeFiles (fails : BlobPath → Bool) : List BlobPath → AssetStore →
    AssetStore × Except Error Unit
  | [], o => (o, .ok ())
  | b :: bs, o =>
    if (o.files b).isNone then removeFiles fails bs o
    else if fails b then
      (o, .error (.storage "remove principal original: erasure incomplete, retry required"))
    else removeFiles fails bs (o.setFile b none)

def eraseOutcome (db : Database) (p : String) : DeleteOutcome :=
  { episodesDeleted := (db.store.episodes.rows.filter (mine p)).length
    triplesDeleted := (db.derived.triples.rows.filter fun t => db.forgetsTriple p t.tripleId).length
    chunksDeleted := (db.store.documentChunks.rows.filter (mineChunk p)).length
    documentsDeleted := (db.store.documents.rows.filter (db.forgetsDocument p)).length
    assetsDeleted := (db.scopedAssets p).length
    episodeRowids := (db.store.episodes.rows.filter (mine p)).map (·.rowid)
    chunkRowids := (db.store.documentChunks.rows.filter (mineChunk p)).map (·.rowid) }

/-- `delete_principal_rows_with_assets`. Files that were removed before a failure are gone, the
statements are not. -/
def erase (db : Database) (p : String) (fails : BlobPath → Bool) :
    Database × Except Error DeleteOutcome :=
  if Text.isBlank p then (db, .error (.invalidInput "principal subject must not be empty"))
  else
    match db.prepare p with
    | .error e => (db, .error e)
    | .ok paths =>
      match removeFiles fails paths db.originals with
      | (o, .error e) => ({ db with originals := o }, .error e)
      | (o, .ok ()) =>
        ({ db.eraseRows p with originals := o.setAssets (db.eraseRows p).originals.assets },
          .ok (db.eraseOutcome p))

/-! ### What the schema declares -/

/-- The `REFERENCES` clauses of all migrations. -/
structure References (db : Database) : Prop where
  embeddings : ∀ r ∈ db.store.embeddings, ∃ e ∈ db.store.episodes, e.memoryId = r.memoryId
  embeddingEmbedders : ∀ r ∈ db.store.embeddings, ∃ e ∈ db.embedders, e.embedderId = r.embedderId
  chunks : ∀ c ∈ db.store.documentChunks, ∃ d ∈ db.store.documents, d.docId = c.docId
  chunkEmbeddings : ∀ r ∈ db.store.chunkEmbeddings, ∃ c ∈ db.store.documentChunks, c.chunkId =
    r.chunkId
  chunkEmbeddingEmbedders : ∀ r ∈ db.store.chunkEmbeddings, ∃ e ∈ db.embedders, e.embedderId =
    r.embedderId
  pendingEpisodes : ∀ r ∈ db.store.pendingIndex, ∀ m, r.target = .episode m →
    ∃ e ∈ db.store.episodes, e.memoryId = m
  pendingChunks : ∀ r ∈ db.store.pendingIndex, ∀ c, r.target = .chunk c →
    ∃ c' ∈ db.store.documentChunks, c'.chunkId = c
  memberClusters : ∀ m ∈ db.derived.clusterEpisodes, ∃ c ∈ db.derived.clusters, c.clusterId =
    m.clusterId
  memberEpisodes : ∀ m ∈ db.derived.clusterEpisodes, ∃ e ∈ db.store.episodes, e.memoryId =
    m.memoryId
  abstractions : ∀ a ∈ db.derived.semanticAbstractions, ∃ c ∈ db.derived.clusters, c.clusterId =
    a.clusterId
  tripleClusters : ∀ t ∈ db.derived.triples, ∀ id ∈ t.clusterId, ∃ c ∈
    db.derived.clusters, c.clusterId = id
  tripleSources : ∀ t ∈ db.derived.triples, ∀ r ∈ t.sourceEpisodeId, ∃ e ∈
    db.store.episodes, e.rowid = r
  reviewSources : ∀ r ∈ db.derived.tripleReviews, ∀ id ∈ r.sourceEpisodeId, ∃ e ∈
    db.store.episodes, e.rowid = id
  claimSources : ∀ c ∈ db.derived.memoryClaims, ∀ id ∈ c.sourceEpisodeId, ∃ e ∈
    db.store.episodes, e.rowid = id
  claimDocuments : ∀ c ∈ db.derived.memoryClaims, ∀ id ∈ c.docId, ∃ d ∈
    db.store.documents, d.docId = id
  claimChunks : ∀ c ∈ db.derived.memoryClaims, ∀ id ∈ c.chunkId, ∃ k ∈
    db.store.documentChunks, k.chunkId = id
  edgeSubjects : ∀ e ∈ db.derived.relationshipEdges, ∃ n ∈ db.derived.entities, n.entityId =
    e.subjectEntityId
  edgeObjects : ∀ e ∈ db.derived.relationshipEdges, ∀ id ∈ e.object.entityId?, ∃ n ∈
    db.derived.entities, n.entityId = id
  evidenceEdges : ∀ v ∈ db.derived.relationshipEvidence, ∃ e ∈
    db.derived.relationshipEdges, e.edgeId = v.edgeId
  evidenceTriples : ∀ v ∈ db.derived.relationshipEvidence, ∃ t ∈ db.derived.triples, t.tripleId =
    v.tripleId
  evidenceMemories : ∀ v ∈ db.derived.relationshipEvidence, ∀ m ∈ v.memoryId, ∃ e ∈
    db.store.episodes, e.memoryId = m
  evidenceSources : ∀ v ∈ db.derived.relationshipEvidence, ∀ r ∈ v.sourceEpisodeId, ∃ e ∈
    db.store.episodes, e.rowid = r
  evidenceDocuments : ∀ v ∈ db.derived.relationshipEvidence, ∀ id ∈ v.docId, ∃ d ∈
    db.store.documents, d.docId = id
  evidenceChunks : ∀ v ∈ db.derived.relationshipEvidence, ∀ id ∈ v.chunkId,
    ∃ c ∈ db.store.documentChunks, c.chunkId = id
  evidenceClusters : ∀ v ∈ db.derived.relationshipEvidence, ∀ id ∈ v.clusterId, ∃ c ∈
    db.derived.clusters, c.clusterId = id
  assetDocuments : ∀ da ∈ db.documentAssets, ∃ d ∈ db.store.documents, d.docId = da.docId
  documentAssets : ∀ da ∈ db.documentAssets, ∃ a ∈ db.originals.assets, a.assetId = da.assetId
  attachedMemories : ∀ ma ∈ db.memoryAttachments, ∃ e ∈ db.store.episodes, e.memoryId = ma.memoryId
  attachedDocuments : ∀ ma ∈ db.memoryAttachments, ∀ id, ma.target = .document id →
    ∃ d ∈ db.store.documents, d.docId = id
  attachedAssets : ∀ ma ∈ db.memoryAttachments, ∀ id, ma.target = .asset id →
    ∃ a ∈ db.originals.assets, a.assetId = id
  reviewedMemories : ∀ r ∈ db.memoryReviews, ∃ e ∈ db.store.episodes, e.memoryId = r.memoryId
  extractedAssets : ∀ x ∈ db.assetExtractions, ∃ a ∈ db.originals.assets, a.assetId = x.assetId

/-- An outbox row for a memory or a chunk of the principal. -/
def minePending (db : Database) (p : String) : PendingTarget → Bool
  | .episode m => db.mineMemory p m
  | .chunk id => db.mineChunkId p id

/-- What an erasure leaves of every table. -/
structure Erased (p : String) (db db' : Database) : Prop where
  episodes : db'.store.episodes = db.store.episodes.deleteWhere (mine p)
  embeddings : db'.store.embeddings = db.store.embeddings.deleteWhere fun r =>
    db.mineMemory p r.memoryId
  documents : db'.store.documents = db.store.documents.deleteWhere (db.forgetsDocument p)
  chunks : db'.store.documentChunks = db.store.documentChunks.deleteWhere (mineChunk p)
  chunkEmbeddings : db'.store.chunkEmbeddings = db.store.chunkEmbeddings.deleteWhere fun r =>
    db.mineChunkId p r.chunkId
  pending : db'.store.pendingIndex = db.store.pendingIndex.deleteWhere fun r =>
    db.minePending p r.target
  clusters : db'.derived.clusters = db.derived.clusters
  members : db'.derived.clusterEpisodes = db.derived.clusterEpisodes.deleteWhere fun m =>
    db.mineMemory p m.memoryId
  abstractions : db'.derived.semanticAbstractions = db.derived.semanticAbstractions.deleteWhere
    fun a =>
    db.derived.clusterEpisodes.rows.any fun m => m.clusterId = a.clusterId &&
      db.mineMemory p m.memoryId
  triples : db'.derived.triples = db.derived.triples.deleteWhere fun t =>
    db.forgetsTriple p t.tripleId
  contradictions : db'.derived.contradictions = db.derived.contradictions
  reviews : db'.derived.tripleReviews = db.derived.tripleReviews.deleteWhere (db.forgetsReview p)
  entities : db'.derived.entities = db.derived.entities
  edges : db'.derived.relationshipEdges =
    (db.derived.deleteEvidence fun v => db.forgetsTriple p v.tripleId).relationshipEdges
  evidence : db'.derived.relationshipEvidence =
    db.derived.relationshipEvidence.deleteWhere fun v => db.forgetsTriple p v.tripleId
  claims : db'.derived.memoryClaims = db.derived.memoryClaims.deleteWhere (db.forgetsClaim p)
  assets : db'.originals.assets = db.originals.assets.deleteWhere (db.forgetsAsset p)
  documentAssets : db'.documentAssets = db.documentAssets.deleteWhere fun da =>
    db.forgetsDocId p da.docId || db.forgetsAssetId p da.assetId
  attachments : db'.memoryAttachments = db.memoryAttachments.deleteWhere fun ma =>
    db.mineMemory p ma.memoryId || db.forgetsTarget p ma.target
  memoryReviews : db'.memoryReviews = db.memoryReviews.deleteWhere fun r =>
    db.mineMemory p r.memoryId
  extractions : db'.assetExtractions = db.assetExtractions.deleteWhere fun x =>
    db.forgetsAssetId p x.assetId
  embedders : db'.embedders = db.embedders

section Spec

variable {db : Database} {p : String}

theorem mineRowid_eq_true {r : Rowid} :
    db.mineRowid p r = true ↔ ∃ e ∈ db.store.episodes, e.principalSubject = some p ∧
    e.rowid = r := by
  simp only [mineRowid, mine, List.any_eq_true, Bool.and_eq_true, decide_eq_true_eq, Table.mem_rows]

theorem mineMemory_eq_true {m : MemoryId} :
    db.mineMemory p m = true ↔ ∃ e ∈ db.store.episodes, e.principalSubject = some p ∧
    e.memoryId = m := by
  simp only [mineMemory, mine, List.any_eq_true, Bool.and_eq_true, decide_eq_true_eq,
    Table.mem_rows]

/-- Nothing that the evidence comes from is in scope. -/
structure SparesEvidence (db : Database) (p : String) (v : EvidenceRow) : Prop where
  source : v.sourceEpisodeId.any (db.mineRowid p) = false
  memory : v.memoryId.any (db.mineMemory p) = false
  chunk : v.chunkId.any (db.mineChunkId p) = false
  document : v.docId.any (db.forgetsDocId p) = false

/-- A triple in scope is one with a source or evidence of the principal. -/
theorem forgetsTriple_eq_false {id : TripleId} (h : db.forgetsTriple p id = false) :
    (∀ t ∈ db.derived.triples, t.tripleId = id → t.sourceEpisodeId.any (db.mineRowid p) = false) ∧
      ∀ v ∈ db.derived.relationshipEvidence, v.tripleId = id → db.SparesEvidence p v := by
  obtain ⟨htriples, hevidence⟩ := Bool.or_eq_false_iff.1 h
  constructor
  · intro t ht hid
    have hnot := List.any_eq_false.1 htriples t ht
    rw [decide_eq_true hid, Bool.true_and] at hnot
    exact Bool.eq_false_iff.2 hnot
  · intro v hv hid
    have hnot := List.any_eq_false.1 hevidence v hv
    rw [decide_eq_true hid, Bool.true_and, Bool.not_eq_true, Bool.or_eq_false_iff,
      Bool.or_eq_false_iff, Bool.or_eq_false_iff] at hnot
    obtain ⟨⟨⟨hsource, hmemory⟩, hchunk⟩, hdocument⟩ := hnot
    exact ⟨hsource, hmemory, hchunk, hdocument⟩

/-- Nothing that the claim comes from is in scope. -/
structure SparesClaim (db : Database) (p : String) (c : ClaimRow) : Prop where
  source : c.sourceEpisodeId.any (db.mineRowid p) = false
  chunk : c.chunkId.any (db.mineChunkId p) = false
  document : c.docId.any (db.forgetsDocId p) = false

theorem forgetsClaim_eq_false {c : ClaimRow} (h : db.forgetsClaim p c = false) :
    db.SparesClaim p c := by
  obtain ⟨h, -⟩ := Bool.or_eq_false_iff.1 h
  obtain ⟨h, hdocument⟩ := Bool.or_eq_false_iff.1 h
  obtain ⟨hsource, hchunk⟩ := Bool.or_eq_false_iff.1 h
  exact ⟨hsource, hchunk, hdocument⟩

theorem mem_claims_kept {c : ClaimRow}
    (hc : c ∈ db.derived.memoryClaims.deleteWhere (db.forgetsClaim p)) :
    c ∈ db.derived.memoryClaims ∧ db.SparesClaim p c := by
  obtain ⟨hc, hkept⟩ := Table.mem_deleteWhere.1 hc
  exact ⟨hc, forgetsClaim_eq_false hkept⟩

theorem mem_evidence_kept {v : EvidenceRow}
    (hv : v ∈ db.derived.relationshipEvidence.deleteWhere fun v => db.forgetsTriple p v.tripleId) :
    v ∈ db.derived.relationshipEvidence ∧ db.SparesEvidence p v := by
  obtain ⟨hv, hkept⟩ := Table.mem_deleteWhere.1 hv
  exact ⟨hv, (forgetsTriple_eq_false hkept).2 v hv rfl⟩

/-- A document with a chunk of somebody else stays. -/
theorem not_forgetsDocument {d : DocumentRow} {c : ChunkRow} (hc : c ∈ db.store.documentChunks)
    (hmine : mineChunk p c = false) (hid : d.docId = c.docId) :
    ¬ db.forgetsDocument p d = true := by
  intro hforgets
  have hothers := (Bool.and_eq_true_iff.1 (Bool.and_eq_true_iff.1 hforgets).1).2
  rw [Bool.not_eq_true', List.any_eq_false] at hothers
  refine hothers c hc ?_
  rw [hmine, decide_eq_true hid.symm]
  rfl

/-- No chunk goes with its document only. -/
theorem losesChunk_eq : db.losesChunk p = db.mineChunkId p := by
  funext id
  unfold losesChunk mineChunkId
  rw [Bool.eq_iff_iff, List.any_eq_true, List.any_eq_true]
  refine exists_congr fun c => and_congr_right fun hc => ?_
  cases hmine : mineChunk p c with
  | true => rfl
  | false =>
    have hdoc : db.forgetsDocId p c.docId = false := by
      refine List.any_eq_false.2 fun d _ hd => ?_
      rw [Bool.and_eq_true, decide_eq_true_eq] at hd
      exact not_forgetsDocument hc hmine hd.2 hd.1
    rw [hdoc, Bool.or_false]

theorem deleteEvidence_congr {d d' : Derived} {f g : EvidenceRow → Bool}
    (hevidence : d'.relationshipEvidence = d.relationshipEvidence)
    (hedges : d'.relationshipEdges = d.relationshipEdges)
    (h : ∀ v ∈ d.relationshipEvidence, f v = g v) :
    (d'.deleteEvidence f).relationshipEvidence = (d.deleteEvidence g).relationshipEvidence ∧
      (d'.deleteEvidence f).relationshipEdges = (d.deleteEvidence g).relationshipEdges := by
  have htouched (id : TripleId) : (d.relationshipEvidence.rows.any fun v => f v && v.edgeId = id) =
      d.relationshipEvidence.rows.any fun v => g v && v.edgeId = id := by
    rw [Bool.eq_iff_iff, List.any_eq_true, List.any_eq_true]
    refine exists_congr fun v => and_congr_right fun hv => ?_
    rw [h v hv]
  have hrows := Table.deleteWhere_congr h
  unfold Derived.deleteEvidence Derived.evidenceCount
  dsimp only
  rw [hevidence, hedges, hrows]
  refine ⟨rfl, ?_⟩
  simp only [htouched]

/-- The evidence of the triples in scope. -/
theorem deleteTriples_forgets (hrefs : References db) {d : Derived}
    (htriples : d.triples = db.derived.triples)
    (hevidence : d.relationshipEvidence = db.derived.relationshipEvidence)
    (hedges : d.relationshipEdges = db.derived.relationshipEdges) :
    (d.deleteTriples fun t => db.forgetsTriple p t.tripleId).relationshipEvidence =
        db.derived.relationshipEvidence.deleteWhere (fun v => db.forgetsTriple p v.tripleId) ∧
      (d.deleteTriples fun t => db.forgetsTriple p t.tripleId).relationshipEdges =
        (db.derived.deleteEvidence fun v => db.forgetsTriple p v.tripleId).relationshipEdges := by
  refine deleteEvidence_congr hevidence hedges fun v hv => ?_
  rw [htriples, Bool.eq_iff_iff, List.any_eq_true]
  constructor
  · rintro ⟨t, -, hboth⟩
    rw [Bool.and_eq_true, decide_eq_true_eq] at hboth
    rw [← hboth.2]
    exact hboth.1
  · intro hforgets
    obtain ⟨t, ht, hid⟩ := hrefs.evidenceTriples v hv
    rw [← hid] at hforgets
    exact ⟨t, ht, Bool.and_eq_true_iff.2 ⟨hforgets, decide_eq_true hid⟩⟩

/-- The triggers have done what the statements on the edges do. -/
theorem dropUnsupported_eq_self {d : Derived}
    (hevidence : d.relationshipEvidence = db.derived.relationshipEvidence.deleteWhere fun v =>
      db.forgetsTriple p v.tripleId)
    (hedges :
      d.relationshipEdges =
        (db.derived.deleteEvidence fun v => db.forgetsTriple p v.tripleId).relationshipEdges) :
    db.dropUnsupported p d = d := by
  have hloses {id : TripleId} (h : db.forgetsEdge p id = true) :
      db.derived.LosesEvidence (fun v => db.forgetsTriple p v.tripleId) id := by
    obtain ⟨v, hv, hboth⟩ := List.any_eq_true.1 h
    rw [Bool.and_eq_true, decide_eq_true_eq] at hboth
    exact ⟨v, hv, hboth.2, hboth.1⟩
  have hdelete : (d.relationshipEdges.deleteWhere fun e =>
      db.forgetsEdge p e.edgeId && !d.relationshipEvidence.rows.any (·.edgeId = e.edgeId)) =
        d.relationshipEdges := by
    refine Table.deleteWhere_eq_self fun e he => ?_
    rw [hedges] at he
    obtain ⟨e₀, -, ⟨-, rfl, v, hv, hid⟩ | ⟨hnot, rfl⟩⟩ := Derived.mem_deleteEvidence he
    · have hany : d.relationshipEvidence.rows.any (·.edgeId = e₀.edgeId) = true := by
        rw [hevidence]
        exact List.any_eq_true.2 ⟨v, hv, decide_eq_true hid⟩
      rw [hany, Bool.not_true, Bool.and_false]
    · rw [Bool.eq_false_iff.2 fun h => hnot (hloses h), Bool.false_and]
  unfold dropUnsupported
  dsimp only
  rw [hdelete, Table.updateWhere_eq_self _]
  intro e he hforgets
  rw [hedges] at he
  obtain ⟨e₀, -, ⟨-, rfl, -⟩ | ⟨hnot, rfl⟩⟩ := Derived.mem_deleteEvidence he
  · have hcount : d.evidenceCount e₀.edgeId =
        (db.derived.deleteEvidence fun v => db.forgetsTriple p v.tripleId).evidenceCount
        e₀.edgeId := by
      unfold Derived.evidenceCount
      rw [hevidence]
      rfl
    rw [← hcount]
  · exact absurd (hloses hforgets) hnot

theorem deleteDocuments_spared {s : Store} {f : DocumentRow → Bool}
    (h : ∀ c ∈ s.documentChunks, ∀ d ∈ s.documents, f d = true → d.docId ≠ c.docId) :
    s.deleteDocuments f = { s with documents := s.documents.deleteWhere f } := by
  unfold Store.deleteDocuments
  rw [Store.deleteChunks_eq_self fun c hc => ?_]
  refine List.any_eq_false.2 fun d hd hboth => ?_
  rw [Bool.and_eq_true, decide_eq_true_eq] at hboth
  exact h c hc d hd hboth.1 hboth.2

/-- The documents in scope have no chunks left when they go. -/
theorem eraseStore_eq : db.eraseStore p =
    { (db.store.deleteEpisodes (mine p)).deleteChunks (mineChunk p) with
      documents := db.store.documents.deleteWhere (db.forgetsDocument p) } := by
  refine deleteDocuments_spared fun c hc d _ hd hid => ?_
  obtain ⟨hc, hmine⟩ := Table.mem_deleteWhere.1 hc
  exact not_forgetsDocument hc hmine hid hd

theorem eraseStore_pendingIndex :
    (db.eraseStore p).pendingIndex = db.store.pendingIndex.deleteWhere fun r =>
    db.minePending p r.target := by
  rw [eraseStore_eq]
  refine (Table.deleteWhere_deleteWhere ..).trans (Table.deleteWhere_congr fun r _ => ?_)
  cases r.target with
  | episode m => exact Bool.or_false _
  | chunk id => rfl

/-- Claims and evidence that are left keep the episodes they name. -/
theorem cascadeEpisodes_spared {d : Derived}
    (hclaims : d.memoryClaims = db.derived.memoryClaims.deleteWhere (db.forgetsClaim p))
    (hevidence : d.relationshipEvidence =
      db.derived.relationshipEvidence.deleteWhere fun v => db.forgetsTriple p v.tripleId) :
    (db.cascadeEpisodes p d).memoryClaims = db.derived.memoryClaims.deleteWhere
    (db.forgetsClaim p) ∧
      (db.cascadeEpisodes p d).relationshipEvidence =
        db.derived.relationshipEvidence.deleteWhere fun v => db.forgetsTriple p v.tripleId := by
  have hspares (v : EvidenceRow) (hv : v ∈ d.relationshipEvidence) : db.SparesEvidence p v := by
    rw [hevidence] at hv
    exact (mem_evidence_kept hv).2
  constructor
  · rw [← hclaims]
    refine Table.updateWhere_eq_self (ρ := ClaimRow) ?_ fun c hc hmine => ?_
    · exact fun _ _ => rfl
    · rw [hclaims] at hc
      rw [(mem_claims_kept hc).2.source] at hmine
      cases hmine
  · rw [← hevidence]
    have hclear :
        (d.relationshipEvidence.updateWhere (fun v => v.memoryId.any (db.mineMemory p)) fun v =>
        { v with memoryId := none }) = d.relationshipEvidence :=
      Table.updateWhere_eq_self _ fun v hv hmine => by
        rw [(hspares v hv).memory] at hmine
        cases hmine
    unfold cascadeEpisodes
    dsimp only
    rw [hclear]
    refine Table.updateWhere_eq_self _ fun v hv hmine => ?_
    rw [(hspares v hv).source] at hmine
    cases hmine

/-- Claims and evidence that name nothing in scope keep their columns. -/
theorem cascadeDocuments_eq_self {d : Derived} (hclaims : ∀ c ∈ d.memoryClaims, db.SparesClaim p c)
    (hevidence : ∀ v ∈ d.relationshipEvidence, db.SparesEvidence p v) :
    db.cascadeDocuments p d = d := by
  have hspared {α : Type} {f : α → Bool} {o : Option α} (h : o.any f = false)
      (hany : o.any f = true) : False := by
    rw [h] at hany
    cases hany
  have hc₁ : (d.memoryClaims.updateWhere (fun c => c.chunkId.any (db.mineChunkId p)) fun c =>
      { c with chunkId := none }) = d.memoryClaims :=
    Table.updateWhere_eq_self _ fun c hc hmine => (hspared (hclaims c hc).chunk hmine).elim
  have hv₁ :
      (d.relationshipEvidence.updateWhere (fun v => v.chunkId.any (db.mineChunkId p)) fun v =>
      { v with chunkId := none }) = d.relationshipEvidence :=
    Table.updateWhere_eq_self _ fun v hv hmine => (hspared (hevidence v hv).chunk hmine).elim
  unfold cascadeDocuments
  rw [losesChunk_eq, hc₁, hv₁,
    Table.updateWhere_eq_self _ fun c hc hmine => (hspared (hclaims c hc).document hmine).elim,
    Table.updateWhere_eq_self _ fun v hv hmine => (hspared (hevidence v hv).document hmine).elim]

/-- No row that is left refers to a row of the principal, so nothing is left to clear. -/
theorem erased_eraseRows (hrefs : References db) : Erased p db (db.eraseRows p) := by
  obtain ⟨hevidence, hedges⟩ := deleteTriples_forgets (p := p) hrefs
    (d := db.deleteDerived p db.derived) rfl rfl rfl
  have hdrop := dropUnsupported_eq_self hevidence hedges
  have hderived : (db.eraseRows p).derived = db.cascadeDocuments p (db.cascadeEpisodes p
      ((db.deleteDerived p db.derived).deleteTriples fun t => db.forgetsTriple p t.tripleId)) :=
    congrArg (fun d => db.cascadeDocuments p (db.cascadeEpisodes p d)) hdrop
  obtain ⟨hclaims, hrows⟩ := cascadeEpisodes_spared (p := p)
    (d := (db.deleteDerived p db.derived).deleteTriples fun t => db.forgetsTriple p t.tripleId)
    rfl hevidence
  rw [cascadeDocuments_eq_self (fun c hc => ?_) fun v hv => ?_] at hderived
  · refine ⟨rfl, rfl,
      rfl, by rw [eraseRows, eraseStore_eq]; rfl, by rw [eraseRows, eraseStore_eq]; rfl,
      eraseStore_pendingIndex, ?_, ?_, ?_, ?_, ?_, ?_, ?_, ?_, ?_, ?_, rfl, rfl, rfl, rfl, rfl, rfl⟩
    all_goals rw [hderived]
    · rfl
    · rfl
    · rfl
    · refine Table.updateWhere_eq_self (ρ := TripleRow) ?_ fun t ht hmine => ?_
      · exact fun _ _ => rfl
      · obtain ⟨ht, hkept⟩ := Table.mem_deleteWhere.1 ht
        rw [(forgetsTriple_eq_false hkept).1 t ht rfl] at hmine
        cases hmine
    · rfl
    · refine Table.updateWhere_eq_self (ρ := ReviewRow) ?_ fun r hr hmine => ?_
      · exact fun _ _ => rfl
      · rw [(Bool.or_eq_false_iff.1 (Table.mem_deleteWhere.1 hr).2).1] at hmine
        cases hmine
    · rfl
    · exact hedges
    · exact hrows
    · exact hclaims
  · rw [hclaims] at hc
    exact (mem_claims_kept hc).2
  · rw [hrows] at hv
    exact (mem_evidence_kept hv).2

/-! A reference to a row that is not in scope holds afterwards. -/

theorem kept_episode {m : MemoryId} (h : ∃ e ∈ db.store.episodes, e.memoryId = m)
    (hmine : db.mineMemory p m = false) : ∃ e ∈ (db.eraseRows p).store.episodes, e.memoryId = m :=
  Table.exists_mem_deleteWhere h hmine

theorem kept_source {o : Option Rowid} (h : ∀ r ∈ o, ∃ e ∈ db.store.episodes, e.rowid = r)
    (hmine : o.any (db.mineRowid p) = false) :
    ∀ r ∈ o, ∃ e ∈ (db.eraseRows p).store.episodes, e.rowid = r := fun r hr =>
  Table.exists_mem_deleteWhere (h r hr) ((Option.any_eq_false _ _).1 hmine r hr)

theorem kept_chunk {id : ChunkId} (h : ∃ c ∈ db.store.documentChunks, c.chunkId = id)
    (hmine : db.mineChunkId p id = false) :
    ∃ c ∈ (db.eraseRows p).store.documentChunks, c.chunkId = id := by
  have hchunks : (db.eraseRows p).store.documentChunks =
      db.store.documentChunks.deleteWhere (mineChunk p) := by
    rw [eraseRows, eraseStore_eq]
    rfl
  rw [hchunks]
  exact Table.exists_mem_deleteWhere h hmine

theorem kept_document {id : DocumentId} (h : ∃ d ∈ db.store.documents, d.docId = id)
    (hkept : db.forgetsDocId p id = false) :
    ∃ d ∈ (db.eraseRows p).store.documents, d.docId = id :=
  Table.exists_mem_deleteWhere h hkept

theorem kept_asset {id : String} (h : ∃ a ∈ db.originals.assets, a.assetId = id)
    (hkept : db.forgetsAssetId p id = false) :
    ∃ a ∈ (db.eraseRows p).originals.assets, a.assetId = id :=
  Table.exists_mem_deleteWhere h hkept

theorem Erased.mem_claims {db' : Database} (h : Erased p db db') {c : ClaimRow}
    (hc : c ∈ db'.derived.memoryClaims) : c ∈ db.derived.memoryClaims ∧ db.SparesClaim p c := by
  rw [h.claims] at hc
  exact mem_claims_kept hc

theorem Erased.mem_evidence {db' : Database} (h : Erased p db db') {v : EvidenceRow}
    (hv : v ∈ db'.derived.relationshipEvidence) :
    v ∈ db.derived.relationshipEvidence ∧ db.SparesEvidence p v := by
  rw [h.evidence] at hv
  exact mem_evidence_kept hv

/-- An edge that is left connects what it connected. -/
theorem Erased.mem_edges {db' : Database} (h : Erased p db db') {e : EdgeRow}
    (he : e ∈ db'.derived.relationshipEdges) :
    ∃ e₀ ∈ db.derived.relationshipEdges, e.subjectEntityId = e₀.subjectEntityId ∧
      e.object = e₀.object := by
  rw [h.edges] at he
  obtain ⟨e₀, he₀, ⟨-, rfl, -⟩ | ⟨-, rfl⟩⟩ := Derived.mem_deleteEvidence he
  · exact ⟨e₀, he₀, rfl, rfl⟩
  · exact ⟨e, he₀, rfl, rfl⟩

/-- Every declared reference holds as before. -/
theorem references_eraseRows (h : References db) : References (db.eraseRows p) := by
  have herased := erased_eraseRows (p := p) h
  constructor
  case embeddings =>
    intro r hr
    obtain ⟨hr, hmine⟩ := Table.mem_deleteWhere.1 hr
    exact kept_episode (h.embeddings r hr) hmine
  case embeddingEmbedders =>
    intro r hr
    obtain ⟨hr, -⟩ := Table.mem_deleteWhere.1 hr
    exact h.embeddingEmbedders r hr
  case chunks =>
    intro c hc
    rw [herased.chunks] at hc
    obtain ⟨hc, hmine⟩ := Table.mem_deleteWhere.1 hc
    refine kept_document (h.chunks c hc) (List.any_eq_false.2 fun d hd hboth => ?_)
    rw [Bool.and_eq_true, decide_eq_true_eq] at hboth
    exact not_forgetsDocument hc hmine hboth.2 hboth.1
  case chunkEmbeddings =>
    intro r hr
    rw [herased.chunkEmbeddings] at hr
    obtain ⟨hr, hmine⟩ := Table.mem_deleteWhere.1 hr
    exact kept_chunk (h.chunkEmbeddings r hr) hmine
  case chunkEmbeddingEmbedders =>
    intro r hr
    rw [herased.chunkEmbeddings] at hr
    obtain ⟨hr, -⟩ := Table.mem_deleteWhere.1 hr
    exact h.chunkEmbeddingEmbedders r hr
  case pendingEpisodes =>
    intro r hr m hm
    rw [herased.pending] at hr
    obtain ⟨hr, hmine⟩ := Table.mem_deleteWhere.1 hr
    rw [hm] at hmine
    exact kept_episode (h.pendingEpisodes r hr m hm) hmine
  case pendingChunks =>
    intro r hr id hid
    rw [herased.pending] at hr
    obtain ⟨hr, hmine⟩ := Table.mem_deleteWhere.1 hr
    rw [hid] at hmine
    exact kept_chunk (h.pendingChunks r hr id hid) hmine
  case memberClusters =>
    intro m hm
    rw [herased.members] at hm
    rw [herased.clusters]
    exact h.memberClusters m (Table.mem_deleteWhere.1 hm).1
  case memberEpisodes =>
    intro m hm
    rw [herased.members] at hm
    obtain ⟨hm, hmine⟩ := Table.mem_deleteWhere.1 hm
    exact kept_episode (h.memberEpisodes m hm) hmine
  case abstractions =>
    intro a ha
    rw [herased.abstractions] at ha
    rw [herased.clusters]
    exact h.abstractions a (Table.mem_deleteWhere.1 ha).1
  case tripleClusters =>
    intro t ht id hid
    rw [herased.triples] at ht
    rw [herased.clusters]
    exact h.tripleClusters t (Table.mem_deleteWhere.1 ht).1 id hid
  case tripleSources =>
    intro t ht
    rw [herased.triples] at ht
    obtain ⟨ht, hkept⟩ := Table.mem_deleteWhere.1 ht
    exact kept_source (h.tripleSources t ht) ((forgetsTriple_eq_false hkept).1 t ht rfl)
  case reviewSources =>
    intro r hr
    rw [herased.reviews] at hr
    obtain ⟨hr, hkept⟩ := Table.mem_deleteWhere.1 hr
    exact kept_source (h.reviewSources r hr) (Bool.or_eq_false_iff.1 hkept).1
  case claimSources =>
    intro c hc
    obtain ⟨hc, hspared⟩ := herased.mem_claims hc
    exact kept_source (h.claimSources c hc) hspared.source
  case claimDocuments =>
    intro c hc id hid
    obtain ⟨hc, hspared⟩ := herased.mem_claims hc
    exact kept_document (h.claimDocuments c hc id hid)
      ((Option.any_eq_false _ _).1 hspared.document id hid)
  case claimChunks =>
    intro c hc id hid
    obtain ⟨hc, hspared⟩ := herased.mem_claims hc
    exact kept_chunk (h.claimChunks c hc id hid) ((Option.any_eq_false _ _).1 hspared.chunk id hid)
  case edgeSubjects =>
    intro e he
    obtain ⟨e₀, he₀, hsubject, -⟩ := herased.mem_edges he
    rw [herased.entities, hsubject]
    exact h.edgeSubjects e₀ he₀
  case edgeObjects =>
    intro e he
    obtain ⟨e₀, he₀, -, hobject⟩ := herased.mem_edges he
    rw [herased.entities, hobject]
    exact h.edgeObjects e₀ he₀
  case evidenceEdges =>
    intro v hv
    rw [herased.evidence] at hv
    rw [herased.edges]
    obtain ⟨hv, hkept⟩ := Table.mem_deleteWhere.1 hv
    obtain ⟨e, he, hid⟩ := h.evidenceEdges v hv
    rw [← hid]
    exact Derived.mem_deleteEvidence_of_kept he hv hkept hid.symm
  case evidenceTriples =>
    intro v hv
    rw [herased.evidence] at hv
    rw [herased.triples]
    obtain ⟨hv, hkept⟩ := Table.mem_deleteWhere.1 hv
    obtain ⟨t, ht, hid⟩ := h.evidenceTriples v hv
    exact ⟨t, Table.mem_deleteWhere.2 ⟨ht, by rw [hid]; exact hkept⟩, hid⟩
  case evidenceMemories =>
    intro v hv m hm
    obtain ⟨hv, hspared⟩ := herased.mem_evidence hv
    exact kept_episode (h.evidenceMemories v hv m hm)
      ((Option.any_eq_false _ _).1 hspared.memory m hm)
  case evidenceSources =>
    intro v hv
    obtain ⟨hv, hspared⟩ := herased.mem_evidence hv
    exact kept_source (h.evidenceSources v hv) hspared.source
  case evidenceDocuments =>
    intro v hv id hid
    obtain ⟨hv, hspared⟩ := herased.mem_evidence hv
    exact kept_document (h.evidenceDocuments v hv id hid)
      ((Option.any_eq_false _ _).1 hspared.document id hid)
  case evidenceChunks =>
    intro v hv id hid
    obtain ⟨hv, hspared⟩ := herased.mem_evidence hv
    exact kept_chunk (h.evidenceChunks v hv id hid)
      ((Option.any_eq_false _ _).1 hspared.chunk id hid)
  case evidenceClusters =>
    intro v hv
    rw [herased.clusters]
    exact h.evidenceClusters v (herased.mem_evidence hv).1
  case assetDocuments =>
    intro da hda
    obtain ⟨hda, hkept⟩ := Table.mem_deleteWhere.1 hda
    exact kept_document (h.assetDocuments da hda) (Bool.or_eq_false_iff.1 hkept).1
  case documentAssets =>
    intro da hda
    obtain ⟨hda, hkept⟩ := Table.mem_deleteWhere.1 hda
    exact kept_asset (h.documentAssets da hda) (Bool.or_eq_false_iff.1 hkept).2
  case attachedMemories =>
    intro ma hma
    obtain ⟨hma, hkept⟩ := Table.mem_deleteWhere.1 hma
    exact kept_episode (h.attachedMemories ma hma) (Bool.or_eq_false_iff.1 hkept).1
  case attachedDocuments =>
    intro ma hma id hid
    obtain ⟨hma, hkept⟩ := Table.mem_deleteWhere.1 hma
    have htarget := (Bool.or_eq_false_iff.1 hkept).2
    rw [hid] at htarget
    exact kept_document (h.attachedDocuments ma hma id hid) htarget
  case attachedAssets =>
    intro ma hma id hid
    obtain ⟨hma, hkept⟩ := Table.mem_deleteWhere.1 hma
    have htarget := (Bool.or_eq_false_iff.1 hkept).2
    rw [hid] at htarget
    exact kept_asset (h.attachedAssets ma hma id hid) htarget
  case reviewedMemories =>
    intro r hr
    obtain ⟨hr, hmine⟩ := Table.mem_deleteWhere.1 hr
    exact kept_episode (h.reviewedMemories r hr) hmine
  case extractedAssets =>
    intro x hx
    obtain ⟨hx, hkept⟩ := Table.mem_deleteWhere.1 hx
    exact kept_asset (h.extractedAssets x hx) hkept

/-- The graph mirrors the triples as before. -/
theorem mirror_eraseRows (hrefs : References db) (h : Mirror db.derived) :
    Mirror (db.eraseRows p).derived := by
  have herased := erased_eraseRows (p := p) hrefs
  obtain ⟨hevidence, hedges⟩ := deleteTriples_forgets (p := p) hrefs (d := db.derived) rfl rfl rfl
  refine (h.deleteTriples fun t => db.forgetsTriple p t.tripleId).congr herased.triples ?_ ?_
  · rw [herased.edges, hedges]
  · rw [herased.evidence, hevidence]

/-! ### What the schema does not declare -/

/-- References that no `REFERENCES` clause stands for, and a member of every cluster. -/
structure Resolved (db : Database) : Prop where
  contradictions : ∀ x ∈ db.derived.contradictions,
    (∃ t ∈ db.derived.triples, t.tripleId = x.aMemoryId) ∧ ∃ t ∈ db.derived.triples, t.tripleId =
    x.bMemoryId
  claimReviews : ∀ c ∈ db.derived.memoryClaims, ∀ id ∈ c.reviewId, ∃ r ∈
    db.derived.tripleReviews, r.reviewId = id
  members : ∀ k ∈ db.derived.clusters, ∃ m ∈ db.derived.clusterEpisodes, m.clusterId = k.clusterId

/-- What the erasure has to find for these to hold afterwards. -/
structure Separate (p : String) (db : Database) : Prop where
  contradictions : ∀ x ∈ db.derived.contradictions,
    db.forgetsTriple p x.aMemoryId = false ∧ db.forgetsTriple p x.bMemoryId = false
  claimReviews : ∀ c ∈ db.derived.memoryClaims, db.forgetsClaim p c = false →
    ∀ r ∈ db.derived.tripleReviews, c.reviewId = some r.reviewId → db.forgetsReview p r = false
  members : ∀ k ∈ db.derived.clusters, ∃ m ∈ db.derived.clusterEpisodes,
    m.clusterId = k.clusterId ∧ db.mineMemory p m.memoryId = false

/-- Contradictions of an erased triple, claims of an erased review and clusters of erased members
stay behind. -/
theorem resolved_eraseRows_iff (hrefs : References db) (h : Resolved db) :
    Resolved (db.eraseRows p) ↔ Separate p db := by
  have herased := erased_eraseRows (p := p) hrefs
  have htriple {id : TripleId} (hid : ∃ t ∈ db.derived.triples, t.tripleId = id) :
      (∃ t ∈ (db.eraseRows p).derived.triples, t.tripleId = id) ↔
      db.forgetsTriple p id = false := by
    rw [herased.triples]
    constructor
    · rintro ⟨t, ht, rfl⟩
      exact (Table.mem_deleteWhere.1 ht).2
    · intro hkept
      obtain ⟨t, ht, rfl⟩ := hid
      exact ⟨t, Table.mem_deleteWhere.2 ⟨ht, hkept⟩, rfl⟩
  constructor
  · rintro ⟨hcontradictions, hclaims, hmembers⟩
    refine ⟨fun x hx => ?_, fun c hc hkept r hr hid => ?_, fun k hk => ?_⟩
    · have hx' := hx
      rw [← herased.contradictions] at hx'
      obtain ⟨ha, hb⟩ := hcontradictions x hx'
      exact ⟨(htriple (h.contradictions x hx).1).1 ha, (htriple (h.contradictions x hx).2).1 hb⟩
    · have hc' : c ∈ (db.eraseRows p).derived.memoryClaims := by
        rw [herased.claims]
        exact Table.mem_deleteWhere.2 ⟨hc, hkept⟩
      obtain ⟨r', hr', hsame⟩ := hclaims c hc' r.reviewId hid
      rw [herased.reviews] at hr'
      obtain ⟨hr', hkept'⟩ := Table.mem_deleteWhere.1 hr'
      obtain rfl : r' = r := Table.eq_of_clash hr' hr (by simp [Keyed.clash, hsame])
      exact hkept'
    · rw [← herased.clusters] at hk
      obtain ⟨m, hm, hid⟩ := hmembers k hk
      rw [herased.members] at hm
      obtain ⟨hm, hmine⟩ := Table.mem_deleteWhere.1 hm
      exact ⟨m, hm, hid, hmine⟩
  · rintro ⟨hcontradictions, hclaims, hmembers⟩
    refine ⟨fun x hx => ?_, fun c hc id hid => ?_, fun k hk => ?_⟩
    · rw [herased.contradictions] at hx
      obtain ⟨ha, hb⟩ := hcontradictions x hx
      exact ⟨(htriple (h.contradictions x hx).1).2 ha, (htriple (h.contradictions x hx).2).2 hb⟩
    · rw [herased.claims] at hc
      obtain ⟨hc, hkept⟩ := Table.mem_deleteWhere.1 hc
      obtain ⟨r, hr, hsame⟩ := h.claimReviews c hc id hid
      rw [herased.reviews]
      exact ⟨r, Table.mem_deleteWhere.2 ⟨hr, hclaims c hc hkept r hr (by rw [hsame]; exact hid)⟩,
        hsame⟩
    · rw [herased.clusters] at hk
      obtain ⟨m, hm, hid, hmine⟩ := hmembers k hk
      rw [herased.members]
      exact ⟨m, Table.mem_deleteWhere.2 ⟨hm, hmine⟩, hid⟩

/-- The declared references hold as before, and the graph mirrors the triples. -/
theorem intact_eraseRows (hrefs : References db) (hmirror : Mirror db.derived) :
    References (db.eraseRows p) ∧ Mirror (db.eraseRows p).derived :=
  ⟨references_eraseRows hrefs, mirror_eraseRows hrefs hmirror⟩

end Spec

/-! #### A document with two originals and a memory of one principal, and a memory of another one -/

def aliceEpisode : EpisodeRow := ⟨⟨1, Rowid.one_lt⟩, "a", 0, .hot, .active, some "alice"⟩

def bobEpisode : EpisodeRow := ⟨⟨2, Rowid.two_lt⟩, "b", 0, .hot, .active, some "bob"⟩

def aliceChunk : ChunkRow := ⟨⟨1, Rowid.one_lt⟩, "c", "d", 0, some "alice"⟩

def likes (id object : String) (source : Option Rowid) : TripleRow where
  tripleId := id
  subjectId := "x"
  predicate := "likes"
  objectId := object
  objectKind := .literal
  validFromMs := 0
  validToMs := none
  confidence := 1
  provenance := ⟨[], "extracted", "steward", 0⟩
  status := .active
  createdAtMs := 0
  clusterId := none
  sourceEpisodeId := source

def likesEdge (id object : String) : EdgeRow :=
  ⟨id, "x", "likes", .literal object, 0, none, 1, 1, 1, .active⟩

def aliceOriginal (id hash : String) : AssetRow where
  assetId := id
  sha256 := hash
  mimeType := "text/plain"
  filename := none
  sizeBytes := 1
  storagePath := s!"assets/blobs/00/{hash}"
  source := none
  status := .active
  createdByPrincipal := some "alice"
  createdAtMs := 0
  updatedAtMs := 0
  encryptionAlg := "none"
  encryptionNonce := none
  encryptedSizeBytes := none

def zeros : String := "0000000000000000000000000000000000000000000000000000000000000000"

def zerosAndOne : String := "0000000000000000000000000000000000000000000000000000000000000001"

/-- One triple is from the memory of alice, one from her chunk only, and one from the memory of
bob. -/
def aliceDatabase : Database where
  store := { Store.empty with
    episodes := (Table.single aliceEpisode).insertOrIgnore bobEpisode
    documents := .single ⟨"d", .active, none⟩
    documentChunks := .single aliceChunk }
  derived := { Derived.empty with
    triples := ((Table.single (likes "t" "tea" (some aliceEpisode.rowid))).insertOrIgnore
      (likes "u" "milk" none)).insertOrIgnore (likes "v" "rain" (some bobEpisode.rowid))
    contradictions := .single ⟨"u", "v", .other⟩
    entities := .single ⟨"x", .active⟩
    relationshipEdges :=
      ((Table.single (likesEdge "t" "tea")).insertOrIgnore (likesEdge "u" "milk")).insertOrIgnore
      (likesEdge "v" "rain")
    relationshipEvidence :=
      ((Table.single ⟨"t", "t", "t", some "a", some aliceEpisode.rowid, none, 1, none, none⟩).insertOrIgnore
      ⟨"u", "u", "u", none, none, none, 1, none, some "c"⟩).insertOrIgnore
      ⟨"v", "v", "v", some "b", some bobEpisode.rowid, none, 1, none, none⟩ }
  originals :=
    ⟨(Table.single (aliceOriginal "o" zeros)).insertOrIgnore (aliceOriginal "q" zerosAndOne),
      fun _ => some [0]⟩
  documentAssets :=
    (Table.single ⟨"l", "d", "o", "source"⟩).insertOrIgnore ⟨"k", "d", "q", "source"⟩
  memoryAttachments := .single ⟨"m", "a", .document "d", "related"⟩
  memoryReviews := .single ⟨"a"⟩
  assetExtractions := .single ⟨"y", "o", "text", "1"⟩
  embedders := .empty

theorem references_aliceDatabase : References aliceDatabase := by
  constructor
  case pendingEpisodes => exact fun r hr => absurd hr List.not_mem_nil
  case pendingChunks => exact fun r hr => absurd hr List.not_mem_nil
  case attachedDocuments =>
    intro ma hma id hid
    obtain rfl := List.mem_singleton.1 hma
    exact ⟨_, List.mem_singleton_self _, AttachmentTarget.document.inj hid⟩
  case attachedAssets =>
    intro ma hma id hid
    obtain rfl := List.mem_singleton.1 hma
    cases hid
  all_goals decide +kernel

theorem mirror_aliceDatabase : Mirror aliceDatabase.derived := by
  have hagrees : ∀ t ∈ aliceDatabase.derived.triples, ∀ e ∈ aliceDatabase.derived.relationshipEdges,
      e.edgeId = t.tripleId → e = likesEdge t.tripleId t.objectId ∧
      t = likes t.tripleId t.objectId t.sourceEpisodeId := by
    decide +kernel
  refine ⟨by decide +kernel, by decide +kernel, by decide +kernel, by decide +kernel, fun t ht e he hid => ?_,
    by decide +kernel⟩
  obtain ⟨he, ht⟩ := hagrees t ht e he hid
  rw [he, ht]
  exact ⟨rfl, rfl, rfl, rfl, rfl, rfl, iff_of_true rfl rfl⟩

theorem resolved_aliceDatabase : Resolved aliceDatabase :=
  ⟨by decide +kernel, fun c hc => absurd hc List.not_mem_nil, fun k hk => absurd hk List.not_mem_nil⟩

theorem erased_aliceDatabase : Erased "alice" aliceDatabase (aliceDatabase.eraseRows "alice") :=
  erased_eraseRows references_aliceDatabase

theorem intact_aliceDatabase :
    References (aliceDatabase.eraseRows "alice") ∧
    Mirror (aliceDatabase.eraseRows "alice").derived :=
  intact_eraseRows references_aliceDatabase mirror_aliceDatabase

/-- The contradiction with the triple from the chunk stays behind. -/
theorem not_resolved_aliceDatabase : ¬ Resolved (aliceDatabase.eraseRows "alice") := by
  intro h
  have hseparate := (resolved_eraseRows_iff references_aliceDatabase resolved_aliceDatabase).1 h
  have hkept := (hseparate.contradictions _ (List.mem_singleton_self _)).1
  exact absurd hkept (by decide +kernel)

example : (aliceDatabase.eraseRows "alice").derived.relationshipEdges.rows =
    [likesEdge "v" "rain"] := by decide +kernel

/-! ### The part of the memory tables -/

/-- What the erasure of the memory tables takes from the other ones. -/
def assetScope (db : Database) (p : String) (filesErased : Bool) : AssetScope where
  assetDocs := (db.documentAssets.rows.filter fun da => db.originals.assets.rows.any fun a =>
    a.assetId = da.assetId && a.createdByPrincipal = some p).map (·.docId)
  attachedElsewhere := db.memoryAttachments.rows.filterMap fun ma =>
    match ma.target with
    | .document id => if db.store.episodes.rows.any fun e => e.memoryId = ma.memoryId &&
      !mine p e then some id else none
    | .asset _ => none
  shared := db.shared p
  filesErased := filesErased
  assetsDeleted := (db.scopedAssets p).length
  triplesDeleted := (db.derived.triples.rows.filter fun t => db.forgetsTriple p t.tripleId).length

theorem forgetDocs_assetScope {db : Database} {p : String} {filesErased : Bool} :
    db.store.forgetDocs p (db.assetScope p filesErased) = db.forgetsDocument p := by
  funext d
  have hassets : (db.assetScope p filesErased).assetDocs.contains d.docId =
      db.documentAssets.rows.any fun da => da.docId = d.docId &&
      db.originals.assets.rows.any fun a =>
        a.assetId = da.assetId && a.createdByPrincipal = some p := by
    rw [Bool.eq_iff_iff, List.contains_iff_mem, List.any_eq_true]
    constructor
    · intro h
      obtain ⟨da, hda, hid⟩ := List.mem_map.1 h
      obtain ⟨hda, hby⟩ := List.mem_filter.1 hda
      exact ⟨da, hda, by rw [decide_eq_true hid, hby]; rfl⟩
    · rintro ⟨da, hda, hboth⟩
      obtain ⟨hid, hby⟩ := Bool.and_eq_true_iff.1 hboth
      exact List.mem_map.2 ⟨da, List.mem_filter.2 ⟨hda, hby⟩, of_decide_eq_true hid⟩
  have helsewhere : (db.assetScope p filesErased).attachedElsewhere.contains d.docId =
      db.attachedElsewhere p (.document d.docId) := by
    rw [Bool.eq_iff_iff, List.contains_iff_mem]
    unfold attachedElsewhere
    rw [List.any_eq_true]
    constructor
    · intro h
      obtain ⟨ma, hma, hid⟩ := List.mem_filterMap.1 h
      cases htarget : ma.target with
      | document id =>
        rw [htarget] at hid
        dsimp only at hid
        rw [Option.ite_none_right_eq_some] at hid
        obtain ⟨hby, hid⟩ := hid
        obtain rfl := Option.some.inj hid
        exact ⟨ma, hma, by rw [htarget, decide_eq_true rfl, hby]; rfl⟩
      | asset id =>
        rw [htarget] at hid
        cases hid
    · rintro ⟨ma, hma, hboth⟩
      obtain ⟨htarget, hby⟩ := Bool.and_eq_true_iff.1 hboth
      refine List.mem_filterMap.2 ⟨ma, hma, ?_⟩
      rw [of_decide_eq_true htarget]
      exact if_pos hby
  have hothers (c : ChunkRow) : decide (c.ingestedByPrincipal ≠ some p) = !mineChunk p c := by
    unfold mineChunk
    rw [decide_not]
  unfold Store.forgetDocs forgetsDocument
  rw [hassets, helsewhere]
  simp only [hothers]
  rfl

/-- The erasure of the memory tables alone does what this one does to them. -/
theorem deletePrincipalRows_assetScope {db : Database} {p : String}
    (hblank : Text.isBlank p = false) (hshared : db.shared p = false) :
    deletePrincipalRows db.store p (db.assetScope p true) =
    .ok (db.eraseStore p, db.eraseOutcome p) := by
  have hscope : (db.assetScope p true).shared = false := hshared
  have hfiles : (!(db.assetScope p true).filesErased) = false := rfl
  unfold deletePrincipalRows
  rw [hblank, hscope, hfiles, forgetDocs_assetScope]
  rfl

end Database

end Solo
