import Solo.Hnsw.Snapshot
import Solo.Lib.Text
import Solo.Store.Recovery

/-!
# The writer's memory and document commands (`writer.rs`, `gdpr.rs`, `gdpr_assets.rs`)

A library is its SQL store, its snapshot directory and its running index. A command commits its
transaction, then updates the index, replies, and last drains the outbox rows it has indexed; the
drain may fail or be cut off by a crash, so which of its deletes take effect is an input (`drains`).
The quota is off and the embedder is set, as `LibraryHandle::open` starts the writer; audit rows,
content and redaction play no part in what the index holds and are left out.
-/

namespace Solo

/-- `u64::saturating_add`. -/
def saturatingAddU64 (a b : ℕ) : ℕ := min (a + b) (2 ^ 64 - 1)

/-- What the data directory's configuration fixes. The dimension is a `u32`, and a library whose
configuration records dimension 0 does not open. -/
structure Config where
  dim : Nat
  embedderId : Nat
  embedderDtype : EmbeddingDtype
  dim_pos : 0 < dim
  dim_lt : dim < 2 ^ 32

inductive Error
  | storage (context : String)
  | invalidInput (message : String)
  | notFound (message : String)
  | conflict (message : String)
  | forbidden (message : String)
  | embedder (message : String)
  | embedderProtocol (message : String)
  | steward (message : String)
  | vectorIndex (e : IndexError)
  | other (message : String)
  deriving DecidableEq

/-- What `Hnsw::file_dump` writes. -/
structure HnswDump where
  dim : Nat
  points : List (Vector × I64)
  deriving DecidableEq

namespace HnswIndex

def dump (ix : HnswIndex) : HnswDump := ⟨ix.dim, ix.points⟩

/-- `from_inner`: tombstones are not part of a snapshot. -/
def fromInner (d : HnswDump) : HnswIndex := ⟨d.dim, d.points, ∅⟩

theorem live_fromInner {d : HnswDump} {id : I64} : (fromInner d).Live id ↔
    id ∈ d.points.map Prod.snd := by
  simp [Live, fromInner]

end HnswIndex

structure Library where
  store : Store
  dir : Dir HnswDump
  hnsw : HnswIndex

def Library.new (cfg : Config) : Library := ⟨.empty, .empty, .new cfg.dim⟩

/-- A failed statement is a storage error with the statement's context. -/
def orStorage {α : Type} (context : String) : Option α → Except Error α
  | some a => .ok a
  | none => .error (.storage context)

theorem orStorage_eq_ok {α : Type} {context : String} {x : Option α} {a : α} :
    orStorage context x = .ok a ↔ x = some a := by
  cases x <;> simp [orStorage]

/-- `AUTOINCREMENT`: one more than every rowid used so far. -/
def nextRowid (seq : Nat) (used : List Rowid) : Option Rowid :=
  let n := used.foldl (fun m r => max m r.val) seq + 1
  if h : n < 2 ^ 62 then some ⟨n, h⟩ else none

/-! ### Remember -/

structure NewEpisode where
  memoryId : MemoryId
  tsMs : Int
  tier : Tier

def EmbeddingRow.ofEmbedding (cfg : Config) (m : MemoryId) (e : Embedding) : EmbeddingRow :=
  ⟨m, cfg.embedderId, e.dtype, e.dim, e.data⟩

/-- The three inserts of one remembered episode. -/
def rememberRow (cfg : Config) (nowMs : Int) (principal : Option String) (s : Store)
    (item : NewEpisode × Embedding) : Except Error (Store × Rowid) := do
  let ⟨ep, emb⟩ := item
  let rowid ← orStorage "INSERT episode" (nextRowid s.episodeSeq (s.episodes.rows.map (·.rowid)))
  let episodes ← orStorage "INSERT episode"
    (s.episodes.insert? ⟨rowid, ep.memoryId, ep.tsMs, ep.tier, .active, principal⟩)
  let embeddings ← orStorage "INSERT embeddings"
    (s.embeddings.insert? (.ofEmbedding cfg ep.memoryId emb))
  let pending ← orStorage "INSERT pending_index"
    (s.pendingIndex.insert? ⟨.episode ep.memoryId, emb.data, emb.dim, nowMs⟩)
  return ({ s with episodes := episodes, embeddings := embeddings, pendingIndex := pending,
                   episodeSeq := rowid.val }, rowid)

/-- `DELETE FROM pending_index WHERE memory_id = ?`, for those ids whose delete takes effect. -/
def drainEpisodes (drains : String → Bool) (ids : List MemoryId) (t : Table PendingRow) :
    Table PendingRow :=
  t.deleteWhere fun p => ids.any fun m => p.target = .episode m && drains m

/-- `DELETE FROM pending_index WHERE kind = 'chunk' AND chunk_id = ?`. -/
def drainChunks (drains : String → Bool) (ids : List ChunkId) (t : Table PendingRow) :
    Table PendingRow :=
  t.deleteWhere fun p => ids.any fun c => p.target = .chunk c && drains c

def Store.drained (s : Store) (drain : Table PendingRow → Table PendingRow) : Store :=
  { s with pendingIndex := drain s.pendingIndex }

/-- `handle_remember_durable`. -/
def handleRemember (cfg : Config) (nowMs : Int) (lib : Library) (item : NewEpisode × Embedding)
    (principal : Option String) : Library × Except Error MemoryId :=
  if !item.2.valid then
    (lib, .error (.embedderProtocol "embedding length does not match dtype * dim"))
  else
    match rememberRow cfg nowMs principal lib.store item with
    | .error e => (lib, .error e)
    | .ok (store, rowid) =>
      match item.2.asF32Slice with
      | none => ({ lib with store := store },
          .error (.embedder "HNSW expects F32 embeddings; convert dtype upstream"))
      | some v =>
        match lib.hnsw.add (episodeHnswId rowid.toI64) v with
        | .error e => ({ lib with store := store }, .error (.vectorIndex e))
        | .ok hnsw => ({ lib with store := store, hnsw := hnsw }, .ok item.1.memoryId)

/-- `dispatch_remember`. -/
def dispatchRemember (cfg : Config) (nowMs : Int) (drains : String → Bool) (lib : Library)
    (item : NewEpisode × Embedding) (principal : Option String) : Library × Except Error MemoryId :=
  match handleRemember cfg nowMs lib item principal with
  | (lib, .error e) => (lib, .error e)
  | (lib, .ok m) => ({ lib with store := lib.store.drained (drainEpisodes drains [m]) }, .ok m)

/-! ### RememberBatch -/

def maxRememberBatchSize : Nat := 200

/-- The inserts of a batch, in one transaction. -/
def rememberRows (cfg : Config) (nowMs : Int) (principal : Option String) :
    Store → List (NewEpisode × Embedding) → Except Error (Store × List Rowid)
  | s, [] => .ok (s, [])
  | s, item :: items => do
    let (s, rowid) ← rememberRow cfg nowMs principal s item
    let (s, rowids) ← rememberRows cfg nowMs principal s items
    return (s, rowid :: rowids)

/-- `hnsw.add` of each item; an item that is not indexed keeps its outbox row. -/
def addBatch (hnsw : HnswIndex) : List ((NewEpisode × Embedding) × Rowid) →
    HnswIndex × List MemoryId
  | [] => (hnsw, [])
  | (item, rowid) :: rest =>
    match item.2.asF32Slice with
    | none => addBatch hnsw rest
    | some v =>
      match hnsw.add (episodeHnswId rowid.toI64) v with
      | .error _ => addBatch hnsw rest
      | .ok hnsw =>
        let (hnsw, indexed) := addBatch hnsw rest
        (hnsw, item.1.memoryId :: indexed)

/-- `dispatch_remember_batch`. -/
def dispatchRememberBatch (cfg : Config) (nowMs : Int) (drains : String → Bool) (lib : Library)
    (items : List (NewEpisode × Embedding)) (principal : Option String) :
    Library × Except Error (List MemoryId) :=
  if items.isEmpty then
    (lib, .error (.invalidInput "memory_remember_batch: items must not be empty"))
  else if items.length > maxRememberBatchSize then
    (lib, .error (.invalidInput
      s!"memory_remember_batch: {items.length} items exceeds MAX_REMEMBER_BATCH_SIZE = {maxRememberBatchSize}"))
  else if items.any fun item => !item.2.valid then
    (lib, .error (.embedderProtocol "embedding length does not match dtype * dim"))
  else
    match rememberRows cfg nowMs principal lib.store items with
    | .error e => (lib, .error e)
    | .ok (store, rowids) =>
      let (hnsw, indexed) := addBatch lib.hnsw (items.zip rowids)
      ({ lib with store := store.drained (drainEpisodes drains indexed), hnsw := hnsw },
        .ok (items.map (·.1.memoryId)))

/-! ### Update -/

/-- The upserts of one update of an active episode. -/
def updateRows (cfg : Config) (nowMs : Int) (s : Store) (m : MemoryId) (emb : Embedding) :
    Except Error (Store × Rowid) :=
  match s.episode? m with
  | none => .error (.notFound "memory not found")
  | some ep =>
    if ep.status ≠ .active then .error (.conflict "cannot update a non-active memory")
    else do
      let embeddings ← orStorage "UPSERT embedding" (s.embeddings.upsert? (.ofEmbedding cfg m emb)
        (fun r => r.memoryId = m && r.embedderId = cfg.embedderId)
        fun r => { r with dtype := emb.dtype, dim := emb.dim, vector := emb.data })
      let pending ← orStorage "UPSERT pending_index"
        (s.pendingIndex.upsert? ⟨.episode m, emb.data, emb.dim, nowMs⟩
          (fun p => p.target = .episode m)
          fun p => { p with embedding := emb.data, embeddingDim := emb.dim, enqueuedAt := nowMs })
      return ({ s with embeddings := embeddings, pendingIndex := pending }, ep.rowid)

/-- `handle_update_durable`. -/
def handleUpdate (cfg : Config) (nowMs : Int) (lib : Library) (m : MemoryId) (content : String)
    (emb : Embedding) : Library × Except Error (MemoryId × Rowid) :=
  if !emb.valid then (lib, .error (.embedderProtocol "embedding length does not match dtype * dim"))
  else
    match emb.asF32Slice with
    | none => (lib, .error (.embedder "HNSW expects F32 embeddings; convert dtype upstream"))
    | some v =>
      if Text.isBlank content then
        (lib, .error (.invalidInput "updated memory content must not be empty"))
      else
        match updateRows cfg nowMs lib.store m emb with
        | .error e => (lib, .error e)
        | .ok (store, rowid) =>
          match lib.hnsw.add (episodeHnswId rowid.toI64) v with
          | .error e => ({ lib with store := store }, .error (.vectorIndex e))
          | .ok hnsw => ({ lib with store := store, hnsw := hnsw }, .ok (m, rowid))

/-- `dispatch_update`. -/
def dispatchUpdate (cfg : Config) (nowMs : Int) (drains : String → Bool) (lib : Library)
    (m : MemoryId)
    (content : String) (emb : Embedding) : Library × Except Error (MemoryId × Rowid) :=
  match handleUpdate cfg nowMs lib m content emb with
  | (lib, .error e) => (lib, .error e)
  | (lib, .ok r) => ({ lib with store := lib.store.drained (drainEpisodes drains [r.1]) }, .ok r)

/-! ### Forget -/

def forgetRow (s : Store) (m : MemoryId) : Store :=
  { s with episodes := s.episodes.updateWhere (·.memoryId = m) fun e => { e with status := .forgotten } }

/-- `handle_forget`. -/
def handleForget (lib : Library) (m : MemoryId) : Library × Except Error Unit :=
  match lib.store.episode? m with
  | none => (lib, .error (.notFound s!"memory_id {m} not found in episodes"))
  | some ep =>
    ({ lib with store := forgetRow lib.store m, hnsw := lib.hnsw.remove (episodeHnswId ep.rowid.toI64) },
      .ok ())

/-! ### Documents -/

/-- A file as far as its ingestion depends on it: the hash of its text, the ids its document and
chunks will get, and what the embedder returns for the chunks. -/
structure IngestInput where
  contentHash : String
  docId : DocumentId
  chunkIds : List ChunkId
  embeddings : Except Error (List Embedding)

structure IngestReport where
  docId : DocumentId
  chunksPersisted : Nat
  deduped : Bool
  deriving DecidableEq

/-- The three inserts of one chunk. -/
def ingestChunk (cfg : Config) (nowMs : Int) (principal : Option String) (docId : DocumentId)
    (s : Store) (idx : Nat) (chunk : ChunkId × Embedding) : Except Error (Store × Rowid) := do
  let ⟨chunkId, emb⟩ := chunk
  let context := fun table => s!"ingest_document: INSERT {table} (idx {idx})"
  let rowid ← orStorage (context "document_chunks")
    (nextRowid s.chunkSeq (s.documentChunks.rows.map (·.rowid)))
  let chunks ← orStorage (context "document_chunks")
    (s.documentChunks.insert? ⟨rowid, chunkId, docId, idx, principal⟩)
  let embeddings ← orStorage (context "chunk_embeddings")
    (s.chunkEmbeddings.insert? ⟨chunkId, cfg.embedderId, cfg.embedderDtype, emb.dim, emb.data⟩)
  let pending ← orStorage (context "pending_index")
    (s.pendingIndex.insert? ⟨.chunk chunkId, emb.data, emb.dim, nowMs⟩)
  return ({ s with documentChunks := chunks, chunkEmbeddings := embeddings, pendingIndex := pending,
                   chunkSeq := rowid.val }, rowid)

def ingestChunks (cfg : Config) (nowMs : Int) (principal : Option String) (docId : DocumentId) :
    Store → Nat → List (ChunkId × Embedding) → Except Error (Store × List Rowid)
  | s, _, [] => .ok (s, [])
  | s, idx, chunk :: chunks => do
    let (s, rowid) ← ingestChunk cfg nowMs principal docId s idx chunk
    let (s, rowids) ← ingestChunks cfg nowMs principal docId s (idx + 1) chunks
    return (s, rowid :: rowids)

/-- `hnsw.add` of each chunk, and the chunks whose outbox rows want draining. -/
def addChunks (hnsw : HnswIndex) : List ((ChunkId × Embedding) × Rowid) → HnswIndex × List ChunkId
  | [] => (hnsw, [])
  | (chunk, rowid) :: rest =>
    match chunk.2.asF32Slice with
    | none => addChunks hnsw rest
    | some v =>
      match hnsw.add (chunkHnswId rowid.toI64) v with
      | .error _ => addChunks hnsw rest
      | .ok hnsw =>
        let (hnsw, drained) := addChunks hnsw rest
        (hnsw, chunk.1 :: drained)

/-- The transaction of one ingestion. -/
def ingestRows (cfg : Config) (nowMs : Int) (principal : Option String) (s : Store)
    (file : IngestInput) (embeddings : List Embedding) : Except Error (Store × List Rowid) := do
  let documents ← orStorage "ingest_document: INSERT documents"
    (s.documents.insert? ⟨file.docId, .active, some file.contentHash⟩)
  ingestChunks cfg nowMs principal file.docId { s with documents := documents } 0
    (file.chunkIds.zip embeddings)

/-- `handle_ingest_document_durable` with its drain; reading and parsing the file may already have
failed. -/
def dispatchIngestDocument (cfg : Config) (nowMs : Int) (drains : String → Bool) (lib : Library)
    (file : Except Error IngestInput) (principal : Option String) :
    Library × Except Error IngestReport :=
  match file with
  | .error e => (lib, .error e)
  | .ok file =>
    match lib.store.documents.find? fun d => d.contentHash = some file.contentHash with
    | some d => (lib, .ok ⟨d.docId, 0, true⟩)
    | none =>
      if file.chunkIds.isEmpty then
        (lib, .error
          (.storage "ingest_document: parser returned text but chunker produced 0 chunks"))
      else
        match file.embeddings with
        | .error e => (lib, .error e)
        | .ok embeddings =>
          if embeddings.length ≠ file.chunkIds.length then
            (lib, .error (.storage
              s!"ingest_document: embed_batch returned {embeddings.length} embeddings for {file.chunkIds.length} chunks"))
          else if embeddings.any fun e => !e.valid then
            (lib, .error (.storage "ingest_document: chunk embedding invalid"))
          else
            match ingestRows cfg nowMs principal lib.store file embeddings with
            | .error e => (lib, .error e)
            | .ok (store, rowids) =>
              let (hnsw, indexed) := addChunks lib.hnsw ((file.chunkIds.zip embeddings).zip rowids)
              ({ lib with store := store.drained (drainChunks drains indexed), hnsw := hnsw },
                .ok ⟨file.docId, file.chunkIds.length, false⟩)

def forgetDocumentRow (s : Store) (d : DocumentId) : Store :=
  { s with documents := s.documents.updateWhere (·.docId = d) fun r => { r with status := .forgotten } }

/-- `handle_forget_document`; the reply counts the chunks tombstoned. -/
def handleForgetDocument (lib : Library) (d : DocumentId) : Library × Except Error Nat :=
  match lib.store.document? d with
  | none => (lib, .error (.notFound s!"doc_id {d} not found in documents"))
  | some _ =>
    let chunks := lib.store.documentChunks.rows.filter (·.docId = d)
    ({ lib with store := forgetDocumentRow lib.store d,
                hnsw := (chunks.map fun c => chunkHnswId c.rowid.toI64).foldl HnswIndex.remove lib.hnsw },
      .ok chunks.length)

/-- `handle_save_snapshot`. -/
def handleSaveSnapshot (lib : Library) : Library :=
  { lib with dir := save lib.hnsw.rawLen lib.hnsw.dump lib.dir }

end Solo
