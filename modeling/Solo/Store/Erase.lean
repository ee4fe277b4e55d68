import Solo.Store.Writer

/-!
# Hard erasure of one principal (`gdpr.rs`, `gdpr_assets.rs`)

The writer deletes the principal's episodes, chunks and exclusively owned documents in one
transaction, with the cascades the schema declares, and tombstones the erased ids. The caller then
re-adds every active row from SQL to the running index (`rebuild_hnsw_after_forget`). What `prepare`
reads from the tables of original files, and whether their removal succeeds, is an input.
-/

namespace Solo

/-- The part of the erasure that is decided outside the memory and document tables. -/
structure AssetScope where
  /-- Documents with an original created by the principal. -/
  assetDocs : List DocumentId
  /-- Documents attached to a memory of another principal. -/
  attachedElsewhere : List DocumentId
  /-- An original in scope is owned or referenced by another principal. -/
  shared : Bool
  /-- The paths check out and the files can be removed. -/
  filesErased : Bool
  assetsDeleted : Nat
  triplesDeleted : Nat

structure DeleteOutcome where
  episodesDeleted : Nat
  triplesDeleted : Nat
  chunksDeleted : Nat
  documentsDeleted : Nat
  assetsDeleted : Nat
  episodeRowids : List Rowid
  chunkRowids : List Rowid

namespace DeleteOutcome

def totalDeleted (o : DeleteOutcome) : Nat :=
  o.episodesDeleted + o.triplesDeleted + o.chunksDeleted + o.documentsDeleted + o.assetsDeleted

/-- `invalidate_vectors`. -/
def invalidateVectors (o : DeleteOutcome) (hnsw : HnswIndex) : HnswIndex :=
  (o.episodeRowids.map (fun r => episodeHnswId r.toI64) ++
    o.chunkRowids.map (fun r => chunkHnswId r.toI64)).foldl HnswIndex.remove hnsw

end DeleteOutcome

namespace Store

/-- `DELETE FROM episodes WHERE p`, with its cascades. -/
def deleteEpisodes (s : Store) (p : EpisodeRow → Bool) : Store :=
  let gone := fun m : MemoryId => s.episodes.rows.any fun e => p e && e.memoryId = m
  { s with
    episodes := s.episodes.deleteWhere p
    embeddings := s.embeddings.deleteWhere fun r => gone r.memoryId
    pendingIndex := s.pendingIndex.deleteWhere fun r =>
      match r.target with
      | .episode m => gone m
      | .chunk _ => false }

/-- `DELETE FROM document_chunks WHERE p`, with its cascades. -/
def deleteChunks (s : Store) (p : ChunkRow → Bool) : Store :=
  let gone := fun c : ChunkId => s.documentChunks.rows.any fun r => p r && r.chunkId = c
  { s with
    documentChunks := s.documentChunks.deleteWhere p
    chunkEmbeddings := s.chunkEmbeddings.deleteWhere fun r => gone r.chunkId
    pendingIndex := s.pendingIndex.deleteWhere fun r =>
      match r.target with
      | .episode _ => false
      | .chunk c => gone c }

/-- `DELETE FROM documents WHERE p`, with its cascades. -/
def deleteDocuments (s : Store) (p : DocumentRow → Bool) : Store :=
  let s' := s.deleteChunks fun c => s.documents.rows.any fun d => p d && d.docId = c.docId
  { s' with documents := s'.documents.deleteWhere p }

/-- `solo_forget_docs`: documents the principal has a part of and nobody else has. -/
def forgetDocs (s : Store) (principal : String) (scope : AssetScope) (d : DocumentRow) : Bool :=
  ((s.documentChunks.rows.any fun c => c.docId = d.docId &&
    c.ingestedByPrincipal = some principal) || scope.assetDocs.contains d.docId) &&
  !(s.documentChunks.rows.any fun c => c.docId = d.docId &&
    c.ingestedByPrincipal ≠ some principal) &&
  !scope.attachedElsewhere.contains d.docId

end Store

/-- `delete_principal_rows_with_assets`. -/
def deletePrincipalRows (s : Store) (principal : String) (scope : AssetScope) :
    Except Error (Store × DeleteOutcome) :=
  if Text.isBlank principal then .error (.invalidInput "principal subject must not be empty")
  else if scope.shared then
    .error (.invalidInput
      "principal erasure includes an original file owned or referenced by another principal; resolve shared document/attachment ownership before retrying; nothing was erased")
  else if !scope.filesErased then .error (.storage "remove principal original")
  else
    let mine := fun e : EpisodeRow => decide (e.principalSubject = some principal)
    let mineChunk := fun c : ChunkRow => decide (c.ingestedByPrincipal = some principal)
    let docs := s.forgetDocs principal scope
    let episodes := s.episodes.rows.filter mine
    let chunks := s.documentChunks.rows.filter mineChunk
    let s' := ((s.deleteEpisodes mine).deleteChunks mineChunk).deleteDocuments docs
    .ok (s', { episodesDeleted := episodes.length
               triplesDeleted := scope.triplesDeleted
               chunksDeleted := chunks.length
               documentsDeleted := (s.documents.rows.filter docs).length
               assetsDeleted := scope.assetsDeleted
               episodeRowids := episodes.map (·.rowid)
               chunkRowids := chunks.map (·.rowid) })

/-- `WriteCommand::ForgetPrincipalRows`: the part of the erasure inside the writer. -/
def handleForgetPrincipalRows (lib : Library) (principal : String) (scope : AssetScope) :
    Library × Except Error DeleteOutcome :=
  match deletePrincipalRows lib.store principal scope with
  | .error e => (lib, .error e)
  | .ok (s, outcome) =>
    ({ lib with store := s, hnsw := outcome.invalidateVectors lib.hnsw }, .ok outcome)

/-- `rebuild_hnsw_after_forget`: nothing is cleared, every active row is added again. -/
def rebuildHnswAfterForget (cfg : Config) (lib : Library) : Library :=
  { lib with hnsw := (rebuildHnswFromSql lib.store lib.hnsw cfg.embedderId).1 }

/-- `forget_principal`, undisturbed by other commands. -/
def forgetPrincipal (cfg : Config) (lib : Library) (principal : String) (scope : AssetScope) :
    Library × Except Error DeleteOutcome :=
  match handleForgetPrincipalRows lib principal scope with
  | (lib, .error e) => (lib, .error e)
  | (lib, .ok outcome) =>
    (if outcome.totalDeleted > 0 then rebuildHnswAfterForget cfg lib else lib, .ok outcome)

end Solo
