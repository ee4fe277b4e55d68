import Mathlib.Data.String.Basic
import Solo.Query.Retrieval

/-!
# Document search (`doc_search.rs`)

The same join as recall, over the chunks of active documents, which are scored by their ranks alone.
-/

namespace Solo

open Occurrences StableSort

namespace DocSearch

/-- A row of `documents`, as the search reads it. -/
structure DocumentRow where
  docId : String
  title : Option String
  source : Option String
  mimeType : Option String
  status : String

/-- A row of `document_chunks`. -/
structure StoredChunk where
  rowid : I64
  chunkId : String
  docId : String
  chunkIndex : ℤ
  content : String
  startOffset : ℤ
  endOffset : ℤ

structure DocumentTables where
  documents : List DocumentRow
  chunks : List StoredChunk
  rowid_unique : (chunks.map (·.rowid)).Nodup

structure ChunkRow where
  rowid : I64
  chunkId : String
  docId : String
  docTitle : Option String
  docSource : Option String
  docMimeType : Option String
  chunkIndex : ℤ
  content : String
  startOffset : ℤ
  endOffset : ℤ

structure DocSearchHit where
  chunkId : String
  docId : String
  docTitle : Option String
  docSource : Option String
  docMimeType : Option String
  chunkIndex : ℕ
  content : String
  cosDistance : ℚ
  bm25Score : Option ℚ
  fusedScore : ℚ
  vectorRank : Option ℕ
  lexicalRank : Option ℕ
  startOffset : ℕ
  endOffset : ℕ

structure DocSearchResult where
  hits : List DocSearchHit
  retrievalMode : RetrievalMode
  warning : Option String

/-- `as u32` -/
def asU32 (x : ℤ) : ℕ := (x % 2 ^ 32).toNat

/-- The row of a chunk joined with its document, if that is active. -/
def DocumentTables.join (db : DocumentTables) (c : StoredChunk) : Option ChunkRow :=
  (db.documents.find? fun d => d.docId = c.docId ∧ d.status = "active").map fun d =>
    ⟨c.rowid, c.chunkId, c.docId, d.title, d.source, d.mimeType, c.chunkIndex, c.content,
      c.startOffset, c.endOffset⟩

/-- The chunks of active documents. -/
def DocumentTables.activeChunks (db : DocumentTables) : List ChunkRow := db.chunks.filterMap db.join

def fetchChunksByRowid (db : DocumentTables) (rowids : List I64) : List ChunkRow :=
  db.activeChunks.filter (·.rowid ∈ rowids)

def docSearchHit (row : ChunkRow) (vector lexical : Option (ℚ × ℕ)) : DocSearchHit :=
  let vectorRank := vector.map (·.2)
  let lexicalRank := lexical.map (·.2)
  { chunkId := row.chunkId
    docId := row.docId
    docTitle := row.docTitle
    docSource := row.docSource
    docMimeType := row.docMimeType
    chunkIndex := asU32 row.chunkIndex
    content := row.content
    cosDistance := (vector.map (·.1)).getD 1
    bm25Score := lexical.map (·.1)
    fusedScore := reciprocalRankFusion vectorRank lexicalRank
    vectorRank := vectorRank
    lexicalRank := lexicalRank
    startOffset := asU32 row.startOffset
    endOffset := asU32 row.endOffset }

/-- Score downwards, then distance, then chunk index and id. -/
def docSearchKey (h : DocSearchHit) : ℚ ×ₗ ℚ ×ₗ ℕ ×ₗ String :=
  toLex (-h.fusedScore, toLex (h.cosDistance, toLex (h.chunkIndex, h.chunkId)))

/-- The hits before they are sorted. -/
def docSearchHits (db : DocumentTables) (vector : List (I64 × ℚ × ℕ)) (lexical : List LexicalHit) :
    List DocSearchHit :=
  hybridHits (fetchChunksByRowid db) (·.rowid) (fun row v l => some (docSearchHit row v l))
    vector lexical

/-- `run_doc_search_with_status_inner` -/
def runDocSearchInner (U : Unicode) (outcome : EmbedOutcome) (index : VectorIndex)
    (db : DocumentTables)
    (fts : List Char → ℕ → List (I64 × ℚ)) (query : List Char) (limit : ℕ) :
    Except Error DocSearchResult :=
  if (Text.trimList query).isEmpty then .error (.invalidInput "doc_search query must not be empty")
  else
    let limit := clamp limit 1 100
    (semanticCandidates outcome index (candidateLimit limit)).map fun semantic =>
      let lexical := fetchLexicalHits U fts query (candidateLimit limit)
      let decoded := decodeHits .chunk semantic.hits
      let hits :=
        if decoded.isEmpty && lexical.isEmpty then []
        else (sortByKey docSearchKey (docSearchHits db decoded lexical)).take limit
      ⟨hits, semantic.mode, semantic.warning⟩

theorem DocumentTables.activeChunks_unique (db : DocumentTables) :
    (db.activeChunks.map (·.rowid)).Nodup := by
  have hsub : (db.activeChunks.map (·.rowid)).Sublist (db.chunks.map (·.rowid)) := by
    unfold activeChunks
    induction db.chunks with
    | nil => exact .slnil
    | cons c cs ih =>
      rw [List.filterMap_cons]
      cases hjoin : db.join c with
      | none => exact ih.cons _
      | some row =>
        obtain ⟨d, -, rfl⟩ := Option.map_eq_some_iff.1 hjoin
        exact ih.cons_cons _
  exact db.rowid_unique.sublist hsub

theorem docSearchHits_perm (db : DocumentTables) (vector : List (I64 × ℚ × ℕ))
    (lexical : List LexicalHit) : ∃ rows : List ChunkRow,
      rows.Perm (db.activeChunks.filter fun row => True ∧ row.rowid ∈ vector.map (·.1) ++
        lexical.map (·.rowid)) ∧
      docSearchHits db vector lexical =
        rows.map fun row => docSearchHit row (collect vector row.rowid)
        (collect (lexicalPairs lexical) row.rowid) :=
  hybridHits_perm db.activeChunks_unique (fun _ => rfl) (fun _ _ _ => (if_pos trivial).symm)
    vector lexical

theorem runDocSearchInner_eq (U : Unicode) {outcome : EmbedOutcome} {index : VectorIndex}
    (db : DocumentTables)
    (fts : List Char → ℕ → List (I64 × ℚ)) {query : List Char} (limit : ℕ)
    {semantic : SemanticCandidates} (hquery : (Text.trimList query).isEmpty = false)
    (hsemantic : semanticCandidates outcome index (candidateLimit (clamp limit 1 100)) =
      .ok semantic) :
    runDocSearchInner U outcome index db fts query limit = .ok
      { hits := (sortByKey docSearchKey (docSearchHits db (decodeHits .chunk semantic.hits)
          (fetchLexicalHits U fts query (candidateLimit (clamp limit 1 100))))).take (clamp limit 1 100)
        retrievalMode := semantic.mode
        warning := semantic.warning } := by
  unfold runDocSearchInner
  rw [hquery, if_neg Bool.false_ne_true]
  dsimp only
  rw [hsemantic, Except.map]
  congr 2
  split
  · next hempty =>
    rw [Bool.and_eq_true, List.isEmpty_iff, List.isEmpty_iff] at hempty
    have hnone : docSearchHits db [] [] = [] := rfl
    rw [hempty.1, hempty.2, hnone]
    exact List.take_nil.symm
  · rfl

end DocSearch

end Solo
