import Solo.Hnsw.Index
import Solo.Lib.Table

/-!
# The memory and document tables (`migrations/0001_initial.sql`, `0003_documents.sql`)

The rows behind the vector index: episodes and their embeddings, documents, their chunks and the
chunks' embeddings, and `pending_index`, the outbox of vectors committed but not known to be
indexed. The columns kept are those the writer, recovery and erasure code reads. `UNIQUE`
constraints are the `Keyed` instances; the `CHECK` that ties `pending_index.kind` to its id column
is the type `PendingTarget`. Deleting an episode or a chunk cascades as the foreign keys say.
-/

namespace Solo

/-- Ids are UUID text. -/
abbrev MemoryId := String
abbrev DocumentId := String
abbrev ChunkId := String

abbrev Blob := List (BitVec 8)

inductive Status
  | active | forgotten
  deriving DecidableEq, Repr

inductive EmbeddingDtype
  | f32 | f16 | i8 | binary
  deriving DecidableEq, Repr

/-- `bytes_for_dim`. -/
def EmbeddingDtype.bytesForDim (dtype : EmbeddingDtype) (dim : Nat) : Nat :=
  match dtype with
  | .f32 => 4 * dim
  | .f16 => 2 * dim
  | .i8 => dim
  | .binary => (dim + 7) / 8

/-- `solo_core::Embedding`: raw bytes with their element type and dimension. -/
structure Embedding where
  dtype : EmbeddingDtype
  dim : Nat
  data : Blob
  deriving DecidableEq

/-- `bytemuck::try_cast_slice` to little-endian `f32`s; a length that is no multiple of 4 fails. The
alignment of a fresh byte buffer is the allocator's and taken to be good. -/
def castF32 : Blob → Option Vector
  | [] => some []
  | b0 :: b1 :: b2 :: b3 :: rest => (castF32 rest).map fun v => (b3 ++ b2 ++ b1 ++ b0) :: v
  | _ => none

namespace Embedding

def valid (e : Embedding) : Bool := e.data.length = e.dtype.bytesForDim e.dim

def asF32Slice (e : Embedding) : Option Vector := if e.dtype = .f32 then castF32 e.data else none

end Embedding

/-- Rows of `tier`. -/
inductive Tier
  | hot | warm | cold
  deriving DecidableEq, Repr

structure EpisodeRow where
  rowid : Rowid
  memoryId : MemoryId
  tsMs : Int
  tier : Tier
  status : Status
  principalSubject : Option String
  deriving DecidableEq

instance : Keyed EpisodeRow where
  clash a b := a.rowid = b.rowid || a.memoryId = b.memoryId
  clash_comm a b := by simp [eq_comm]

structure EmbeddingRow where
  memoryId : MemoryId
  embedderId : Nat
  dtype : EmbeddingDtype
  dim : Int
  vector : Blob
  deriving DecidableEq

instance : Keyed EmbeddingRow where
  clash a b := a.memoryId = b.memoryId && a.embedderId = b.embedderId
  clash_comm a b := by simp [eq_comm]

structure DocumentRow where
  docId : DocumentId
  status : Status
  contentHash : Option String
  deriving DecidableEq

instance : Keyed DocumentRow where
  clash a b := a.docId = b.docId
  clash_comm a b := by simp [eq_comm]

structure ChunkRow where
  rowid : Rowid
  chunkId : ChunkId
  docId : DocumentId
  chunkIndex : Nat
  ingestedByPrincipal : Option String
  deriving DecidableEq

instance : Keyed ChunkRow where
  clash a b :=
    a.rowid = b.rowid || a.chunkId = b.chunkId || (a.docId = b.docId && a.chunkIndex = b.chunkIndex)
  clash_comm a b := by simp [eq_comm]

structure ChunkEmbeddingRow where
  chunkId : ChunkId
  embedderId : Nat
  dtype : EmbeddingDtype
  dim : Int
  vector : Blob
  deriving DecidableEq

instance : Keyed ChunkEmbeddingRow where
  clash a b := a.chunkId = b.chunkId && a.embedderId = b.embedderId
  clash_comm a b := by simp [eq_comm]

/-- What an outbox row is for: `kind`, with the one id column that is not null. -/
inductive PendingTarget
  | episode (memoryId : MemoryId)
  | chunk (chunkId : ChunkId)
  deriving DecidableEq

structure PendingRow where
  target : PendingTarget
  embedding : Blob
  embeddingDim : Int
  enqueuedAt : Int
  deriving DecidableEq

instance : Keyed PendingRow where
  clash a b := a.target = b.target
  clash_comm a b := by simp [eq_comm]

/-- The tables, and the `sqlite_sequence` entries of the two `AUTOINCREMENT` keys. -/
structure Store where
  episodes : Table EpisodeRow
  embeddings : Table EmbeddingRow
  documents : Table DocumentRow
  documentChunks : Table ChunkRow
  chunkEmbeddings : Table ChunkEmbeddingRow
  pendingIndex : Table PendingRow
  episodeSeq : Nat
  chunkSeq : Nat

namespace Store

def empty : Store := ⟨.empty, .empty, .empty, .empty, .empty, .empty, 0, 0⟩

def episode? (s : Store) (m : MemoryId) : Option EpisodeRow := s.episodes.find? (·.memoryId = m)

def document? (s : Store) (d : DocumentId) : Option DocumentRow := s.documents.find? (·.docId = d)

def chunk? (s : Store) (c : ChunkId) : Option ChunkRow := s.documentChunks.find? (·.chunkId = c)

/-- The document the chunk belongs to is there and active. -/
def chunkActive (s : Store) (c : ChunkRow) : Bool := (s.document? c.docId).any (·.status = .active)

/-- The document the chunk belongs to is there and forgotten. -/
def chunkForgotten (s : Store) (c : ChunkRow) : Bool :=
  (s.document? c.docId).any (·.status = .forgotten)

theorem episode?_eq_some {s : Store} {m : MemoryId} {e : EpisodeRow} :
    s.episode? m = some e ↔ e ∈ s.episodes ∧ e.memoryId = m := by
  constructor
  · intro h
    simpa using Table.find?_mem h
  · rintro ⟨he, rfl⟩
    cases h : s.episode? e.memoryId with
    | none => simpa using Table.find?_eq_none.1 h e he
    | some e' =>
      obtain ⟨he', hm⟩ := Table.find?_mem h
      rw [Table.eq_of_clash he' he (by simpa [Keyed.clash] using .inr (by simpa using hm))]

theorem document?_eq_some {s : Store} {d : DocumentId} {r : DocumentRow} :
    s.document? d = some r ↔ r ∈ s.documents ∧ r.docId = d := by
  constructor
  · intro h
    simpa using Table.find?_mem h
  · rintro ⟨hr, rfl⟩
    cases h : s.document? r.docId with
    | none => simpa using Table.find?_eq_none.1 h r hr
    | some r' =>
      obtain ⟨hr', hd⟩ := Table.find?_mem h
      rw [Table.eq_of_clash hr' hr (by simpa [Keyed.clash] using hd)]

theorem chunk?_eq_some {s : Store} {c : ChunkId} {r : ChunkRow} :
    s.chunk? c = some r ↔ r ∈ s.documentChunks ∧ r.chunkId = c := by
  constructor
  · intro h
    simpa using Table.find?_mem h
  · rintro ⟨hr, rfl⟩
    cases h : s.chunk? r.chunkId with
    | none => simpa using Table.find?_eq_none.1 h r hr
    | some r' =>
      obtain ⟨hr', hc⟩ := Table.find?_mem h
      have hc : r'.chunkId = r.chunkId := by simpa using hc
      rw [Table.eq_of_clash hr' hr (by simp [Keyed.clash, hc])]

theorem episode_rowid_inj {s : Store} {e e' : EpisodeRow} (he : e ∈ s.episodes)
    (he' : e' ∈ s.episodes) (h : e.rowid = e'.rowid) : e = e' :=
  Table.eq_of_clash he he' (by simp [Keyed.clash, h])

theorem chunk_rowid_inj {s : Store} {c c' : ChunkRow} (hc : c ∈ s.documentChunks)
    (hc' : c' ∈ s.documentChunks) (h : c.rowid = c'.rowid) : c = c' :=
  Table.eq_of_clash hc hc' (by simp [Keyed.clash, h])

theorem chunkActive_not_forgotten {s : Store} {c : ChunkRow} (h : s.chunkActive c = true) :
    s.chunkForgotten c = false := by
  unfold chunkActive at h
  unfold chunkForgotten
  cases hd : s.document? c.docId with
  | none => rfl
  | some d =>
    rw [hd] at h
    simp only [Option.any_some, decide_eq_true_eq] at h
    simp [h]

end Store

end Solo
