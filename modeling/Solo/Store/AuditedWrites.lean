import Mathlib.Logic.Function.Basic
import Solo.Store.Audit

/-!
# Writes with their audit events (`writer.rs`)

`Remember`, `RememberBatch`, `Update` and `IngestDocument` around their transactions: the quota
check before, the redaction of the text, the audit row in the transaction, the index add after the
commit, and the audit event that the dispatcher emits for an error. `texts` has the columns of
`episodes` that `EpisodeRow` leaves out. A transaction takes effect as a whole or fails, because of
its rows or, as `fault` says, at a statement that fails for another reason.
-/

namespace Solo

structure EpisodeText where
  content : String
  updatedAtMs : Int

structure AuditedLibrary where
  lib : Library
  texts : MemoryId → Option EpisodeText
  audit : List AuditEvent

/-- `check_quota` found the quota exceeded. -/
structure QuotaExceededError where
  currentSize : ℕ
  estimatedGrowth : ℕ
  quota : ℕ

namespace QuotaExceededError

def message (e : QuotaExceededError) : String :=
  s!"tenant quota_bytes={e.quota} would be exceeded (current_size={e.currentSize}, estimated_growth={e.estimatedGrowth}). " ++
    "Increase the quota via \x60solo tenants set-quota <id> --bytes <N>\x60 or \x60--unlimited\x60."

def details (e : QuotaExceededError) : List (String × AuditValue) :=
  [("reason", .str "quota_exceeded"), ("current_size", .num e.currentSize),
    ("estimated_growth", .num e.estimatedGrowth), ("quota", .num e.quota)]

end QuotaExceededError

/-- What the writer knows when it runs a command, and what fails in its transaction. -/
structure WriterEnv where
  cfg : Config
  nowMs : Int
  /-- The quota, when one is set and the database path is known. -/
  quotaBytes : Option ℕ
  /-- The size of the database file, 0 when it cannot be read. -/
  dbSize : ℕ
  /-- The redacted text, and how often each pattern matched. -/
  redact : String → String × List (String × ℕ)
  fault : Option String
  drains : String → Bool

def WriterEnv.checkQuota (env : WriterEnv) (growth : ℕ) : Option QuotaExceededError :=
  env.quotaBytes.bind fun quota =>
    if quota < saturatingAddU64 env.dbSize growth then some ⟨env.dbSize, growth, quota⟩ else none

/-- The bytes that one episode may add. -/
def episodeGrowth (content : String) (emb : Embedding) : ℕ :=
  saturatingAddU64 (saturatingAddU64 content.utf8ByteSize emb.data.length) 2048

def redactionAuditEvent (nowMs : Int) (principal targetId : Option String)
    (found : List (String × ℕ)) : AuditEvent :=
  ⟨nowMs, principal, .redactionApplied, targetId, .ok, some [("matches", .counts found)]⟩

/-- The redaction row of a text in which a pattern matched. -/
def redactionRows (nowMs : Int) (principal targetId : Option String) (found : List (String × ℕ)) :
    List AuditEvent :=
  if found.isEmpty then [] else [redactionAuditEvent nowMs principal targetId found]

namespace AuditedLibrary

def emit (s : AuditedLibrary) (e : AuditEvent) : AuditedLibrary :=
  { s with audit := s.audit ++ [e] }

/-! ### Remember -/

/-- The state after the commit of `Remember`. -/
def remembered (s : AuditedLibrary) (env : WriterEnv) (store : Store) (m : MemoryId)
    (content : String) (principal : Option String) : AuditedLibrary where
  lib := { s.lib with store }
  texts := Function.update s.texts m (some ⟨(env.redact content).1, env.nowMs⟩)
  audit := s.audit ++ (redactionRows env.nowMs principal (some m) (env.redact content).2 ++
    [⟨env.nowMs, principal, .memoryRemember, some m, .ok, none⟩])

def handleRememberDurable (s : AuditedLibrary) (env : WriterEnv) (ep : NewEpisode)
    (content : String) (emb : Embedding)
    (principal : Option String) : AuditedLibrary × Except Error MemoryId :=
  if !emb.valid then (s, .error (.embedderProtocol "embedding length does not match dtype * dim"))
  else
    match env.checkQuota (episodeGrowth content emb) with
    | some err =>
      (s.emit ⟨env.nowMs, principal, .memoryRemember, some ep.memoryId, .forbidden,
        some err.details⟩, .error (.forbidden err.message))
    | none =>
      match env.fault, rememberRow env.cfg env.nowMs principal s.lib.store (ep, emb) with
      | some context, _ => (s, .error (.storage context))
      | none, .error e => (s, .error e)
      | none, .ok (store, rowid) =>
        let s := s.remembered env store ep.memoryId content principal
        match emb.asF32Slice with
        | none => (s, .error (.embedder "HNSW expects F32 embeddings; convert dtype upstream"))
        | some v =>
          match s.lib.hnsw.add (episodeHnswId rowid.toI64) v with
          | .error e => (s, .error (.vectorIndex e))
          | .ok hnsw => ({ s with lib := { s.lib with hnsw } }, .ok ep.memoryId)

/-- The delete of drained outbox rows. -/
def drained (s : AuditedLibrary) (drain : Table PendingRow → Table PendingRow) : AuditedLibrary :=
  { s with lib := { s.lib with store := s.lib.store.drained drain } }

/-- The event that a dispatcher emits for an error. -/
def errorEvent (env : WriterEnv) (principal : Option String) (op : AuditOperation)
    (targetId : Option String) (e : Error) (details : List (String × AuditValue)) : AuditEvent :=
  ⟨env.nowMs, principal, op, targetId, .error, some (("error", .str e.display) :: details)⟩

def dispatchRemember (s : AuditedLibrary) (env : WriterEnv) (ep : NewEpisode) (content : String)
    (emb : Embedding) (principal : Option String) : AuditedLibrary × Except Error MemoryId :=
  match s.handleRememberDurable env ep content emb principal with
  | (s, .error e) =>
    (s.emit (errorEvent env principal .memoryRemember (some ep.memoryId) e []), .error e)
  | (s, .ok m) => (s.drained (drainEpisodes env.drains [m]), .ok m)

/-! ### RememberBatch -/

structure RememberItem where
  episode : NewEpisode
  content : String
  embedding : Embedding

/-- The state after the commit of a batch. -/
def batchRemembered (s : AuditedLibrary) (env : WriterEnv) (store : Store)
    (items : List RememberItem) (principal : Option String) : AuditedLibrary where
  lib := { s.lib with store }
  texts := items.foldl (fun texts item =>
    Function.update texts item.episode.memoryId (some ⟨(env.redact item.content).1, env.nowMs⟩))
      s.texts
  audit := s.audit ++ (items.flatMap (fun item =>
      redactionRows env.nowMs principal (some item.episode.memoryId) (env.redact item.content).2) ++
    [⟨env.nowMs, principal, .memoryRememberBatch, none, .ok,
      some [("item_count", .num items.length)]⟩])

/-- The reply lists the items that the index took, too. -/
def handleRememberBatchDurable (s : AuditedLibrary) (env : WriterEnv) (items : List RememberItem)
    (principal : Option String) : AuditedLibrary × Except Error (List MemoryId × List MemoryId) :=
  if items.isEmpty then (s, .error (.invalidInput "memory_remember_batch: items must not be empty"))
  else if items.length > maxRememberBatchSize then
    (s, .error (.invalidInput
      s!"memory_remember_batch: {items.length} items exceeds MAX_REMEMBER_BATCH_SIZE = {maxRememberBatchSize}"))
  else if items.any fun item => !item.embedding.valid then
    (s, .error (.embedderProtocol "embedding length does not match dtype * dim"))
  else
    let growth :=
      items.foldl (fun g item => saturatingAddU64 g (episodeGrowth item.content item.embedding)) 0
    match env.checkQuota growth with
    | some err =>
      (s.emit ⟨env.nowMs, principal, .memoryRememberBatch, none, .forbidden, some err.details⟩,
        .error (.forbidden err.message))
    | none =>
      let rows := items.map fun item => (item.episode, item.embedding)
      match env.fault, rememberRows env.cfg env.nowMs principal s.lib.store rows with
      | some context, _ => (s, .error (.storage context))
      | none, .error e => (s, .error e)
      | none, .ok (store, rowids) =>
        let s := s.batchRemembered env store items principal
        let (hnsw, indexed) := addBatch s.lib.hnsw (rows.zip rowids)
        ({ s with lib := { s.lib with hnsw } }, .ok (items.map (·.episode.memoryId), indexed))

def dispatchRememberBatch (s : AuditedLibrary) (env : WriterEnv) (items : List RememberItem)
    (principal : Option String) : AuditedLibrary × Except Error (List MemoryId) :=
  match s.handleRememberBatchDurable env items principal with
  | (s, .error e) =>
    (s.emit (errorEvent env principal .memoryRememberBatch none e
      [("item_count", .num items.length)]), .error e)
  | (s, .ok (ids, indexed)) => (s.drained (drainEpisodes env.drains indexed), .ok ids)

/-! ### Update -/

/-- The state after the commit of `Update`. -/
def updated (s : AuditedLibrary) (env : WriterEnv) (store : Store) (m : MemoryId) (content : String)
    (principal : Option String) : AuditedLibrary where
  lib := { s.lib with store }
  texts := Function.update s.texts m (some ⟨(env.redact content).1, env.nowMs⟩)
  audit := s.audit ++ (redactionRows env.nowMs principal (some m) (env.redact content).2 ++
    [⟨env.nowMs, principal, .memoryUpdate, some m, .ok, none⟩])

def handleUpdateDurable (s : AuditedLibrary) (env : WriterEnv) (m : MemoryId) (content : String)
    (emb : Embedding)
    (principal : Option String) : AuditedLibrary × Except Error (MemoryId × Rowid) :=
  if !emb.valid then (s, .error (.embedderProtocol "embedding length does not match dtype * dim"))
  else
    match emb.asF32Slice with
    | none => (s, .error (.embedder "HNSW expects F32 embeddings; convert dtype upstream"))
    | some v =>
      if Text.isBlank content then
        (s, .error (.invalidInput "updated memory content must not be empty"))
      else
        match env.fault, updateRows env.cfg env.nowMs s.lib.store m emb with
        | some context, _ => (s, .error (.storage context))
        | none, .error e => (s, .error e)
        | none, .ok (store, rowid) =>
          let s := s.updated env store m (Text.trim content) principal
          match s.lib.hnsw.add (episodeHnswId rowid.toI64) v with
          | .error e => (s, .error (.vectorIndex e))
          | .ok hnsw => ({ s with lib := { s.lib with hnsw } }, .ok (m, rowid))

def dispatchUpdate (s : AuditedLibrary) (env : WriterEnv) (m : MemoryId) (content : String)
    (emb : Embedding)
    (principal : Option String) : AuditedLibrary × Except Error (MemoryId × Rowid) :=
  match s.handleUpdateDurable env m content emb principal with
  | (s, .error e) => (s.emit (errorEvent env principal .memoryUpdate (some m) e []), .error e)
  | (s, .ok r) => (s.drained (drainEpisodes env.drains [r.1]), .ok r)

/-! ### IngestDocument -/

/-- What `IngestDocument` finds at its path: the size of the file, or why it is not ingested; then
the parsed file with how often each pattern matches in its chunks. -/
structure IngestSource where
  path : String
  size : Except Error ℕ
  file : Except Error IngestInput
  byteSize : ℕ
  found : List (String × ℕ)
  /-- Reading, parsing and embedding fail with `Storage` or `Other`. -/
  allowed : ∀ m, size ≠ .error (.forbidden m) ∧ file ≠ .error (.forbidden m) ∧
    ∀ f, file = .ok f → f.embeddings ≠ .error (.forbidden m)

/-- The state after `Ok`: the event of a deduplicated file, or the rows of the transaction. -/
def ingested (s : AuditedLibrary) (env : WriterEnv) (src : IngestSource) (principal : Option String)
    (lib : Library) (report : IngestReport) : AuditedLibrary :=
  if report.deduped then
    s.emit ⟨env.nowMs, principal, .memoryIngestDocument, some report.docId, .ok,
      some [("deduped", .bool true)]⟩
  else
    { s with
      lib
      audit := s.audit ++ (redactionRows env.nowMs principal (some report.docId) src.found ++
        [⟨env.nowMs, principal, .memoryIngestDocument, some report.docId, .ok,
          some [("chunks_persisted", .num report.chunksPersisted), ("bytes_ingested", .num src.byteSize)]⟩]) }

def handleIngestDocumentDurable (s : AuditedLibrary) (env : WriterEnv) (src : IngestSource)
    (principal : Option String) : AuditedLibrary × Except Error IngestReport :=
  match src.size with
  | .error e => (s, .error e)
  | .ok size =>
    match env.checkQuota (min (size * 2) (2 ^ 64 - 1)) with
    | some err =>
      (s.emit ⟨env.nowMs, principal, .memoryIngestDocument, some src.path, .forbidden,
        some err.details⟩, .error (.forbidden err.message))
    | none =>
      match Solo.dispatchIngestDocument env.cfg env.nowMs env.drains s.lib src.file principal with
      | (_, .error e) => (s, .error e)
      | (lib, .ok report) =>
        match env.fault with
        -- only a fresh document has a transaction
        | some context =>
          if report.deduped then (s.ingested env src principal lib report, .ok report)
            else (s, .error (.storage context))
        | none => (s.ingested env src principal lib report, .ok report)

def dispatchIngestDocument (s : AuditedLibrary) (env : WriterEnv) (src : IngestSource)
    (principal : Option String) : AuditedLibrary × Except Error IngestReport :=
  match s.handleIngestDocumentDurable env src principal with
  | (s, .error e) => (s.emit (errorEvent env principal .memoryIngestDocument none e []), .error e)
  | (s, .ok report) => (s, .ok report)

end AuditedLibrary
end Solo
