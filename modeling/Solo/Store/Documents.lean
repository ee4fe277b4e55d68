import Solo.Lib.Run
import Solo.Store.Session

/-!
# Documents keep their chunks (`writer.rs`, `gdpr.rs`, `gdpr_assets.rs`)

An archive is a library with the column `documents.chunk_count` and the attachments of documents to
memories. Ingestion trusts a document row of the same hash; forgetting a document hides it; an
erasure deletes the principal's chunks and the documents that nobody else has a part of.
`intact_iff`: in every run the active documents have all their chunks exactly when no erasure meets
an active document with a chunk of the principal that is attached to a memory of somebody else.
-/

namespace Solo

/-! ### Attachments -/

/-- A row of `memory_attachments` with a document. -/
structure AttachmentRow where
  attachmentId : String
  memoryId : MemoryId
  docId : DocumentId
  relationType : String
  deriving DecidableEq

instance : Keyed AttachmentRow where
  clash a b := a.attachmentId = b.attachmentId ||
    (a.memoryId = b.memoryId && a.docId = b.docId && a.relationType = b.relationType)
  clash_comm a b := by simp [eq_comm]

structure Archive where
  lib : Library
  /-- The column `chunk_count` of `documents`. -/
  chunkCount : DocumentId → ℕ
  attachments : Table AttachmentRow

def normalizeRelationType (value default : String) : Except Error String :=
  let value := if Text.isBlank value then default else Text.trim value
  if (Text.utf8 value.toList).length > 64 then .error
    (.invalidInput "relation_type must be at most 64 characters")
  else if !value.toList.all fun c => c.isAlphanum || c = '_' || c = '-' || c = '.' then
    .error (.invalidInput "relation_type may only contain ASCII letters, digits, _, -, or .")
  else .ok value

def ensureMemoryExists (s : Store) (m : MemoryId) : Except Error Unit :=
  if s.episodes.rows.any fun e => e.memoryId = m && e.status = .active then .ok ()
  else .error (.notFound s!"active memory_id {m} not found")

def ensureDocumentExists (s : Store) (d : DocumentId) : Except Error Unit :=
  if s.documents.rows.any fun r => r.docId = d && r.status = .active then .ok ()
  else .error (.notFound s!"active doc_id {d} not found")

namespace Archive

def new (cfg : Config) : Archive := ⟨.new cfg, fun _ => 0, .empty⟩

/-- `handle_attach_memory` with a document; `attachmentId` is the id that is drawn. -/
def attachMemory (a : Archive) (attachmentId : String) (m : MemoryId) (d : DocumentId)
    (relationType : String) : Archive × Except Error AttachmentRow :=
  let checked : Except Error String := do
    ensureMemoryExists a.lib.store m
    ensureDocumentExists a.lib.store d
    normalizeRelationType relationType "related"
  match checked with
  | .error e => (a, .error e)
  | .ok relationType =>
    match a.attachments.find? fun r => r.memoryId = m && r.docId = d &&
      r.relationType = relationType with
    | some r => (a, .ok r)
    | none =>
      match a.attachments.insert? ⟨attachmentId, m, d, relationType⟩ with
      | none => (a, .error (.storage "attach_memory: INSERT"))
      | some attachments =>
        ({ a with attachments := attachments }, .ok ⟨attachmentId, m, d, relationType⟩)

/-- The column after an ingestion with this reply. -/
def countAfter (count : DocumentId → ℕ) (reply : Except Error IngestReport) (d : DocumentId) : ℕ :=
  match reply with
  | .ok report => if !report.deduped && d = report.docId then report.chunksPersisted else count d
  | .error _ => count d

def ingestDocument (cfg : Config) (nowMs : Int) (drains : String → Bool) (a : Archive)
    (file : Except Error IngestInput)
    (principal : Option String) : Archive × Except Error IngestReport :=
  let r := dispatchIngestDocument cfg nowMs drains a.lib file principal
  ({ a with lib := r.1, chunkCount := countAfter a.chunkCount r.2 }, r.2)

/-- What `prepare` reads of the attachments: the documents attached to a memory of another
principal. -/
def eraseScope (a : Archive) (principal : String) (scope : AssetScope) : AssetScope :=
  { scope with
    attachedElsewhere := (a.attachments.rows.filter fun r => a.lib.store.episodes.rows.any fun e =>
      e.memoryId = r.memoryId && e.principalSubject ≠ some principal).map (·.docId) }

/-- The cascades of `memory_attachments`. -/
def cascade (attachments : Table AttachmentRow) (s : Store) : Table AttachmentRow :=
  attachments.deleteWhere fun r =>
    !(s.episodes.rows.any fun e => e.memoryId = r.memoryId) ||
      !(s.documents.rows.any fun d => d.docId = r.docId)

def forgetPrincipal (cfg : Config) (a : Archive) (principal : String) (scope : AssetScope) :
    Archive × Except Error DeleteOutcome :=
  let r := Solo.forgetPrincipal cfg a.lib principal (a.eraseScope principal scope)
  ({ a with lib := r.1, attachments := cascade a.attachments r.1.store }, r.2)

end Archive

inductive ArchiveCommand
  | remember (nowMs : Int) (drains : String → Bool) (item : NewEpisode × Embedding) (principal :
    Option String)
  | ingestDocument (nowMs : Int) (drains : String → Bool) (file :
    Except Error IngestInput) (principal : Option String)
  | forgetDocument (docId : DocumentId)
  | attachMemory (attachmentId : String) (memoryId : MemoryId) (docId : DocumentId) (relationType :
    String)
  /-- The scope's documents that are attached elsewhere are read from the archive. -/
  | forgetPrincipal (principal : String) (scope : AssetScope)

namespace Archive

def step (cfg : Config) (a : Archive) : ArchiveCommand → Archive
  | .remember nowMs drains item principal =>
    { a with lib := (dispatchRemember cfg nowMs drains a.lib item principal).1 }
  | .ingestDocument nowMs drains file principal =>
    (a.ingestDocument cfg nowMs drains file principal).1
  | .forgetDocument d => { a with lib := (handleForgetDocument a.lib d).1 }
  | .attachMemory attachmentId m d relationType => (a.attachMemory attachmentId m d relationType).1
  | .forgetPrincipal principal scope => (a.forgetPrincipal cfg principal scope).1

/-! ### What is kept -/

/-- The positions of the stored chunks of a document. -/
def chunkIndexes (s : Store) (d : DocumentId) : List ℕ :=
  (s.documentChunks.rows.filter (·.docId = d)).map (·.chunkIndex)

/-- A document has as many chunks as it says, at least one, and they are numbered in order. -/
structure Complete (a : Archive) (d : DocumentId) : Prop where
  pos : 1 ≤ a.chunkCount d
  indexes : chunkIndexes a.lib.store d = List.range (a.chunkCount d)

structure Intact (a : Archive) : Prop where
  hash : ∀ d ∈ a.lib.store.documents, ∀ d' ∈ a.lib.store.documents, d.contentHash = d'.contentHash →
    d = d'
  complete : ∀ d ∈ a.lib.store.documents, d.status = .active → a.Complete d.docId

/-- What the reply to an ingestion promises: the document of that text, with its chunks unless it is
forgotten; and nothing after an error. -/
def Answered (file : Except Error IngestInput) (a a' : Archive) : Except Error IngestReport → Prop
  | .ok report => ∃ f, file = .ok f ∧ ∃ d ∈ a'.lib.store.documents, d.docId = report.docId ∧
      d.contentHash = some f.contentHash ∧ (d.status = .active → a'.Complete d.docId) ∧
      (report.deduped = false → d.status = .active ∧
        (a'.lib.store.documentChunks.rows.filter (·.docId = d.docId)).map (·.chunkId) = f.chunkIds)
  | .error _ => a'.lib.store.documents = a.lib.store.documents ∧
      a'.lib.store.documentChunks = a.lib.store.documentChunks ∧
      a'.lib.store.chunkEmbeddings = a.lib.store.chunkEmbeddings ∧
      a'.lib.store.pendingIndex = a.lib.store.pendingIndex

/-- Every ingestion is answered truthfully. -/
def Truthful (cfg : Config) (a : Archive) : ArchiveCommand → Prop
  | .ingestDocument nowMs drains file principal =>
    Answered file a (a.ingestDocument cfg nowMs drains file principal).1
      (a.ingestDocument cfg nowMs drains file principal).2
  | _ => True

/-- An erasure that goes through finds no active document with a chunk of the principal that is
attached to a memory of another principal. -/
def Careful (a : Archive) : ArchiveCommand → Prop
  | .forgetPrincipal principal scope =>
    Text.isBlank principal = false → scope.shared = false → scope.filesErased = true →
      ∀ d ∈ a.lib.store.documents, d.status = .active → ∀ c ∈ a.lib.store.documentChunks, c.docId =
      d.docId →
        c.ingestedByPrincipal = some principal →
        d.docId ∉ (a.eraseScope principal scope).attachedElsewhere
  | _ => True

/-! ### What a command does to the documents -/

variable {cfg : Config} {a a' : Archive}

/-- The documents, their chunks and their counts are as before. -/
structure Same (a a' : Archive) : Prop where
  documents : a'.lib.store.documents = a.lib.store.documents
  chunks : a'.lib.store.documentChunks = a.lib.store.documentChunks
  counts : a'.chunkCount = a.chunkCount

/-- A document of a text that was not there, with its chunks. -/
structure Added (a a' : Archive) (d : DocumentRow) (new : List ChunkRow)
    (principal : Option String) : Prop where
  hash : ∀ d' ∈ a.lib.store.documents, d'.contentHash ≠ d.contentHash
  documents : a.lib.store.documents.insert? d = some a'.lib.store.documents
  chunks : a'.lib.store.documentChunks.rows = a.lib.store.documentChunks.rows ++ new
  owned : ∀ c ∈ new, c.docId = d.docId ∧ c.ingestedByPrincipal = principal
  indexes : new.map (·.chunkIndex) = List.range new.length
  pos : 1 ≤ new.length
  counts : ∀ d', a'.chunkCount d' = if d' = d.docId then new.length else a.chunkCount d'

/-- A document is hidden. -/
structure Hidden (a a' : Archive) (d : DocumentId) : Prop where
  store : a'.lib.store = forgetDocumentRow a.lib.store d
  counts : a'.chunkCount = a.chunkCount

/-- A principal is erased. -/
structure Erased (a a' : Archive) (principal : String) (scope : AssetScope) : Prop where
  documents : ∀ d, d ∈ a'.lib.store.documents ↔ d ∈ a.lib.store.documents ∧
    a.lib.store.forgetDocs principal (a.eraseScope principal scope) d = false
  chunks : a'.lib.store.documentChunks.rows = a.lib.store.documentChunks.rows.filter fun c =>
    decide (c.ingestedByPrincipal ≠ some principal) && !(a.lib.store.documents.rows.any fun d =>
      a.lib.store.forgetDocs principal (a.eraseScope principal scope) d && d.docId = c.docId)
  counts : a'.chunkCount = a.chunkCount

theorem ingestChunks_spec {nowMs : Int} {principal : Option String} {docId : DocumentId}
    {s s' : Store} {idx : ℕ} {chunks : List (ChunkId × Embedding)} {rowids : List Rowid}
    (h : ingestChunks cfg nowMs principal docId s idx chunks = .ok (s', rowids)) :
    s'.documents = s.documents ∧ ∃ new, s'.documentChunks.rows = s.documentChunks.rows ++ new ∧
      (∀ c ∈ new, c.docId = docId ∧ c.ingestedByPrincipal = principal) ∧
      new.map (·.chunkIndex) = List.range' idx chunks.length ∧
      new.map (·.chunkId) = chunks.map (·.1) := by
  induction chunks generalizing s idx rowids with
  | nil =>
    cases h
    exact ⟨rfl, [], (List.append_nil _).symm, fun c hc => absurd hc List.not_mem_nil, rfl, rfl⟩
  | cons chunk chunks ih =>
    rw [ingestChunks] at h
    simp only [Result.bind_eq_ok, Result.pure_eq_ok, Prod.exists, Prod.mk.injEq] at h
    obtain ⟨s₁, rowid, h₁, s₂, rowids, h₂, rfl, -⟩ := h
    obtain ⟨hdocs, new, hrows, howned, hidx, hids⟩ := ih h₂
    unfold ingestChunk at h₁
    simp only [Result.bind_eq_ok, orStorage_eq_ok, Result.pure_eq_ok, Prod.mk.injEq] at h₁
    obtain ⟨r, -, table, htable, ems, -, pend, -, rfl, -⟩ := h₁
    refine ⟨hdocs, ⟨r, chunk.1, docId, idx, principal⟩ :: new, ?_, ?_, ?_, ?_⟩
    · rw [hrows, Table.insert?_rows htable, List.append_assoc]
      rfl
    · exact List.forall_mem_cons.2 ⟨⟨rfl, rfl⟩, howned⟩
    · rw [List.map_cons, hidx, List.length_cons, List.range'_succ]
    · rw [List.map_cons, hids]
      rfl

/-- An ingestion fails, finds the text, or adds it. -/
theorem ingestDocument_cases (cfg : Config) (nowMs : Int) (drains : String → Bool) (a : Archive)
    (file : Except Error IngestInput) (principal : Option String) :
    (∃ e, (a.ingestDocument cfg nowMs drains file principal).2 = .error e ∧
        (a.ingestDocument cfg nowMs drains file principal).1 = a) ∨
      (∃ f d, file = .ok f ∧ d ∈ a.lib.store.documents ∧ d.contentHash = some f.contentHash ∧
        (a.ingestDocument cfg nowMs drains file principal).2 = .ok ⟨d.docId, 0, true⟩ ∧
        (a.ingestDocument cfg nowMs drains file principal).1 = a) ∨
      ∃ f new, file = .ok f ∧
        Added a (a.ingestDocument cfg nowMs drains file principal).1
        ⟨f.docId, .active, some f.contentHash⟩ new
          principal ∧
        (a.ingestDocument cfg nowMs drains file principal).2 =
        .ok ⟨f.docId, f.chunkIds.length, false⟩ ∧ new.map (·.chunkId) = f.chunkIds := by
  have hsame (reply : Except Error IngestReport)
      (h : ∀ report, reply = .ok report → report.deduped = true) :
      countAfter a.chunkCount reply = a.chunkCount := by
    funext d
    cases reply with
    | error e => rfl
    | ok report => simp [countAfter, h report rfl]
  have herror {e : Error}
      (h : dispatchIngestDocument cfg nowMs drains a.lib file principal = (a.lib, .error e)) :
      ∃ e, (a.ingestDocument cfg nowMs drains file principal).2 = .error e ∧
        (a.ingestDocument cfg nowMs drains file principal).1 = a := by
    refine ⟨e, by rw [ingestDocument, h], ?_⟩
    rw [ingestDocument, h, hsame _ fun report heq => by cases heq]
  cases file with
  | error e => exact .inl (herror rfl)
  | ok f =>
    cases hfound : a.lib.store.documents.find? fun d => d.contentHash = some f.contentHash with
    | some d =>
      obtain ⟨hd, hhash⟩ := Table.find?_mem hfound
      have hdispatch : dispatchIngestDocument cfg nowMs drains a.lib (.ok f) principal =
          (a.lib, .ok ⟨d.docId, 0, true⟩) := by
        rw [dispatchIngestDocument, hfound]
      refine .inr
        (.inl ⟨f, d, rfl, hd, by simpa using hhash, by rw [ingestDocument, hdispatch], ?_⟩)
      rw [ingestDocument, hdispatch, hsame _ fun report heq => by rw [← Except.ok.inj heq]]
    | none =>
      have hdispatch : dispatchIngestDocument cfg nowMs drains a.lib (.ok f) principal =
          dispatchIngestDocument cfg nowMs drains a.lib (.ok f) principal := rfl
      conv at hdispatch => rhs; rw [dispatchIngestDocument, hfound]
      dsimp only at hdispatch
      split at hdispatch
      · exact .inl (herror hdispatch)
      next hchunks =>
      cases hemb : f.embeddings with
      | error e =>
        rw [hemb] at hdispatch
        exact .inl (herror hdispatch)
      | ok embeddings =>
        rw [hemb] at hdispatch
        dsimp only at hdispatch
        split at hdispatch
        · exact .inl (herror hdispatch)
        next hlen =>
        split at hdispatch
        · exact .inl (herror hdispatch)
        cases hrows : ingestRows cfg nowMs principal a.lib.store f embeddings with
        | error e =>
          rw [hrows] at hdispatch
          exact .inl (herror hdispatch)
        | ok r =>
          obtain ⟨store, rowids⟩ := r
          rw [hrows] at hdispatch
          dsimp only at hdispatch
          unfold ingestRows at hrows
          simp only [Result.bind_eq_ok, orStorage_eq_ok] at hrows
          obtain ⟨docs, hdocs, hrows⟩ := hrows
          obtain ⟨hstore, new, hnew, howned, hidx, hids⟩ := ingestChunks_spec hrows
          have hlen : embeddings.length = f.chunkIds.length := not_not.1 hlen
          have hzip : (f.chunkIds.zip embeddings).length = f.chunkIds.length := by
            rw [List.length_zip, hlen, Nat.min_self]
          have hcount : new.length = f.chunkIds.length := by
            rw [← hzip, ← List.length_map (f := fun c : ChunkRow => c.chunkIndex), hidx,
              List.length_range']
          refine .inr (.inr ⟨f, new, rfl, ⟨?_, ?_, ?_, howned, ?_, ?_, ?_⟩, ?_, ?_⟩)
          · intro d hd hhash
            have hno := Table.find?_eq_none.1 hfound d hd
            rw [decide_eq_false_iff_not] at hno
            exact hno hhash
          · rw [ingestDocument, hdispatch]
            exact hdocs.trans (congrArg some hstore.symm)
          · rw [ingestDocument, hdispatch]
            exact hnew
          · rw [hidx, hzip, hcount, List.range_eq_range']
          · rw [hcount]
            refine List.length_pos_iff.2 fun hnil => hchunks ?_
            rw [hnil]
            rfl
          · intro d'
            rw [ingestDocument, hdispatch, hcount]
            simp [countAfter]
          · rw [ingestDocument, hdispatch]
          · rw [hids, List.map_fst_zip]
            exact Nat.le_of_eq hlen.symm

theorem dispatchRemember_same (cfg : Config) (nowMs : Int) (drains : String → Bool) (lib : Library)
    (item : NewEpisode × Embedding) (principal : Option String) :
    (dispatchRemember cfg nowMs drains lib item principal).1.store.documents = lib.store.documents ∧
      (dispatchRemember cfg nowMs drains lib item principal).1.store.documentChunks =
      lib.store.documentChunks := by
  have hhandle : (handleRemember cfg nowMs lib item principal).1.store.documents =
      lib.store.documents ∧
      (handleRemember cfg nowMs lib item principal).1.store.documentChunks =
      lib.store.documentChunks := by
    unfold handleRemember
    split
    · exact ⟨rfl, rfl⟩
    cases hrow : rememberRow cfg nowMs principal lib.store item with
    | error e => exact ⟨rfl, rfl⟩
    | ok r =>
      obtain ⟨store, rowid⟩ := r
      obtain ⟨-, -, hdocs, hchunks⟩ := Store.rememberRow_eq_ok hrow
      dsimp only
      split
      · exact ⟨hdocs, hchunks⟩
      · split
        · exact ⟨hdocs, hchunks⟩
        · exact ⟨hdocs, hchunks⟩
  unfold dispatchRemember
  generalize handleRemember cfg nowMs lib item principal = r at hhandle ⊢
  obtain ⟨lib', reply⟩ := r
  cases reply with
  | error e => exact hhandle
  | ok m => exact hhandle

theorem attachMemory_same (a : Archive) (attachmentId : String) (m : MemoryId) (d : DocumentId)
    (relationType : String) : Same a (a.attachMemory attachmentId m d relationType).1 := by
  unfold attachMemory
  dsimp only
  split
  · exact ⟨rfl, rfl, rfl⟩
  split
  · exact ⟨rfl, rfl, rfl⟩
  split
  · exact ⟨rfl, rfl, rfl⟩
  · exact ⟨rfl, rfl, rfl⟩

theorem forgetDocument_cases (cfg : Config) (a : Archive) (d : DocumentId) :
    Same a (a.step cfg (.forgetDocument d)) ∨ Hidden a (a.step cfg (.forgetDocument d)) d := by
  unfold step
  dsimp only
  unfold handleForgetDocument
  cases a.lib.store.document? d with
  | none => exact .inl ⟨rfl, rfl, rfl⟩
  | some row => exact .inr ⟨rfl, rfl⟩

/-- The store after an erasure. -/
theorem forgetPrincipal_store (cfg : Config) (lib : Library) (principal : String)
    (scope : AssetScope) : (∀ e, deletePrincipalRows lib.store principal scope = .error e →
        (Solo.forgetPrincipal cfg lib principal scope).1.store = lib.store) ∧
      ∀ s outcome, deletePrincipalRows lib.store principal scope = .ok (s, outcome) →
        (Solo.forgetPrincipal cfg lib principal scope).1.store = s := by
  unfold Solo.forgetPrincipal handleForgetPrincipalRows
  constructor
  · intro e he
    rw [he]
  · intro s outcome hs
    rw [hs]
    dsimp only
    split <;> rfl

/-- An erasure goes through, or nothing is erased. -/
theorem forgetPrincipal_cases (cfg : Config) (a : Archive) (principal : String)
    (scope : AssetScope) :
    (¬ (Text.isBlank principal = false ∧ scope.shared = false ∧ scope.filesErased = true) ∧
        Same a (a.forgetPrincipal cfg principal scope).1) ∨
      (Text.isBlank principal = false ∧ scope.shared = false ∧ scope.filesErased = true) ∧
        Erased a (a.forgetPrincipal cfg principal scope).1 principal scope := by
  obtain ⟨herror, hok⟩ := forgetPrincipal_store cfg a.lib principal (a.eraseScope principal scope)
  cases hrows : deletePrincipalRows a.lib.store principal (a.eraseScope principal scope) with
  | error e =>
    have hstore := herror e hrows
    refine .inl ⟨?_, ?_, ?_, rfl⟩
    · rintro ⟨hblank, hshared, hfiles⟩
      have hok : deletePrincipalRows a.lib.store principal (a.eraseScope principal scope) ≠
          .error e := by
        unfold deletePrincipalRows eraseScope
        simp only [hblank, hshared, hfiles]
        exact fun h => by cases h
      exact hok hrows
    · rw [forgetPrincipal, hstore]
    · rw [forgetPrincipal, hstore]
  | ok r =>
    obtain ⟨s, outcome⟩ := r
    have hstore := hok s outcome hrows
    right
    unfold deletePrincipalRows at hrows
    split at hrows
    · cases hrows
    next hblank =>
    split at hrows
    · cases hrows
    next hshared =>
    split at hrows
    · cases hrows
    next hfiles =>
    simp only [Except.ok.injEq, Prod.mk.injEq] at hrows
    obtain ⟨rfl, -⟩ := hrows
    refine ⟨⟨eq_false_of_ne_true hblank, eq_false_of_ne_true hshared, ?_⟩, ?_, ?_, rfl⟩
    · change (!scope.filesErased) ≠ true at hfiles
      simpa using hfiles
    · intro d
      rw [forgetPrincipal, hstore]
      exact Table.mem_deleteWhere
    · rw [forgetPrincipal, hstore]
      refine (List.filter_filter ..).trans (List.filter_congr fun c _ => ?_)
      rw [Bool.and_comm, decide_not]
      rfl

theorem step_cases (cfg : Config) (a : Archive) (c : ArchiveCommand) :
    Same a (a.step cfg c) ∨
    (∃ d new principal, d.status = .active ∧ Added a (a.step cfg c) d new principal) ∨
      (∃ d, Hidden a (a.step cfg c) d) ∨ ∃ principal scope, c = .forgetPrincipal principal scope ∧
        (Text.isBlank principal = false ∧ scope.shared = false ∧ scope.filesErased = true) ∧
        Erased a (a.step cfg c) principal scope := by
  cases c with
  | remember nowMs drains item principal =>
    obtain ⟨hdocs, hchunks⟩ := dispatchRemember_same cfg nowMs drains a.lib item principal
    exact .inl ⟨hdocs, hchunks, rfl⟩
  | ingestDocument nowMs drains file principal =>
    rcases ingestDocument_cases cfg nowMs drains a file principal with
      ⟨e, -, hsame⟩ | ⟨f, d, -, -, -, -, hsame⟩ | ⟨f, new, -, hadded, -, -⟩
    · rw [step, hsame]
      exact .inl ⟨rfl, rfl, rfl⟩
    · rw [step, hsame]
      exact .inl ⟨rfl, rfl, rfl⟩
    · exact .inr (.inl ⟨_, new, principal, rfl, hadded⟩)
  | forgetDocument d => exact (forgetDocument_cases cfg a d).imp_right fun h => .inr (.inl ⟨d, h⟩)
  | attachMemory attachmentId m d relationType =>
    exact .inl (attachMemory_same a attachmentId m d relationType)
  | forgetPrincipal principal scope =>
    rcases forgetPrincipal_cases cfg a principal scope with ⟨-, hsame⟩ | ⟨hgoes, herased⟩
    · exact .inl hsame
    · exact .inr (.inr (.inr ⟨principal, scope, rfl, hgoes, herased⟩))

/-! ### The invariant -/

/-- What every command keeps: one document for a text, chunks of documents that are there, one owner
for all chunks of a document. -/
structure Inv (a : Archive) : Prop where
  hash : ∀ d ∈ a.lib.store.documents, ∀ d' ∈ a.lib.store.documents, d.contentHash = d'.contentHash →
    d = d'
  owned : ∀ c ∈ a.lib.store.documentChunks, ∃ d ∈ a.lib.store.documents, d.docId = c.docId
  owner : ∀ c ∈ a.lib.store.documentChunks, ∀ c' ∈ a.lib.store.documentChunks, c.docId = c'.docId →
    c.ingestedByPrincipal = c'.ingestedByPrincipal

theorem docId_inj {s : Store} {d d' : DocumentRow} (hd : d ∈ s.documents) (hd' : d' ∈ s.documents)
    (h : d.docId = d'.docId) : d = d' :=
  Table.eq_of_clash hd hd' (by simpa [Keyed.clash] using h)

theorem Added.fresh {d : DocumentRow} {new : List ChunkRow} {principal : Option String}
    (h : Added a a' d new principal)
    {d' : DocumentRow} (hd' : d' ∈ a.lib.store.documents) : d'.docId ≠ d.docId := by
  have hclash := Table.insert?_fresh h.documents hd'
  simpa [Keyed.clash] using hclash

theorem Inv.added (hinv : Inv a) {d : DocumentRow} {new : List ChunkRow} {principal : Option String}
    (h : Added a a' d new principal) : Inv a' := by
  have hdocs {d' : DocumentRow} : d' ∈ a'.lib.store.documents ↔ d' ∈ a.lib.store.documents ∨
      d' = d :=
    Table.mem_insert h.documents
  have hchunks {c : ChunkRow} : c ∈ a'.lib.store.documentChunks ↔ c ∈ a.lib.store.documentChunks ∨
      c ∈ new := by
    rw [← Table.mem_rows, h.chunks, List.mem_append, Table.mem_rows]
  have hnot {c : ChunkRow} (hc : c ∈ a.lib.store.documentChunks) : c.docId ≠ d.docId := by
    obtain ⟨d', hd', heq⟩ := hinv.owned c hc
    exact heq ▸ h.fresh hd'
  refine ⟨fun d₁ h₁ d₂ h₂ heq => ?_, fun c hc => ?_, fun c hc c' hc' heq => ?_⟩
  · rcases hdocs.1 h₁ with h₁ | rfl <;> rcases hdocs.1 h₂ with h₂ | rfl
    · exact hinv.hash d₁ h₁ d₂ h₂ heq
    · exact absurd heq (h.hash d₁ h₁)
    · exact absurd heq.symm (h.hash d₂ h₂)
    · rfl
  · rcases hchunks.1 hc with hc | hc
    · obtain ⟨d', hd', heq⟩ := hinv.owned c hc
      exact ⟨d', hdocs.2 (.inl hd'), heq⟩
    · exact ⟨d, hdocs.2 (.inr rfl), (h.owned c hc).1.symm⟩
  · rcases hchunks.1 hc with hc | hc <;> rcases hchunks.1 hc' with hc' | hc'
    · exact hinv.owner c hc c' hc' heq
    · exact absurd (heq.trans (h.owned c' hc').1) (hnot hc)
    · exact absurd (heq.symm.trans (h.owned c hc).1) (hnot hc')
    · rw [(h.owned c hc).2, (h.owned c' hc').2]

theorem mem_forgetDocumentRow {s : Store} {d : DocumentId} {r : DocumentRow} :
    r ∈ (forgetDocumentRow s d).documents ↔
      ∃ b ∈ s.documents, r = (if b.docId = d then { b with status := .forgotten } else b) := by
  unfold forgetDocumentRow
  rw [Table.mem_updateWhere]
  refine exists_congr fun b => and_congr_right fun _ => ?_
  rw [eq_comm]
  simp only [decide_eq_true_eq]

theorem Inv.hidden (hinv : Inv a) {d : DocumentId} (h : Hidden a a' d) : Inv a' := by
  have hdoc {r : DocumentRow} (hr : r ∈ a'.lib.store.documents) :
      ∃ b ∈ a.lib.store.documents, b.docId = r.docId ∧ b.contentHash = r.contentHash ∧
        r = (if b.docId = d then { b with status := .forgotten } else b) := by
    rw [h.store] at hr
    obtain ⟨b, hb, rfl⟩ := mem_forgetDocumentRow.1 hr
    refine ⟨b, hb, ?_, ?_, rfl⟩ <;> split <;> rfl
  have hchunks : a'.lib.store.documentChunks = a.lib.store.documentChunks := by
    rw [h.store]
    rfl
  refine ⟨fun d₁ h₁ d₂ h₂ heq => ?_, fun c hc => ?_, ?_⟩
  · obtain ⟨b₁, hb₁, -, hhash₁, heq₁⟩ := hdoc h₁
    obtain ⟨b₂, hb₂, -, hhash₂, heq₂⟩ := hdoc h₂
    obtain rfl := hinv.hash b₁ hb₁ b₂ hb₂ (by rw [hhash₁, hhash₂, heq])
    rw [heq₁, heq₂]
  · rw [hchunks] at hc
    obtain ⟨b, hb, heq⟩ := hinv.owned c hc
    refine ⟨if b.docId = d then { b with status := .forgotten } else b, ?_, ?_⟩
    · rw [h.store]
      exact mem_forgetDocumentRow.2 ⟨b, hb, rfl⟩
    · rw [← heq]
      split <;> rfl
  · rw [hchunks]
    exact hinv.owner

theorem Erased.mem_chunks {principal : String} {scope : AssetScope}
    (h : Erased a a' principal scope) {c : ChunkRow} :
    c ∈ a'.lib.store.documentChunks ↔ c ∈ a.lib.store.documentChunks ∧
    c.ingestedByPrincipal ≠ some principal ∧
      ∀ d ∈ a.lib.store.documents, a.lib.store.forgetDocs principal (a.eraseScope principal scope)
      d = true →
        d.docId ≠ c.docId := by
  rw [← Table.mem_rows, h.chunks, List.mem_filter, Bool.and_eq_true, decide_eq_true_eq,
    Bool.not_eq_true', List.any_eq_false]
  simp only [Bool.and_eq_true, decide_eq_true_eq, not_and, Table.mem_rows, ne_eq]

theorem Inv.erased (hinv : Inv a) {principal : String} {scope : AssetScope}
    (h : Erased a a' principal scope) : Inv a' := by
  refine ⟨fun d₁ h₁ d₂ h₂ => ?_, fun c hc => ?_, fun c hc c' hc' => ?_⟩
  · exact hinv.hash d₁ ((h.documents d₁).1 h₁).1 d₂ ((h.documents d₂).1 h₂).1
  · obtain ⟨hc, -, hdeleted⟩ := h.mem_chunks.1 hc
    obtain ⟨d, hd, heq⟩ := hinv.owned c hc
    exact ⟨d, (h.documents d).2 ⟨hd, eq_false_of_ne_true fun hgone => hdeleted d hd hgone heq⟩, heq⟩
  · exact hinv.owner c (h.mem_chunks.1 hc).1 c' (h.mem_chunks.1 hc').1

theorem Inv.step (hinv : Inv a) (c : ArchiveCommand) : Inv (a.step cfg c) := by
  rcases step_cases cfg a c with h | ⟨d, new, principal, -, h⟩ | ⟨d, h⟩ | ⟨principal, scope, -, -,
    h⟩
  · obtain ⟨hdocs, hchunks, -⟩ := h
    refine ⟨?_, ?_, ?_⟩
    · rw [hdocs]
      exact hinv.hash
    · rw [hdocs, hchunks]
      exact hinv.owned
    · rw [hchunks]
      exact hinv.owner
  · exact hinv.added h
  · exact hinv.hidden h
  · exact hinv.erased h

/-! ### Complete documents -/

theorem chunkIndexes_congr {s s' : Store} {d : DocumentId}
    (h : s'.documentChunks.rows.filter (·.docId = d) = s.documentChunks.rows.filter (·.docId = d)) :
    chunkIndexes s' d = chunkIndexes s d := by
  rw [chunkIndexes, h, chunkIndexes]

theorem Intact.added (hinv : Inv a) (hintact : Intact a) {d : DocumentRow} {new : List ChunkRow}
    {principal : Option String} (h : Added a a' d new principal) : Intact a' ∧
    a'.Complete d.docId := by
  have hold : a.lib.store.documentChunks.rows.filter (·.docId = d.docId) = [] := by
    rw [List.filter_eq_nil_iff]
    intro c hc
    obtain ⟨d', hd', heq⟩ := hinv.owned c hc
    rw [decide_eq_true_eq, ← heq]
    exact h.fresh hd'
  have hnew : new.filter (·.docId = d.docId) = new :=
    List.filter_eq_self.2 fun c hc => decide_eq_true (h.owned c hc).1
  have hcomplete : a'.Complete d.docId := by
    have hcount := h.counts d.docId
    rw [if_pos rfl] at hcount
    refine ⟨hcount ▸ h.pos, ?_⟩
    rw [hcount, chunkIndexes, h.chunks, List.filter_append, hold, hnew, List.nil_append, h.indexes]
  refine ⟨⟨(hinv.added h).hash, fun d' hd' hactive => ?_⟩, hcomplete⟩
  rcases (Table.mem_insert h.documents).1 hd' with hd' | rfl
  · have hne := h.fresh hd'
    have hcount := h.counts d'.docId
    rw [if_neg hne] at hcount
    have hno : new.filter (·.docId = d'.docId) = [] := by
      rw [List.filter_eq_nil_iff]
      intro c hc
      rw [decide_eq_true_eq, (h.owned c hc).1]
      exact hne.symm
    obtain ⟨hpos, hindexes⟩ := hintact.complete d' hd' hactive
    refine ⟨hcount ▸ hpos, ?_⟩
    rw [hcount, ← hindexes]
    exact chunkIndexes_congr (by rw [h.chunks, List.filter_append, hno, List.append_nil])
  · exact hcomplete

theorem Intact.hidden (hinv : Inv a) (hintact : Intact a) {d : DocumentId} (h : Hidden a a' d) :
    Intact a' := by
  refine ⟨(hinv.hidden h).hash, fun r hr hactive => ?_⟩
  rw [h.store] at hr
  obtain ⟨b, hb, rfl⟩ := mem_forgetDocumentRow.1 hr
  split at hactive
  · cases hactive
  next hne =>
  rw [if_neg hne]
  obtain ⟨hpos, hindexes⟩ := hintact.complete b hb hactive
  refine ⟨by rwa [h.counts], ?_⟩
  rw [h.counts, ← hindexes, h.store]
  rfl

/-- Of a document that survives, an erasure deletes the chunks of the principal. -/
theorem Erased.complete_iff (hinv : Inv a) {principal : String} {scope : AssetScope}
    (h : Erased a a' principal scope)
    {d : DocumentRow} (hd : d ∈ a'.lib.store.documents) (hcomplete : a.Complete d.docId) :
    a'.Complete d.docId ↔
      ∀ c ∈ a.lib.store.documentChunks, c.docId = d.docId →
      c.ingestedByPrincipal ≠ some principal := by
  obtain ⟨hold, hstays⟩ := (h.documents d).1 hd
  obtain ⟨hpos, hindexes⟩ := hcomplete
  constructor
  · rintro ⟨-, hindexes'⟩ c hc hdoc hmine
    -- a chunk that is left has the same owner as the one that went
    rw [h.counts, ← hindexes] at hindexes'
    have hne : chunkIndexes a.lib.store d.docId ≠ [] := by
      rw [hindexes, Ne, List.range_eq_nil]
      omega
    rw [← hindexes'] at hne
    obtain ⟨i, hi⟩ := List.exists_mem_of_ne_nil _ hne
    obtain ⟨c', hc', -⟩ := List.mem_map.1 hi
    obtain ⟨hc', hdoc'⟩ := List.mem_filter.1 hc'
    rw [decide_eq_true_eq] at hdoc'
    obtain ⟨hc', hother, -⟩ := h.mem_chunks.1 (Table.mem_rows.1 hc')
    exact hother ((hinv.owner c' hc' c hc (hdoc'.trans hdoc.symm)).trans hmine)
  · intro hothers
    refine ⟨by rwa [h.counts], ?_⟩
    rw [h.counts, ← hindexes]
    refine chunkIndexes_congr ?_
    rw [h.chunks, List.filter_filter]
    refine List.filter_congr fun c hc => ?_
    by_cases hdoc : c.docId = d.docId
    · have hnot : (a.lib.store.documents.rows.any fun d =>
          a.lib.store.forgetDocs principal (a.eraseScope principal scope) d && d.docId = c.docId) =
            false := by
        rw [List.any_eq_false]
        intro d' hd' hgone
        rw [Bool.and_eq_true, decide_eq_true_eq] at hgone
        obtain rfl := docId_inj (Table.mem_rows.1 hd') hold (hgone.2.trans hdoc)
        rw [hstays] at hgone
        cases hgone.1
      rw [hnot, decide_eq_true (hothers c hc hdoc)]
      simp [hdoc]
    · simp [hdoc]

/-- Where all chunks of a document are the principal's, it goes with them unless it is attached
elsewhere. -/
theorem forgetDocs_iff (hinv : Inv a) {principal : String} (scope : AssetScope) {d : DocumentRow}
    {c : ChunkRow}
    (hc : c ∈ a.lib.store.documentChunks) (hdoc : c.docId = d.docId)
    (hmine : c.ingestedByPrincipal = some principal) :
    a.lib.store.forgetDocs principal (a.eraseScope principal scope) d = true ↔
      d.docId ∉ (a.eraseScope principal scope).attachedElsewhere := by
  have hsome : (a.lib.store.documentChunks.rows.any fun c =>
      c.docId = d.docId && c.ingestedByPrincipal = some principal) = true :=
    List.any_eq_true.2 ⟨c, hc, by simp [hdoc, hmine]⟩
  have hnone : (a.lib.store.documentChunks.rows.any fun c =>
      c.docId = d.docId && c.ingestedByPrincipal ≠ some principal) = false := by
    rw [List.any_eq_false]
    intro c' hc' hother
    rw [Bool.and_eq_true, decide_eq_true_eq, decide_eq_true_eq] at hother
    exact hother.2 ((hinv.owner c' hc' c hc (hother.1.trans hdoc.symm)).trans hmine)
  rw [Store.forgetDocs, hsome, hnone]
  simp

theorem Intact.erased (hinv : Inv a) (hintact : Intact a) {principal : String} {scope : AssetScope}
    (h : Erased a a' principal scope)
    (hcareful : ∀ d ∈ a.lib.store.documents, d.status = .active → ∀ c ∈ a.lib.store.documentChunks,
      c.docId = d.docId → c.ingestedByPrincipal = some principal →
      d.docId ∉ (a.eraseScope principal scope).attachedElsewhere) : Intact a' := by
  refine ⟨(hinv.erased h).hash, fun d hd hactive => ?_⟩
  obtain ⟨hold, hstays⟩ := (h.documents d).1 hd
  refine (h.complete_iff hinv hd (hintact.complete d hold hactive)).2 fun c hc hdoc hmine => ?_
  have hgone :=
    (forgetDocs_iff hinv scope hc hdoc hmine).2 (hcareful d hold hactive c hc hdoc hmine)
  rw [hstays] at hgone
  cases hgone

theorem Intact.step (hinv : Inv a) (hintact : Intact a) {c : ArchiveCommand}
    (hcareful : Careful a c) : Intact (a.step cfg c) := by
  rcases step_cases cfg a c with
    h | ⟨d, new, principal, -, h⟩ | ⟨d, h⟩ | ⟨principal, scope, rfl, ⟨hblank, hshared, hfiles⟩, h⟩
  · refine ⟨(hinv.step c).hash, fun d hd hactive => ?_⟩
    rw [h.documents] at hd
    obtain ⟨hpos, hindexes⟩ := hintact.complete d hd hactive
    refine ⟨by rwa [h.counts], ?_⟩
    rw [h.counts, ← hindexes]
    exact chunkIndexes_congr (by rw [h.chunks])
  · exact (hintact.added hinv h).1
  · exact hintact.hidden hinv h
  · exact hintact.erased hinv h (hcareful hblank hshared hfiles)

/-- A step between archives that are intact is careful. -/
theorem Careful.of_intact (hinv : Inv a) (hintact : Intact a) {c : ArchiveCommand}
    (hafter : Intact (a.step cfg c)) : Careful a c := by
  cases c with
  | forgetPrincipal principal scope =>
    intro hblank hshared hfiles d hd hactive c hc hdoc hmine hattached
    have hstays : a.lib.store.forgetDocs principal (a.eraseScope principal scope) d = false :=
      eq_false_of_ne_true fun hgone => (forgetDocs_iff hinv scope hc hdoc hmine).1 hgone hattached
    rcases forgetPrincipal_cases cfg a principal scope with ⟨hnot, -⟩ | ⟨-, h⟩
    · exact hnot ⟨hblank, hshared, hfiles⟩
    · have hd' := (h.documents d).2 ⟨hd, hstays⟩
      exact (h.complete_iff hinv hd' (hintact.complete d hd hactive)).1
        (hafter.complete d hd' hactive) c hc hdoc hmine
  | _ => trivial

/-- In an intact archive every ingestion is answered truthfully. -/
theorem truthful (hinv : Inv a) (hintact : Intact a) (c : ArchiveCommand) : Truthful cfg a c := by
  cases c with
  | ingestDocument nowMs drains file principal =>
    change Answered file a (a.ingestDocument cfg nowMs drains file principal).1
      (a.ingestDocument cfg nowMs drains file principal).2
    rcases ingestDocument_cases cfg nowMs drains a file principal with
      ⟨e, hreply, hsame⟩ | ⟨f, d, rfl, hd, hhash, hreply, hsame⟩ | ⟨f, new, rfl, hadded, hreply,
        hids⟩
    · rw [hreply, hsame]
      exact ⟨rfl, rfl, rfl, rfl⟩
    · rw [hreply, hsame]
      exact ⟨f, rfl, d, hd, rfl, hhash, hintact.complete d hd, fun h => by cases h⟩
    · rw [hreply]
      refine ⟨f, rfl, _, (Table.mem_insert hadded.documents).2 (.inr rfl), rfl, rfl,
        fun _ => (hintact.added hinv hadded).2, fun _ => ⟨rfl, ?_⟩⟩
      rw [← hids, hadded.chunks, List.filter_append, List.filter_eq_nil_iff.2, List.nil_append,
        List.filter_eq_self.2]
      · exact fun c hc => decide_eq_true (hadded.owned c hc).1
      · intro c hc
        obtain ⟨d', hd', heq⟩ := hinv.owned c hc
        rw [decide_eq_true_eq, ← heq]
        exact hadded.fresh hd'
  | _ => trivial

theorem inv_new (cfg : Config) : Inv (new cfg) :=
  ⟨fun _ hd => absurd hd Table.not_mem_empty, fun _ hc => absurd hc Table.not_mem_empty,
    fun _ hc => absurd hc Table.not_mem_empty⟩

theorem intact_new (cfg : Config) : Intact (new cfg) :=
  ⟨fun _ hd => absurd hd Table.not_mem_empty, fun _ hd => absurd hd Table.not_mem_empty⟩

/-- In every run from an empty archive the documents are intact in every state, and every ingestion
is answered truthfully, exactly when every erasure is careful. -/
theorem intact_iff (cfg : Config) (commands : List ArchiveCommand) :
    (Run.Always (step cfg) Intact (new cfg) commands ∧
      Run.Guarded (step cfg) (Truthful cfg) (new cfg) commands) ↔
      Run.Guarded (step cfg) Careful (new cfg) commands := by
  constructor
  · rintro ⟨halways, -⟩
    exact halways.guarded Inv (fun a c h => h.step c)
      (fun a c hinv h hafter => .of_intact hinv h hafter) (inv_new cfg)
  · intro hcareful
    have hstep (a : Archive) (c : ArchiveCommand) (h : Inv a ∧ Intact a) (hc : Careful a c) :
        Inv (a.step cfg c) ∧ Intact (a.step cfg c) := ⟨h.1.step c, h.2.step h.1 hc⟩
    refine ⟨hcareful.always _ hstep (fun a h => h.2) ⟨inv_new cfg, intact_new cfg⟩, ?_⟩
    exact (hcareful.strengthen _ hstep ⟨inv_new cfg, intact_new cfg⟩).mono fun a c h =>
      truthful h.1.1 h.1.2 c

def oneChunk : ArchiveCommand :=
  .ingestDocument 0 (fun _ => true) (.ok ⟨"hash", "d", ["c"], .ok [Session.embOne]⟩) (some "alice")

/-- Bob attaches a document of Alice to a memory of his, and Alice is erased. -/
def sharedErasure : List ArchiveCommand :=
  [.remember 0 (fun _ => true) (⟨"m", 0, .hot⟩, Session.embOne) (some "bob"), oneChunk,
    .attachMemory "x" "m" "d" "related", .forgetPrincipal "alice" ⟨[], [], false, true, 0, 0⟩]

/-- The document stays active without a chunk, and its text is taken for stored. -/
theorem sharedErasure_not_intact :
    ¬ Run.Always (step Session.cfgOne) Intact (new Session.cfgOne) sharedErasure ∧
      (Run.run (step Session.cfgOne) (new Session.cfgOne)
        sharedErasure).lib.store.documentChunks.rows = [] ∧
      ((Run.run (step Session.cfgOne) (new Session.cfgOne) sharedErasure).ingestDocument
        Session.cfgOne 0 (fun _ => true)
        (.ok ⟨"hash", "e", ["f"], .ok [Session.embOne]⟩) (some "bob")).2 = .ok ⟨"d", 0, true⟩ := by
  have hdocs :
      (Run.run (step Session.cfgOne) (new Session.cfgOne) sharedErasure).lib.store.documents.rows =
      [⟨"d", .active, some "hash"⟩] := by decide +kernel
  have hchunks :
      (Run.run (step Session.cfgOne) (new Session.cfgOne)
        sharedErasure).lib.store.documentChunks.rows = [] := by
    decide +kernel
  refine ⟨fun h => ?_, hchunks, by decide +kernel⟩
  have hd : (⟨"d", .active, some "hash"⟩ : DocumentRow) ∈
      (Run.run (step Session.cfgOne) (new Session.cfgOne) sharedErasure).lib.store.documents := by
    rw [← Table.mem_rows, hdocs]
    exact List.mem_singleton.2 rfl
  obtain ⟨hpos, hindexes⟩ := h.last.complete _ hd rfl
  rw [chunkIndexes, hchunks, List.filter_nil, List.map_nil] at hindexes
  have hzero := List.range_eq_nil.1 hindexes.symm
  omega

end Archive

end Solo
