import Solo.Store.Outcomes

/-!
# One audit event for each command

`AuditedOnce` compares the events of a command's own operation with its reply. The event in the
transaction stands for `Ok`, the dispatcher's for `Err`; the handler's `Forbidden` event for a quota
is followed by the dispatcher's, and so is the `Ok` event of a `Remember` that the index then
refuses.
-/

namespace Solo

/-- The audit result that a reply stands for. -/
def outcome {α : Type} : Except Error α → AuditResult
  | .ok _ => .ok
  | .error (.forbidden _) => .forbidden
  | .error _ => .error

namespace AuditedLibrary

/-- The results of a command's own events. -/
def results (op : AuditOperation) (events : List AuditEvent) : List AuditResult :=
  (events.filter fun e => e.operation = op).map (·.result)

/-- Exactly one event of the operation, which agrees with the reply. -/
def AuditedOnce {α : Type} (op : AuditOperation) (s : AuditedLibrary)
    (out : AuditedLibrary × Except Error α) : Prop :=
  ∃ events, out.1.audit = s.audit ++ events ∧ results op events = [outcome out.2]

variable {α : Type} {s s' : AuditedLibrary} {env : WriterEnv} {principal : Option String}
  {op : AuditOperation} {events : List AuditEvent}

/-! ### Events -/

theorem auditedOnce_iff {out : AuditedLibrary × Except Error α}
    (h : out.1.audit = s.audit ++ events) :
    AuditedOnce op s out ↔ results op events = [outcome out.2] := by
  constructor
  · rintro ⟨events', h', hr⟩
    obtain rfl := List.append_cancel_left (h.symm.trans h')
    exact hr
  · exact fun hr => ⟨events, h, hr⟩

theorem results_append (l l' : List AuditEvent) : results op (l ++ l') = results op l ++
    results op l' := by
  simp [results]

theorem results_singleton {e : AuditEvent} (h : e.operation = op) :
    results op [e] = [e.result] := by
  simp [results, h]

theorem results_redactionRows (hop : op ≠ .redactionApplied) (nowMs : Int)
    (principal targetId : Option String)
    (found : List (String × ℕ)) : results op (redactionRows nowMs principal targetId found) =
    [] := by
  unfold redactionRows
  split
  · rfl
  · simp [results, redactionAuditEvent, hop.symm]

theorem results_flatMap_redactionRows {β : Type} (hop : op ≠ .redactionApplied) (nowMs : Int)
    (principal : Option String) (targetId : β → Option String) (found : β → List (String × ℕ))
    (l : List β) :
    results op (l.flatMap fun b => redactionRows nowMs principal (targetId b) (found b)) = [] := by
  induction l with
  | nil => rfl
  | cons b l ih =>
    rw [List.flatMap_cons, results_append, results_redactionRows hop, ih, List.append_nil]

/-- The redaction rows do not count. -/
theorem results_committed {rows : List AuditEvent} {e : AuditEvent} (h : results op rows = [])
    (he : e.operation = op) : results op (rows ++ [e]) = [e.result] := by
  rw [results_append, h, results_singleton he, List.nil_append]

theorem outcome_error {e : Error} (he : NotForbidden e) :
    outcome (.error e : Except Error α) = .error := by
  cases e with
  | forbidden m => exact absurd rfl (he m)
  | storage m | invalidInput m | notFound m | conflict m | embedder m | embedderProtocol m
  | steward m
  | vectorIndex m | other m => rfl

/-- The dispatcher's event alone. -/
theorem auditedOnce_rejected {e : Error} (he : NotForbidden e) (targetId : Option String)
    (details : List (String × AuditValue)) :
    AuditedOnce op s (s.emit (errorEvent env principal op targetId e details),
      (.error e : Except Error α)) :=
  ⟨_, rfl, (results_singleton rfl).trans (by rw [outcome_error he]; rfl)⟩

/-- The dispatcher's event behind one of the handler's. -/
theorem not_auditedOnce_error {e : Error} {r : AuditResult} {targetId : Option String}
    {details : List (String × AuditValue)} (h : s'.audit = s.audit ++ events)
    (hr : results op events = [r]) :
    ¬ AuditedOnce op s (s'.emit (errorEvent env principal op targetId e details),
      (.error e : Except Error α)) := by
  have haudit : (s'.emit (errorEvent env principal op targetId e details)).audit =
      s.audit ++ (events ++ [errorEvent env principal op targetId e details]) := by
    rw [emit, h, List.append_assoc]
  have herror : results op [errorEvent env principal op targetId e details] = [.error] :=
    results_singleton rfl
  rw [auditedOnce_iff haudit, results_append, hr, herror]
  simp

/-! ### Remember -/

variable {ep : NewEpisode} {content : String} {emb : Embedding}

theorem remember_auditedOnce_iff :
    AuditedOnce .memoryRemember s (s.dispatchRemember env ep content emb principal) ↔
      ¬ OverQuota env content emb ∧
        ∀ store rowid, s.RememberCommits env ep content emb principal store rowid →
        IndexTakes s.lib.hnsw emb := by
  unfold dispatchRemember
  generalize hout : s.handleRememberDurable env ep content emb principal = out
  have hexit : RememberExit s env ep content emb principal out := hout ▸ handleRememberDurable_exit
  have hrows (store : Store) : results .memoryRemember
      (redactionRows env.nowMs principal (some ep.memoryId) (env.redact content).2 ++
        [⟨env.nowMs, principal, .memoryRemember, some ep.memoryId, .ok, none⟩]) = [.ok] :=
    results_committed (results_redactionRows (by simp) _ _ _ _) rfl
  cases hexit with
  | rejected e quota rows he =>
    exact ⟨fun _ => ⟨quota, fun store rowid h => absurd h (rows store rowid)⟩,
      fun _ => auditedOnce_rejected he _ _⟩
  | overQuota err quota =>
    exact ⟨fun h => absurd h (not_auditedOnce_error rfl (results_singleton rfl)),
      fun h => absurd quota h.1⟩
  | refused e store rowid rows index he =>
    exact ⟨fun h => absurd h (not_auditedOnce_error rfl (hrows store)),
      fun h => absurd (h.2 store rowid rows) index⟩
  | indexed store rowid hnsw rows index =>
    exact ⟨fun _ => ⟨fun h => h.2 rows.2.1, fun _ _ _ => index⟩, fun _ => ⟨_, rfl, hrows store⟩⟩

/-! ### RememberBatch -/

def batchGrowth (items : List RememberItem) : ℕ :=
  items.foldl (fun g item => saturatingAddU64 g (episodeGrowth item.content item.embedding)) 0

/-- The items pass the checks, and the quota does not take them. -/
def BatchOverQuota (env : WriterEnv) (items : List RememberItem) : Prop :=
  items ≠ [] ∧ items.length ≤ maxRememberBatchSize ∧ (∀ item ∈ items, item.embedding.valid = true) ∧
    env.checkQuota (batchGrowth items) ≠ none

theorem neverForbidden_rememberRows (cfg : Config) (nowMs : Int) (principal : Option String)
    (items : List (NewEpisode × Embedding)) :
    ∀ st, NeverForbidden (rememberRows cfg nowMs principal st items) := by
  induction items with
  | nil => exact fun st => neverForbidden_ok _
  | cons item items ih =>
    exact fun st => (neverForbidden_rememberRow _ _ _ _ _).bind fun p => (ih _).bind fun q =>
      neverForbidden_ok _

/-- How `handle_remember_batch_durable` ends. -/
inductive BatchExit (s : AuditedLibrary) (env : WriterEnv) (items : List RememberItem)
    (principal : Option String) :
    AuditedLibrary × Except Error (List MemoryId × List MemoryId) → Prop
  | rejected (e : Error) (quota : ¬ BatchOverQuota env items) (he : NotForbidden e) :
      BatchExit s env items principal (s, .error e)
  | overQuota (err : QuotaExceededError) (quota : BatchOverQuota env items) :
      BatchExit s env items principal
        (s.emit ⟨env.nowMs, principal, .memoryRememberBatch, none, .forbidden, some err.details⟩,
          .error (.forbidden err.message))
  | committed (store : Store) (hnsw : HnswIndex) (ids : List MemoryId × List MemoryId)
      (quota : ¬ BatchOverQuota env items) :
      BatchExit s env items principal
        ({ s.batchRemembered env store items principal with lib := { s.lib with store, hnsw } },
          .ok ids)

theorem handleRememberBatchDurable_exit {items : List RememberItem} :
    BatchExit s env items principal (s.handleRememberBatchDurable env items principal) := by
  unfold handleRememberBatchDurable
  split
  · next h => exact .rejected _ (fun hq => hq.1 (List.isEmpty_iff.1 h)) (by rintro m ⟨⟩)
  split
  · next h => exact .rejected _ (fun hq => absurd hq.2.1 (by omega)) (by rintro m ⟨⟩)
  split
  · next h =>
    refine .rejected _ (fun hq => ?_) (by rintro m ⟨⟩)
    obtain ⟨item, hitem, hv⟩ := List.any_eq_true.1 h
    simp [hq.2.2.1 item hitem] at hv
  · next hempty hsize hvalid =>
    dsimp only
    cases hq : env.checkQuota
        (items.foldl (fun g item => saturatingAddU64 g (episodeGrowth item.content item.embedding))
          0) with
    | some err =>
      refine .overQuota err
        ⟨fun h => hempty (List.isEmpty_iff.2 h), by omega, fun item hitem => ?_, ?_⟩
      · by_contra hv
        exact hvalid (List.any_eq_true.2 ⟨item, hitem, by simp [hv]⟩)
      · exact fun h => absurd (hq.symm.trans h) (by simp)
    | none =>
      have hquota : ¬ BatchOverQuota env items := fun h => h.2.2.2 hq
      dsimp only
      cases env.fault with
      | some context => exact .rejected _ hquota (by rintro m ⟨⟩)
      | none =>
        cases hr : rememberRows env.cfg env.nowMs principal s.lib.store
            (items.map fun item => (item.episode, item.embedding)) with
        | error e => exact .rejected e hquota (neverForbidden_rememberRows _ _ _ _ _ e hr)
        | ok p => exact .committed p.1 _ _ hquota

theorem rememberBatch_auditedOnce_iff {items : List RememberItem} :
    AuditedOnce .memoryRememberBatch s (s.dispatchRememberBatch env items principal) ↔
    ¬ BatchOverQuota env items := by
  unfold dispatchRememberBatch
  generalize hout : s.handleRememberBatchDurable env items principal = out
  have hexit : BatchExit s env items principal out := hout ▸ handleRememberBatchDurable_exit
  cases hexit with
  | rejected e quota he => exact ⟨fun _ => quota, fun _ => auditedOnce_rejected he _ _⟩
  | overQuota err quota =>
    exact ⟨fun h => absurd h (not_auditedOnce_error rfl (results_singleton rfl)),
      fun h => absurd quota h⟩
  | committed store hnsw ids quota =>
    exact ⟨fun _ => quota,
      fun _ => ⟨_, rfl, results_committed (results_flatMap_redactionRows (by simp) _ _ _ _ _) rfl⟩⟩

/-! ### IngestDocument -/

/-- The file's size is known, and the quota does not take it. -/
def IngestOverQuota (env : WriterEnv) (src : IngestSource) : Prop :=
  ∃ size, src.size = .ok size ∧ env.checkQuota (min (size * 2) (2 ^ 64 - 1)) ≠ none

theorem neverForbidden_ingestChunks (cfg : Config) (nowMs : Int) (principal : Option String)
    (docId : DocumentId)
    (chunks : List (ChunkId × Embedding)) :
    ∀ st idx, NeverForbidden (ingestChunks cfg nowMs principal docId st idx chunks) := by
  induction chunks with
  | nil => exact fun st idx => neverForbidden_ok _
  | cons chunk chunks ih =>
    refine fun st idx => NeverForbidden.bind ?_ fun p => (ih _ _).bind fun q => neverForbidden_ok _
    exact (neverForbidden_orStorage _ _).bind fun _ => (neverForbidden_orStorage _ _).bind fun _ =>
      (neverForbidden_orStorage _ _).bind fun _ => (neverForbidden_orStorage _ _).bind fun _ =>
        neverForbidden_ok _

theorem dispatchIngestDocument_error (src : IngestSource) {cfg : Config} {nowMs : Int}
    {drains : String → Bool} {lib lib' : Library} {e : Error}
    (h : Solo.dispatchIngestDocument cfg nowMs drains lib src.file principal = (lib', .error e)) :
    NotForbidden e := by
  rintro m rfl
  unfold Solo.dispatchIngestDocument at h
  cases hfile : src.file with
  | error e =>
    rw [hfile] at h
    obtain rfl := Except.error.inj (congrArg Prod.snd h)
    exact (src.allowed m).2.1 hfile
  | ok file =>
    rw [hfile] at h
    dsimp only at h
    split at h
    · cases h
    split at h
    · cases h
    cases hemb : file.embeddings with
    | error e =>
      rw [hemb] at h
      obtain rfl := Except.error.inj (congrArg Prod.snd h)
      exact (src.allowed m).2.2 file hfile hemb
    | ok embeddings =>
      rw [hemb] at h
      dsimp only at h
      split at h
      · cases h
      split at h
      · cases h
      cases hrows : ingestRows cfg nowMs principal lib.store file embeddings with
      | error e =>
        rw [hrows] at h
        obtain rfl := Except.error.inj (congrArg Prod.snd h)
        exact ((neverForbidden_orStorage _ _).bind fun _ =>
          neverForbidden_ingestChunks _ _ _ _ _ _ _) _ hrows m rfl
      | ok p =>
        rw [hrows] at h
        cases h

/-- How `handle_ingest_document_durable` ends. -/
inductive IngestExit (s : AuditedLibrary) (env : WriterEnv) (src : IngestSource)
    (principal : Option String) : AuditedLibrary × Except Error IngestReport → Prop
  | rejected (e : Error) (quota : ¬ IngestOverQuota env src) (he : NotForbidden e) :
      IngestExit s env src principal (s, .error e)
  | overQuota (err : QuotaExceededError) (quota : IngestOverQuota env src) :
      IngestExit s env src principal
        (s.emit ⟨env.nowMs, principal, .memoryIngestDocument, some src.path, .forbidden,
          some err.details⟩, .error (.forbidden err.message))
  | done (lib : Library) (report : IngestReport) (quota : ¬ IngestOverQuota env src) :
      IngestExit s env src principal (s.ingested env src principal lib report, .ok report)

theorem handleIngestDocumentDurable_exit {src : IngestSource} :
    IngestExit s env src principal (s.handleIngestDocumentDurable env src principal) := by
  unfold handleIngestDocumentDurable
  cases hsize : src.size with
  | error e =>
    refine .rejected e ?_ fun m he => (src.allowed m).1 (he ▸ hsize)
    rintro ⟨size, hok, -⟩
    exact absurd (hsize.symm.trans hok) (by simp)
  | ok size =>
    dsimp only
    cases hq : env.checkQuota (min (size * 2) (2 ^ 64 - 1)) with
    | some err => exact .overQuota err ⟨size, hsize, fun h => absurd (hq.symm.trans h) (by simp)⟩
    | none =>
      have hquota : ¬ IngestOverQuota env src := by
        rintro ⟨size', hok, hne⟩
        obtain rfl := Except.ok.inj (hsize.symm.trans hok)
        exact hne hq
      dsimp only
      cases hout : Solo.dispatchIngestDocument env.cfg env.nowMs env.drains s.lib src.file principal
        with
      | mk lib reply =>
        cases reply with
        | error e => exact .rejected e hquota (dispatchIngestDocument_error src hout)
        | ok report =>
          dsimp only
          cases env.fault with
          | none => exact .done lib report hquota
          | some context =>
            dsimp only
            split
            · exact .done lib report hquota
            · exact .rejected _ hquota (by rintro m ⟨⟩)

theorem ingestDocument_auditedOnce_iff {src : IngestSource} :
    AuditedOnce .memoryIngestDocument s (s.dispatchIngestDocument env src principal) ↔
    ¬ IngestOverQuota env src := by
  unfold dispatchIngestDocument
  generalize hout : s.handleIngestDocumentDurable env src principal = out
  have hexit : IngestExit s env src principal out := hout ▸ handleIngestDocumentDurable_exit
  cases hexit with
  | rejected e quota he => exact ⟨fun _ => quota, fun _ => auditedOnce_rejected he _ _⟩
  | overQuota err quota =>
    exact ⟨fun h => absurd h (not_auditedOnce_error rfl (results_singleton rfl)),
      fun h => absurd quota h⟩
  | done lib report quota =>
    refine ⟨fun _ => quota, fun _ => ?_⟩
    show AuditedOnce .memoryIngestDocument s (s.ingested env src principal lib report, .ok report)
    unfold ingested
    split
    · exact ⟨_, rfl, results_singleton rfl⟩
    · exact ⟨_, rfl, results_committed (results_redactionRows (by simp) _ _ _ _) rfl⟩

end AuditedLibrary

open AuditedLibrary

inductive AuditedCommand
  | remember (ep : NewEpisode) (content : String) (emb : Embedding) (principal : Option String)
  | rememberBatch (items : List RememberItem) (principal : Option String)
  | ingestDocument (src : IngestSource) (principal : Option String)

namespace AuditedCommand

/-- Exactly one event of the command's operation, which agrees with the reply. -/
def AuditedOnce (s : AuditedLibrary) (env : WriterEnv) : AuditedCommand → Prop
  | .remember ep content emb principal =>
    AuditedLibrary.AuditedOnce .memoryRemember s (s.dispatchRemember env ep content emb principal)
  | .rememberBatch items principal =>
    AuditedLibrary.AuditedOnce .memoryRememberBatch s (s.dispatchRememberBatch env items principal)
  | .ingestDocument src principal =>
    AuditedLibrary.AuditedOnce .memoryIngestDocument s (s.dispatchIngestDocument env src principal)

/-- The quota takes the command, and the index what a `Remember` has committed. -/
def WithinQuotaAndIndexed (s : AuditedLibrary) (env : WriterEnv) : AuditedCommand → Prop
  | .remember ep content emb principal =>
    ¬ OverQuota env content emb ∧
      ∀ store rowid, s.RememberCommits env ep content emb principal store rowid →
      IndexTakes s.lib.hnsw emb
  | .rememberBatch items _ => ¬ BatchOverQuota env items
  | .ingestDocument src _ => ¬ IngestOverQuota env src

end AuditedCommand

theorem auditOutcome_iff (s : AuditedLibrary) (env : WriterEnv) (c : AuditedCommand) :
    c.AuditedOnce s env ↔ c.WithinQuotaAndIndexed s env := by
  cases c with
  | remember ep content emb principal => exact remember_auditedOnce_iff
  | rememberBatch items principal => exact rememberBatch_auditedOnce_iff
  | ingestDocument src principal => exact ingestDocument_auditedOnce_iff

/-- A quota of no bytes. -/
theorem overQuota_not_auditedOnce :
    ¬ (AuditedCommand.rememberBatch [⟨⟨"m", 1, .hot⟩, "text", ⟨.f32, 1, [0, 0, 128, 63]⟩⟩]
      none).AuditedOnce HalfPrecision.state { HalfPrecision.env with quotaBytes := some 0 } := by
  rw [auditOutcome_iff]
  intro h
  exact h ⟨by simp, by decide, by decide, by decide⟩

end Solo
