import Solo.Store.Session

/-!
# An erasure interleaved with the writer (`gdpr.rs`, `recovery.rs`, `writer.rs`)

`forget_principal` sends its deletions to the writer and then re-adds every active row to the
running index from its own connection, outside the writer. Each select of that pass reads one
snapshot of the database and its rows are added one by one, while the writer commits and indexes
other commands.

`Exact` says that what the index serves is what SQL has. A row that was forgotten or whose embedding
was replaced between the select and its `add` comes back: `add` lifts the tombstone. `erasure_exact`
is the exactness of every run in which no such row is added and no `Update` replaces a vector that
is still in the graph.
-/

namespace Solo

inductive WriterCommand
  | update (nowMs : Int) (drains : String → Bool) (memoryId : MemoryId) (content : String) (emb :
    Embedding)
  | forget (memoryId : MemoryId)
  | forgetDocument (docId : DocumentId)

/-- What the writer has still to do for the command it committed last. -/
inductive WriterPc
  | idle
  | tombstoning (ids : List I64)
  | indexing (rowid : I64) (v : Vector) (memoryId : MemoryId) (drains : String → Bool)
  | draining (memoryId : MemoryId) (drains : String → Bool)

/-- Where `forget_principal` stands, with the selected rows it has still to add. -/
inductive CallerPc
  | waiting
  | erased
  | episodes (rows : List (Rowid × IndexRow))
  | chunks (rows : List (Rowid × IndexRow))
  | finished

/-- The transaction of a command. -/
def Library.commit (cfg : Config) (lib : Library) : WriterCommand → Library × WriterPc
  | .update nowMs drains m content emb =>
    if !emb.valid then (lib, .idle)
    else
      match emb.asF32Slice with
      | none => (lib, .idle)
      | some v =>
        if Text.isBlank content then (lib, .idle)
        else
          match updateRows cfg nowMs lib.store m emb with
          | .error _ => (lib, .idle)
          | .ok (store, rowid) =>
            ({ lib with store := store }, .indexing (episodeHnswId rowid.toI64) v m drains)
  | .forget m =>
    match lib.store.episode? m with
    | none => (lib, .idle)
    | some ep =>
      ({ lib with store := forgetRow lib.store m }, .tombstoning [episodeHnswId ep.rowid.toI64])
  | .forgetDocument d =>
    match lib.store.document? d with
    | none => (lib, .idle)
    | some _ =>
      let chunks := lib.store.documentChunks.rows.filter (·.docId = d)
      ({ lib with store := forgetDocumentRow lib.store d },
        .tombstoning (chunks.map fun c => chunkHnswId c.rowid.toI64))

/-- The next call the writer makes after its commit. -/
def Library.writerStep (lib : Library) : WriterPc → Library × WriterPc
  | .idle => (lib, .idle)
  | .tombstoning [] => (lib, .idle)
  | .tombstoning (id :: ids) => ({ lib with hnsw := lib.hnsw.remove id }, .tombstoning ids)
  | .indexing rowid v m drains =>
    match lib.hnsw.add rowid v with
    | .error _ => (lib, .idle)
    | .ok hnsw => ({ lib with hnsw := hnsw }, .draining m drains)
  | .draining m drains =>
    ({ lib with store := lib.store.drained (drainEpisodes drains [m]) }, .idle)

/-- One row of the pass; a row that is skipped leaves the index as it is. -/
def Library.readd (lib : Library) (r : Rowid × IndexRow) : Library :=
  { lib with hnsw := (addRebuildRow lib.hnsw r.2).getD lib.hnsw }

/-- The next statement or call of `rebuild_hnsw_after_forget`. -/
def Library.callerStep (cfg : Config) (lib : Library) : CallerPc → Library × CallerPc
  | .waiting => (lib, .waiting)
  | .erased => (lib, .episodes (lib.store.rebuildEpisodeRows cfg.embedderId))
  | .episodes (r :: rows) => (lib.readd r, .episodes rows)
  | .episodes [] => (lib, .chunks (lib.store.rebuildChunkRows cfg.embedderId))
  | .chunks (r :: rows) => (lib.readd r, .chunks rows)
  | .chunks [] => (lib, .finished)
  | .finished => (lib, .finished)

structure Erasure where
  lib : Library
  writer : WriterPc
  caller : CallerPc

/-- `command`: the idle writer takes up a command. `writer`: its next call. `erase`: the idle writer
runs `ForgetPrincipalRows`, with the removals that precede its reply. `caller`: the next step of
`forget_principal`. -/
inductive ErasureEvent
  | command (c : WriterCommand)
  | writer
  | erase (principal : String) (scope : AssetScope)
  | caller

namespace Erasure

def start (lib : Library) : Erasure := ⟨lib, .idle, .waiting⟩

def step (cfg : Config) (s : Erasure) : ErasureEvent → Erasure
  | .command c =>
    match s.writer with
    | .idle =>
      let (lib, writer) := s.lib.commit cfg c
      { s with lib := lib, writer := writer }
    | _ => s
  | .writer =>
    let (lib, writer) := s.lib.writerStep s.writer
    { s with lib := lib, writer := writer }
  | .erase principal scope =>
    match s.writer, s.caller with
    | .idle, .waiting =>
      match handleForgetPrincipalRows s.lib principal scope with
      | (lib, .error _) => { s with lib := lib, caller := .finished }
      | (lib, .ok outcome) =>
        { s with lib := lib, caller := if outcome.totalDeleted > 0 then .erased else .finished }
    | _, _ => s
  | .caller =>
    let (lib, caller) := s.lib.callerStep cfg s.caller
    { s with lib := lib, caller := caller }

end Erasure

/-! ### Undisturbed, the steps are the handlers -/

section Undisturbed

variable {cfg : Config} {lib : Library}

def WriterPc.Finishes (lib : Library) (pc : WriterPc) (lib' : Library) : Prop :=
  ∃ n, (fun x : Library × WriterPc => x.1.writerStep x.2)^[n] (lib, pc) = (lib', .idle)

theorem WriterPc.Finishes.idle : WriterPc.Finishes lib .idle lib := ⟨0, rfl⟩

theorem WriterPc.Finishes.step {pc : WriterPc} {lib' : Library}
    (h : WriterPc.Finishes (lib.writerStep pc).1 (lib.writerStep pc).2 lib') :
    WriterPc.Finishes lib pc lib' := by
  obtain ⟨n, hn⟩ := h
  exact ⟨n + 1, hn⟩

theorem tombstoning_finishes (lib : Library) (ids : List I64) :
    WriterPc.Finishes lib (.tombstoning ids)
    { lib with hnsw := ids.foldl HnswIndex.remove lib.hnsw } := by
  induction ids generalizing lib with
  | nil => exact .step .idle
  | cons id ids ih => exact .step (ih _)

/-- A command that nothing comes between does what its handler in the writer does. -/
theorem commit_finishes (cfg : Config) (lib : Library) (c : WriterCommand) :
    WriterPc.Finishes (lib.commit cfg c).1 (lib.commit cfg c).2 <|
      match c with
      | .update nowMs drains m content emb => (dispatchUpdate cfg nowMs drains lib m content emb).1
      | .forget m => (handleForget lib m).1
      | .forgetDocument d => (handleForgetDocument lib d).1 := by
  cases c with
  | update nowMs drains m content emb =>
    simp only [Library.commit, dispatchUpdate, handleUpdate]
    split
    · exact .idle
    cases emb.asF32Slice with
    | none => exact .idle
    | some v =>
      simp only
      split
      · exact .idle
      cases hrows : updateRows cfg nowMs lib.store m emb with
      | error e => exact .idle
      | ok r =>
        refine .step ?_
        simp only [Library.writerStep]
        cases lib.hnsw.add (episodeHnswId r.2.toI64) v with
        | error e => exact .idle
        | ok hnsw => exact .step .idle
  | forget m =>
    simp only [Library.commit, handleForget]
    cases lib.store.episode? m with
    | none => exact .idle
    | some ep => exact tombstoning_finishes _ _
  | forgetDocument d =>
    simp only [Library.commit, handleForgetDocument]
    cases lib.store.document? d with
    | none => exact .idle
    | some _ => exact tombstoning_finishes _ _

theorem readd_hnsw (kind : HnswIdKind) (lib : Library) (r : Rowid × IndexRow)
    (report : RebuildReport) : (rebuildStep kind (lib.hnsw, report) r).1 = (lib.readd r).hnsw := by
  unfold rebuildStep Library.readd
  cases addRebuildRow lib.hnsw r.2 <;> rfl

theorem readds_hnsw (kind : HnswIdKind) (rows : List (Rowid × IndexRow)) (lib : Library)
    (report : RebuildReport) :
    (Run.run (rebuildStep kind) (lib.hnsw, report) rows).1 =
    (rows.foldl Library.readd lib).hnsw := by
  induction rows generalizing lib report with
  | nil => rfl
  | cons r rows ih =>
    rw [Run.run_cons, List.foldl_cons, ← ih, ← readd_hnsw kind lib r report]

theorem foldl_readd (rows : List (Rowid × IndexRow)) (lib : Library) :
    rows.foldl Library.readd lib = { lib with hnsw := (rows.foldl Library.readd lib).hnsw } := by
  induction rows generalizing lib with
  | nil => rfl
  | cons r rows ih =>
    rw [List.foldl_cons, ih]
    rfl

def CallerPc.Finishes (cfg : Config) (lib : Library) (pc : CallerPc) (lib' : Library) : Prop :=
  ∃ n, (fun x : Library × CallerPc => x.1.callerStep cfg x.2)^[n] (lib, pc) = (lib', .finished)

theorem CallerPc.Finishes.step {pc : CallerPc} {lib' : Library}
    (h : CallerPc.Finishes cfg (lib.callerStep cfg pc).1 (lib.callerStep cfg pc).2 lib') :
    CallerPc.Finishes cfg lib pc lib' := by
  obtain ⟨n, hn⟩ := h
  exact ⟨n + 1, hn⟩

theorem chunks_finish (cfg : Config) (lib : Library) (rows : List (Rowid × IndexRow)) :
    CallerPc.Finishes cfg lib (.chunks rows) (rows.foldl Library.readd lib) := by
  induction rows generalizing lib with
  | nil => exact .step ⟨0, rfl⟩
  | cons r rows ih => exact .step (ih _)

theorem episodes_finish (cfg : Config) (lib : Library) (rows : List (Rowid × IndexRow)) :
    CallerPc.Finishes cfg lib (.episodes rows)
      ((lib.store.rebuildChunkRows cfg.embedderId).foldl Library.readd
        (rows.foldl Library.readd lib)) := by
  induction rows generalizing lib with
  | nil => exact .step (chunks_finish cfg lib _)
  | cons r rows ih => exact .step (ih (lib.readd r))

/-- A pass that nothing comes between is `rebuild_hnsw_after_forget`. -/
theorem rebuild_finishes (cfg : Config) (lib : Library) :
    CallerPc.Finishes cfg lib .erased (rebuildHnswAfterForget cfg lib) := by
  have heq : rebuildHnswAfterForget cfg lib = (lib.store.rebuildChunkRows cfg.embedderId).foldl
      Library.readd ((lib.store.rebuildEpisodeRows cfg.embedderId).foldl Library.readd lib) := by
    rw [foldl_readd, foldl_readd _ lib]
    simp only [rebuildHnswAfterForget, rebuildHnswFromSql]
    rw [← readds_hnsw .chunk _ _ (Run.run (rebuildStep .episode) (lib.hnsw, {})
      (lib.store.rebuildEpisodeRows cfg.embedderId)).2, ← readds_hnsw .episode _ lib {}]
  rw [heq]
  exact .step (episodes_finish cfg lib _)

end Undisturbed

/-! ### What the index serves -/

namespace Store

/-- `v` is what the current embedding row of the episode stores. -/
def EpisodeVector (s : Store) (embedderId : Nat) (e : EpisodeRow) (v : Vector) : Prop :=
  ∃ em ∈ s.embeddings, em.memoryId = e.memoryId ∧ em.embedderId = embedderId ∧
    decodeF32 em.vector em.dim = some v

/-- `v` is what the current embedding row of the chunk stores. -/
def ChunkVector (s : Store) (embedderId : Nat) (c : ChunkRow) (v : Vector) : Prop :=
  ∃ ce ∈ s.chunkEmbeddings, ce.chunkId = c.chunkId ∧ ce.embedderId = embedderId ∧
    decodeF32 ce.vector ce.dim = some v

/-- `v` is what the current embedding row of the id stores. -/
def CurrentVector (s : Store) (embedderId : Nat) (id : I64) (v : Vector) : Prop :=
  (∃ e ∈ s.episodes, episodeHnswId e.rowid.toI64 = id ∧ s.EpisodeVector embedderId e v) ∨
    ∃ c ∈ s.documentChunks, chunkHnswId c.rowid.toI64 = id ∧ s.ChunkVector embedderId c v

/-- `CurrentVector` of an active id: what a rebuild that starts now would add. -/
def Readable (s : Store) (embedderId : Nat) (id : I64) (v : Vector) : Prop :=
  (∃ e ∈ s.episodes, e.status = .active ∧ episodeHnswId e.rowid.toI64 = id ∧
    s.EpisodeVector embedderId e v) ∨
    ∃ c ∈ s.documentChunks, s.chunkActive c = true ∧ chunkHnswId c.rowid.toI64 = id ∧
      s.ChunkVector embedderId c v

variable {s : Store} {embedderId : Nat} {id : I64} {v w : Vector}

theorem readable_iff : s.Readable embedderId id v ↔ s.ActiveId id ∧
    s.CurrentVector embedderId id v := by
  rw [activeId_iff]
  constructor
  · rintro (⟨e, he, ha, hid, hv⟩ | ⟨c, hc, ha, hid, hv⟩)
    · exact ⟨.inl ⟨e, he, ha, hid⟩, .inl ⟨e, he, hid, hv⟩⟩
    · exact ⟨.inr ⟨c, hc, ha, hid⟩, .inr ⟨c, hc, hid, hv⟩⟩
  · rintro ⟨⟨e, he, ha, rfl⟩ | ⟨c, hc, ha, rfl⟩, ⟨e', he', hid, hv⟩ | ⟨c', hc', hid, hv⟩⟩
    · obtain rfl := episode_rowid_inj he' he (episodeHnswId_injective hid)
      exact .inl ⟨e', he', ha, rfl, hv⟩
    · exact absurd hid.symm (episodeHnswId_ne_chunkHnswId _ _)
    · exact absurd hid (episodeHnswId_ne_chunkHnswId _ _)
    · obtain rfl := chunk_rowid_inj hc' hc (chunkHnswId_injective hid)
      exact .inr ⟨c', hc', ha, rfl, hv⟩

/-- The size in bytes of a stored vector is a `u64`. -/
theorem Readable.size_lt (h : s.Readable embedderId id v) : 4 * v.length < 2 ^ 64 := by
  have hdec : ∀ blob dim, decodeF32 blob dim = some v → 4 * v.length < 2 ^ 64 := by
    intro blob dim hdec
    unfold decodeF32 at hdec
    split at hdec
    · cases hdec
    · have := length_of_castF32 hdec
      omega
  rcases h with ⟨e, -, -, -, em, -, -, -, hv⟩ | ⟨c, -, -, -, ce, -, -, -, hv⟩
  · exact hdec _ _ hv
  · exact hdec _ _ hv

/-- The statements of an update: the episode's embedding is the new one, everything else is as it
was. -/
structure Updated (cfg : Config) (s s' : Store) (ep : EpisodeRow) (emb : Embedding) : Prop where
  mem : ep ∈ s.episodes
  active : ep.status = .active
  episodes : s'.episodes = s.episodes
  documents : s'.documents = s.documents
  documentChunks : s'.documentChunks = s.documentChunks
  chunkEmbeddings : s'.chunkEmbeddings = s.chunkEmbeddings
  other : ∀ em ∈ s.embeddings, em.memoryId ≠ ep.memoryId → em ∈ s'.embeddings
  only : ∀ em ∈ s'.embeddings, em.memoryId = ep.memoryId → em.embedderId = cfg.embedderId →
    em.vector = emb.data ∧ em.dim = emb.dim
  present : ∃ em ∈ s'.embeddings, em.memoryId = ep.memoryId ∧ em.embedderId = cfg.embedderId

theorem updateRows_updated {cfg : Config} {nowMs : Int} {s s' : Store} {m : MemoryId}
    {emb : Embedding} {rowid : Rowid} (h : updateRows cfg nowMs s m emb = .ok (s', rowid)) :
    ∃ ep, ep.memoryId = m ∧ ep.rowid = rowid ∧ Updated cfg s s' ep emb := by
  unfold updateRows at h
  cases hep : s.episode? m with
  | none => simp [hep] at h
  | some ep =>
    simp only [hep] at h
    split at h
    · cases h
    next hact =>
    simp only [Result.bind_eq_ok, orStorage_eq_ok, Result.pure_eq_ok, Prod.mk.injEq] at h
    obtain ⟨ems, hems, pend, -, rfl, hrow⟩ := h
    obtain ⟨hmem, rfl⟩ := episode?_eq_some.1 hep
    refine ⟨ep, rfl, hrow, hmem, not_not.1 hact, rfl, rfl, rfl, rfl, fun em hem hne => ?_,
      fun em hem hm hid => ?_, ?_⟩
    · exact Table.mem_upsert_of_not hems hem (by simp [hne])
    · rcases Table.mem_of_mem_upsert hems hem with rfl | ⟨b, -, -, rfl⟩ | ⟨-, hne⟩
      · exact ⟨rfl, rfl⟩
      · exact ⟨rfl, rfl⟩
      · simp [hm, hid] at hne
    · rcases Table.exists_mem_upsert hems with hr | ⟨b, -, hb, hmem⟩
      · exact ⟨_, hr, rfl, rfl⟩
      · simp only [Bool.and_eq_true, decide_eq_true_eq] at hb
        exact ⟨_, hmem, hb⟩

namespace Updated

variable {cfg : Config} {s' : Store} {ep : EpisodeRow} {emb : Embedding}

/-- Under the updated id only the new vector can be read. -/
theorem eq_of_readable (h : Updated cfg s s' ep emb)
    (hw : s'.Readable cfg.embedderId (episodeHnswId ep.rowid.toI64) w) :
    castF32 emb.data = some w := by
  rcases hw with ⟨e, he, -, hid, em, hem, hm, hemb, hdec⟩ | ⟨c, -, -, hid, -⟩
  · rw [h.episodes] at he
    obtain rfl := episode_rowid_inj he h.mem (episodeHnswId_injective hid)
    obtain ⟨hvec, hdim⟩ := h.only em hem hm hemb
    rw [hvec, hdim] at hdec
    unfold decodeF32 at hdec
    split at hdec
    · cases hdec
    · exact hdec
  · exact absurd hid.symm (episodeHnswId_ne_chunkHnswId _ _)

/-- The new vector can be read, as far as its size in bytes is a `u64`. -/
theorem readable (h : Updated cfg s s' ep emb) (hvalid : emb.valid = true)
    (hv : emb.asF32Slice = some v)
    (hsize : 4 * v.length < 2 ^ 64) : s'.Readable cfg.embedderId (episodeHnswId ep.rowid.toI64)
    v := by
  obtain ⟨em, hem, hm, hemb⟩ := h.present
  obtain ⟨hvec, hdim⟩ := h.only em hem hm hemb
  refine .inl ⟨ep, h.episodes ▸ h.mem, h.active, rfl, em, hem, hm, hemb, ?_⟩
  rw [hvec, hdim]
  exact decodeF32_embedding hvalid hv hsize

/-- What can be read under another id can still be read. -/
theorem readable_of_ne (h : Updated cfg s s' ep emb) (hne : id ≠ episodeHnswId ep.rowid.toI64)
    (hw : s.Readable cfg.embedderId id w) : s'.Readable cfg.embedderId id w := by
  rcases hw with ⟨e, he, ha, hid, em, hem, hm, hemb, hdec⟩ | ⟨c, hc, ha, hid, ce, hce, hw⟩
  · refine .inl ⟨e, h.episodes ▸ he, ha, hid, em, h.other em hem fun heq => hne ?_, hm, hemb, hdec⟩
    have hee : e = ep := Table.eq_of_clash he h.mem (by simp [Keyed.clash, ← hm, heq])
    rw [← hid, hee]
  · refine .inr ⟨c, h.documentChunks ▸ hc, ?_, hid, ce, h.chunkEmbeddings ▸ hce, hw⟩
    rw [chunkActive, document?, h.documents]
    exact ha

end Updated

end Store

/-- Nothing forgotten or deleted is live, and what is found under a live id is its current
vector. -/
structure Library.Exact (cfg : Config) (lib : Library) : Prop where
  active : ∀ id, lib.hnsw.Live id → lib.store.ActiveId id
  current : ∀ id v, lib.hnsw.Live id → (v, id) ∈ lib.hnsw.points →
    lib.store.CurrentVector cfg.embedderId id v

namespace Erasure

def WillRemove (pc : WriterPc) (id : I64) : Prop :=
  match pc with
  | .tombstoning ids => id ∈ ids
  | _ => False

/-- The selected row, if it can be added, is still what SQL has and the only vector the graph has
for its id, or its id is about to be tombstoned. -/
def Current (cfg : Config) (s : Erasure) (r : Rowid × IndexRow) : Prop :=
  ∀ v, decodeF32 r.2.blob r.2.dim = some v → v.length = cfg.dim →
    (s.lib.store.Readable cfg.embedderId r.2.hnswId v ∧ ∀ w, (w, r.2.hnswId) ∈ s.lib.hnsw.points →
      w = v) ∨ WillRemove s.writer r.2.hnswId

/-- The condition of a step: an `Update` leaves the vector as the graph has it, and a row that is
added again is current. -/
def Undisturbed (cfg : Config) (s : Erasure) : ErasureEvent → Prop
  | .command (.update _ _ m _ emb) => ∀ ep ∈ s.lib.store.episodes, ep.memoryId = m →
      ∀ v, (v, episodeHnswId ep.rowid.toI64) ∈ s.lib.hnsw.points → emb.asF32Slice = some v
  | .caller =>
    match s.caller with
    | .episodes (r :: _) | .chunks (r :: _) => s.Current cfg r
    | _ => True
  | _ => True

/-- What holds between any two steps of an undisturbed run. -/
structure Inv (cfg : Config) (s : Erasure) : Prop where
  dim : s.lib.hnsw.dim = cfg.dim
  served : ∀ id v, (v, id) ∈ s.lib.hnsw.points → id ∉ s.lib.hnsw.tombstones →
    s.lib.store.Readable cfg.embedderId id v ∨ WillRemove s.writer id
  indexing : ∀ rowid v m drains, s.writer = .indexing rowid v m drains →
    (∀ w, (w, rowid) ∈ s.lib.hnsw.points → w = v) ∧
    (∀ w, s.lib.store.Readable cfg.embedderId rowid w → w = v) ∧
      (v.length = cfg.dim → s.lib.store.Readable cfg.embedderId rowid v)

variable {cfg : Config} {s : Erasure}

theorem Inv.exact (h : s.Inv cfg) (hidle : s.writer = .idle) : s.lib.Exact cfg := by
  have hread : ∀ id v, s.lib.hnsw.Live id → (v, id) ∈ s.lib.hnsw.points →
      s.lib.store.Readable cfg.embedderId id v := by
    intro id v hlive hp
    rcases h.served id v hp hlive.2 with hr | hw
    · exact hr
    · rw [hidle] at hw
      cases hw
  refine ⟨fun id hlive => ?_, fun id v hlive hp => (Store.readable_iff.1 (hread id v hlive hp)).2⟩
  obtain ⟨⟨v, id⟩, hp, rfl⟩ := List.mem_map.1 hlive.1
  exact (Store.readable_iff.1 (hread _ v hlive hp)).1

theorem inv_start {lib : Library} (hdim : lib.hnsw.dim = cfg.dim) (h : lib.Exact cfg) :
    (start lib).Inv cfg := by
  refine ⟨hdim, fun id v hp ht => .inl ?_, fun _ _ _ _ heq => nomatch heq⟩
  have hlive : lib.hnsw.Live id := ⟨List.mem_map.2 ⟨_, hp, rfl⟩, ht⟩
  exact Store.readable_iff.2 ⟨h.active id hlive, h.current id v hlive hp⟩

/-! ### The writer's steps -/

theorem Inv.update (h : s.Inv cfg) (hidle : s.writer = .idle) {nowMs : Int} {drains : String → Bool}
    {m : MemoryId} {content : String} {emb : Embedding}
    (hg : s.Undisturbed cfg (.command (.update nowMs drains m content emb))) :
    (s.step cfg (.command (.update nowMs drains m content emb))).Inv cfg := by
  simp only [step, hidle, Library.commit]
  split
  · exact ⟨h.dim, hidle ▸ h.served, fun _ _ _ _ heq => nomatch heq⟩
  next hvalid =>
  cases hv : emb.asF32Slice with
  | none => exact ⟨h.dim, hidle ▸ h.served, fun _ _ _ _ heq => nomatch heq⟩
  | some v =>
    simp only
    split
    · exact ⟨h.dim, hidle ▸ h.served, fun _ _ _ _ heq => nomatch heq⟩
    cases hrows : updateRows cfg nowMs s.lib.store m emb with
    | error e => exact ⟨h.dim, hidle ▸ h.served, fun _ _ _ _ heq => nomatch heq⟩
    | ok r =>
      obtain ⟨store, rowid⟩ := r
      obtain ⟨ep, hm, rfl, hup⟩ := Store.updateRows_updated hrows
      have hvalid : emb.valid = true := by simpa using hvalid
      have hpoints : ∀ w, (w, episodeHnswId ep.rowid.toI64) ∈ s.lib.hnsw.points → w = v := by
        intro w hw
        exact Option.some.inj ((hg ep hup.mem hm w hw).symm.trans hv)
      refine ⟨h.dim, fun id w hp ht => .inl ?_, fun rowid v' m' d' heq => ?_⟩
      · rcases h.served id w hp ht with hr | hw
        · by_cases hid : id = episodeHnswId ep.rowid.toI64
          · subst hid
            obtain rfl := hpoints w hp
            exact hup.readable hvalid hv (Store.Readable.size_lt hr)
          · exact hup.readable_of_ne hid hr
        · rw [hidle] at hw
          cases hw
      · cases heq
        refine ⟨hpoints, fun w hw => ?_, fun hlen => hup.readable hvalid hv ?_⟩
        · have hcast := hup.eq_of_readable hw
          unfold Embedding.asF32Slice at hv
          split at hv
          · exact Option.some.inj (hcast.symm.trans hv)
          · cases hv
        · have := cfg.dim_lt
          omega

/-- A command that hides the rows of some ids and then tombstones these ids. -/
theorem Inv.hide (h : s.Inv cfg) (hidle : s.writer = .idle) {store : Store} {ids : List I64}
    (hhide : ∀ id v, s.lib.store.Readable cfg.embedderId id v → store.Readable cfg.embedderId id v ∨
      id ∈ ids) :
    Inv cfg ⟨{ s.lib with store := store }, .tombstoning ids, s.caller⟩ := by
  refine ⟨h.dim, fun id v hp ht => ?_, fun _ _ _ _ heq => nomatch heq⟩
  rcases h.served id v hp ht with hr | hw
  · exact hhide id v hr
  · rw [hidle] at hw
    cases hw

theorem forgetRow_readable {st : Store} {ep : EpisodeRow} (hep : ep ∈ st.episodes) {id : I64}
    {v : Vector} (h : st.Readable cfg.embedderId id v) :
    (forgetRow st ep.memoryId).Readable cfg.embedderId id v ∨
    id ∈ [episodeHnswId ep.rowid.toI64] := by
  rcases h with ⟨e, he, ha, hid, hv⟩ | hc
  · by_cases hm : e.memoryId = ep.memoryId
    · obtain rfl : e = ep := Table.eq_of_clash he hep (by simp [Keyed.clash, hm])
      exact .inr (List.mem_singleton.2 hid.symm)
    · have hmem : e ∈ (forgetRow st ep.memoryId).episodes := by
        rw [forgetRow, Table.mem_updateWhere]
        exact ⟨e, he, by simp [hm]⟩
      exact .inl (.inl ⟨e, hmem, ha, hid, hv⟩)
  · exact .inl (.inr hc)

theorem forgetDocumentRow_readable {st : Store} {d : DocumentId} {id : I64} {v : Vector}
    (h : st.Readable cfg.embedderId id v) :
    (forgetDocumentRow st d).Readable cfg.embedderId id v ∨
      id ∈ (st.documentChunks.rows.filter (·.docId = d)).map fun c =>
      chunkHnswId c.rowid.toI64 := by
  rcases h with he | ⟨c, hc, ha, rfl, hv⟩
  · exact .inl (.inl he)
  · by_cases hd : c.docId = d
    · exact .inr (List.mem_map.2 ⟨c, List.mem_filter.2 ⟨hc, by simp [hd]⟩, rfl⟩)
    · refine .inl (.inr ⟨c, hc, ?_, rfl, hv⟩)
      simp only [Store.chunkActive, Option.any_eq_true] at ha ⊢
      obtain ⟨r, hr, hactive⟩ := ha
      obtain ⟨hr, hrd⟩ := Store.document?_eq_some.1 hr
      have hne : r.docId ≠ d := hrd ▸ hd
      have hmem : r ∈ (forgetDocumentRow st d).documents := by
        rw [forgetDocumentRow, Table.mem_updateWhere]
        exact ⟨r, hr, by simp [hne]⟩
      exact ⟨r, Store.document?_eq_some.2 ⟨hmem, hrd⟩, hactive⟩

theorem Inv.command (h : s.Inv cfg) {c : WriterCommand} (hg : s.Undisturbed cfg (.command c)) :
    (s.step cfg (.command c)).Inv cfg := by
  cases hw : s.writer with
  | idle =>
    cases c with
    | update nowMs drains m content emb => exact h.update hw hg
    | forget m =>
      simp only [step, hw, Library.commit]
      cases hep : s.lib.store.episode? m with
      | none => exact ⟨h.dim, hw ▸ h.served, fun _ _ _ _ heq => nomatch heq⟩
      | some ep =>
        obtain ⟨hmem, rfl⟩ := Store.episode?_eq_some.1 hep
        exact h.hide hw fun id v hr => forgetRow_readable hmem hr
    | forgetDocument d =>
      simp only [step, hw, Library.commit]
      cases s.lib.store.document? d with
      | none => exact ⟨h.dim, hw ▸ h.served, fun _ _ _ _ heq => nomatch heq⟩
      | some _ => exact h.hide hw fun id v hr => forgetDocumentRow_readable hr
  | _ => simpa only [step, hw] using h

theorem Inv.writer (h : s.Inv cfg) : (s.step cfg .writer).Inv cfg := by
  obtain ⟨lib, writer, caller⟩ := s
  simp only [step]
  cases writer with
  | idle => exact h
  | tombstoning ids =>
    cases ids with
    | nil =>
      refine ⟨h.dim, fun id v hp ht => ?_, fun _ _ _ _ heq => WriterPc.noConfusion heq⟩
      rcases h.served id v hp ht with hr | hw
      · exact .inl hr
      · cases hw
    | cons x ids =>
      refine ⟨h.dim, fun id v hp ht => ?_, fun _ _ _ _ heq => WriterPc.noConfusion heq⟩
      obtain ⟨hne, ht⟩ : id ≠ x ∧ id ∉ lib.hnsw.tombstones := by
        simpa [Library.writerStep, HnswIndex.remove] using ht
      rcases h.served id v hp ht with hr | hw
      · exact .inl hr
      · exact .inr ((List.mem_cons.1 hw).resolve_left hne)
  | indexing rowid v m drains =>
    obtain ⟨hpoints, -, hnew⟩ := h.indexing rowid v m drains rfl
    simp only [Library.writerStep]
    cases hadd : lib.hnsw.add rowid v with
    | error e => exact ⟨h.dim, h.served, fun _ _ _ _ heq => WriterPc.noConfusion heq⟩
    | ok hnsw =>
      obtain ⟨-, hlen, rfl⟩ := HnswIndex.add_eq_ok.1 hadd
      refine ⟨h.dim, fun id w hp ht => .inl ?_, fun _ _ _ _ heq => WriterPc.noConfusion heq⟩
      by_cases hid : id = rowid
      · subst hid
        have hw : w = v := by
          rcases List.mem_append.1 hp with hp | hp
          · exact hpoints w hp
          · exact congrArg Prod.fst (List.mem_singleton.1 hp)
        exact hw ▸ hnew (hlen.trans h.dim)
      · have hp : (w, id) ∈ lib.hnsw.points := by simpa [hid] using hp
        have ht : id ∉ lib.hnsw.tombstones := by simpa [hid] using ht
        exact (h.served id w hp ht).resolve_right fun hw => hw.elim
  | draining m drains => exact ⟨h.dim, h.served, fun _ _ _ _ heq => WriterPc.noConfusion heq⟩

/-! ### The erasure's steps -/

theorem deleteEpisodes_readable {st : Store} (p : EpisodeRow → Bool) {id : I64} {v : Vector}
    (h : st.Readable cfg.embedderId id v) : (st.deleteEpisodes p).Readable cfg.embedderId id v ∨
      ∃ e ∈ st.episodes, p e = true ∧ episodeHnswId e.rowid.toI64 = id := by
  rcases h with ⟨e, he, ha, hid, em, hem, hm, hv⟩ | hc
  · cases hp : p e with
    | true => exact .inr ⟨e, he, hp, hid⟩
    | false =>
      have hkept : em ∈ (st.deleteEpisodes p).embeddings := by
        refine Table.mem_deleteWhere.2 ⟨hem, List.any_eq_false.2 fun e' he' hgone => ?_⟩
        simp only [Bool.and_eq_true, decide_eq_true_eq] at hgone
        obtain rfl : e' = e := Table.eq_of_clash he' he (by simp [Keyed.clash, hgone.2, hm])
        simp [hp] at hgone
      exact .inl (.inl ⟨e, Table.mem_deleteWhere.2 ⟨he, hp⟩, ha, hid, em, hkept, hm, hv⟩)
  · exact .inl (.inr hc)

theorem deleteChunks_readable {st : Store} (p : ChunkRow → Bool) {id : I64} {v : Vector}
    (h : st.Readable cfg.embedderId id v) : (st.deleteChunks p).Readable cfg.embedderId id v ∨
      ∃ c ∈ st.documentChunks, p c = true ∧ chunkHnswId c.rowid.toI64 = id := by
  rcases h with he | ⟨c, hc, ha, hid, ce, hce, hm, hv⟩
  · exact .inl (.inl he)
  · cases hp : p c with
    | true => exact .inr ⟨c, hc, hp, hid⟩
    | false =>
      have hkept : ce ∈ (st.deleteChunks p).chunkEmbeddings := by
        refine Table.mem_deleteWhere.2 ⟨hce, List.any_eq_false.2 fun c' hc' hgone => ?_⟩
        simp only [Bool.and_eq_true, decide_eq_true_eq] at hgone
        obtain rfl : c' = c := Table.eq_of_clash hc' hc (by simp [Keyed.clash, hgone.2, hm])
        simp [hp] at hgone
      exact .inl (.inr ⟨c, Table.mem_deleteWhere.2 ⟨hc, hp⟩, ha, hid, ce, hkept, hm, hv⟩)

theorem deleteDocuments_readable {st : Store} (p : DocumentRow → Bool) {id : I64} {v : Vector}
    (h : st.Readable cfg.embedderId id v) : (st.deleteDocuments p).Readable cfg.embedderId id v ∨
      ∃ c ∈ st.documentChunks, (∃ d ∈ st.documents, p d = true ∧ d.docId = c.docId) ∧
        chunkHnswId c.rowid.toI64 = id := by
  rcases deleteChunks_readable (fun c => st.documents.rows.any fun d => p d && d.docId = c.docId)
    h with (he | ⟨c, hc, ha, hid, hv⟩) | ⟨c, hc, hp, hid⟩
  · exact .inl (.inl he)
  · refine .inl (.inr ⟨c, hc, ?_, hid, hv⟩)
    simp only [Store.chunkActive, Option.any_eq_true] at ha ⊢
    obtain ⟨d, hd, hactive⟩ := ha
    obtain ⟨hd, hdoc⟩ := Store.document?_eq_some.1 hd
    obtain ⟨-, hnone⟩ := Table.mem_deleteWhere.1 hc
    have hp : p d = false := by
      have := List.any_eq_false.1 hnone d hd
      simpa [hdoc] using this
    exact ⟨d, Store.document?_eq_some.2 ⟨Table.mem_deleteWhere.2 ⟨hd, hp⟩, hdoc⟩, hactive⟩
  · obtain ⟨d, hd, hp⟩ := List.any_eq_true.1 hp
    simp only [Bool.and_eq_true, decide_eq_true_eq] at hp
    exact .inr ⟨c, hc, ⟨d, hd, hp⟩, hid⟩

/-- What an erasure hides it reports for tombstoning: a document goes only with chunks that are all
the principal's. -/
theorem deletePrincipalRows_readable {st st' : Store} {principal : String} {scope : AssetScope}
    {outcome : DeleteOutcome} (hrows : deletePrincipalRows st principal scope = .ok (st', outcome))
    {id : I64}
    {v : Vector} (hr : st.Readable cfg.embedderId id v) : st'.Readable cfg.embedderId id v ∨
      id ∈ outcome.episodeRowids.map (fun r => episodeHnswId r.toI64) ++
        outcome.chunkRowids.map fun r => chunkHnswId r.toI64 := by
  unfold deletePrincipalRows at hrows
  split at hrows
  · cases hrows
  split at hrows
  · cases hrows
  split at hrows
  · cases hrows
  simp only [Except.ok.injEq, Prod.mk.injEq] at hrows
  obtain ⟨rfl, rfl⟩ := hrows
  rw [List.mem_append, List.map_map, List.map_map]
  rcases deleteEpisodes_readable (fun e => decide (e.principalSubject = some principal)) hr with
    hr | ⟨e, he, hmine, rfl⟩
  · rcases deleteChunks_readable (fun c => decide (c.ingestedByPrincipal = some principal)) hr with
      hr | ⟨c, hc, hmine, rfl⟩
    · rcases deleteDocuments_readable (st.forgetDocs principal scope)
        hr with hr | ⟨c, hc, ⟨d, -, hp, hdoc⟩, -⟩
      · exact .inl hr
      · obtain ⟨hc, hother⟩ := Table.mem_deleteWhere.1 hc
        simp only [Store.forgetDocs, Bool.and_eq_true, Bool.not_eq_true', List.any_eq_false,
          decide_eq_true_eq, not_and, not_not] at hp
        simp [hp.1.2 c hc hdoc.symm] at hother
    · exact .inr (.inr (List.mem_map.2 ⟨c, List.mem_filter.2 ⟨hc, hmine⟩, rfl⟩))
  · exact .inr (.inl (List.mem_map.2 ⟨e, List.mem_filter.2 ⟨he, hmine⟩, rfl⟩))

theorem foldl_remove (hnsw : HnswIndex) (ids : List I64) :
    (ids.foldl HnswIndex.remove hnsw).points = hnsw.points ∧
    ∀ id, id ∈ (ids.foldl HnswIndex.remove hnsw).tombstones ↔ id ∈ hnsw.tombstones ∨ id ∈ ids := by
  induction ids generalizing hnsw with
  | nil => simp
  | cons x ids ih =>
    obtain ⟨hpoints, hdead⟩ := ih (hnsw.remove x)
    refine ⟨hpoints, fun id => ?_⟩
    rw [List.foldl_cons, hdead, List.mem_cons]
    simp only [HnswIndex.remove, Finset.mem_insert]
    tauto

theorem Inv.erase (h : s.Inv cfg) (principal : String) (scope : AssetScope) :
    (s.step cfg (.erase principal scope)).Inv cfg := by
  obtain ⟨lib, writer, caller⟩ := s
  simp only [step, handleForgetPrincipalRows]
  split
  · cases hrows : deletePrincipalRows lib.store principal scope with
    | error e => exact ⟨h.dim, h.served, fun _ _ _ _ heq => nomatch heq⟩
    | ok r =>
      obtain ⟨store, outcome⟩ := r
      obtain ⟨hpoints, hdead⟩ :=
        foldl_remove lib.hnsw (outcome.episodeRowids.map (fun r => episodeHnswId r.toI64) ++
        outcome.chunkRowids.map fun r => chunkHnswId r.toI64)
      refine ⟨(foldl_remove_live _ _).1.trans h.dim, fun id v hp ht => .inl ?_,
        fun _ _ _ _ heq => nomatch heq⟩
      simp only [DeleteOutcome.invalidateVectors, hpoints, hdead, not_or] at hp ht
      have hr := (h.served id v hp ht.1).resolve_right fun hw => hw.elim
      exact (deletePrincipalRows_readable hrows hr).resolve_right ht.2
  · exact h

/-- Adding a row that is current, or on its way out. -/
theorem Inv.readd (h : s.Inv cfg) {r : Rowid × IndexRow}
    (hg : s.Current cfg r) (caller : CallerPc) :
    Inv cfg ⟨s.lib.readd r, s.writer, caller⟩ := by
  cases hadd : addRebuildRow s.lib.hnsw r.2 with
  | none => 
    have heq : s.lib.readd r = s.lib := by simp [Library.readd, hadd]
    rw [heq]
    exact ⟨h.dim, h.served, h.indexing⟩
  | some hnsw =>
    have heq : s.lib.readd r = { s.lib with hnsw := hnsw } := by simp [Library.readd, hadd]
    obtain ⟨v, hv, hadd⟩ := addRebuildRow_eq_some.1 hadd
    obtain ⟨-, hlen, rfl⟩ := HnswIndex.add_eq_ok.1 hadd
    have hg := hg v hv (hlen.trans h.dim)
    rw [heq]
    refine ⟨h.dim, fun id w hp ht => ?_, fun rowid v' m d hw => ?_⟩
    · by_cases hid : id = r.2.hnswId
      · subst hid
        rcases hg with ⟨hr, hpoints⟩ | hwill
        · have hw : w = v := by
            rcases List.mem_append.1 hp with hp | hp
            · exact hpoints w hp
            · exact congrArg Prod.fst (List.mem_singleton.1 hp)
          exact .inl (hw ▸ hr)
        · exact .inr hwill
      · exact h.served id w (by simpa [hid] using hp) (by simpa [hid] using ht)
    · obtain ⟨hpoints, honly, hnew⟩ := h.indexing rowid v' m d hw
      refine ⟨fun w hp => ?_, honly, hnew⟩
      rcases List.mem_append.1 hp with hp | hp
      · exact hpoints w hp
      · obtain ⟨rfl, rfl⟩ := Prod.mk.inj (List.mem_singleton.1 hp)
        refine honly w (hg.resolve_right fun hwill => ?_).1
        rw [hw] at hwill
        exact hwill

theorem Inv.caller (h : s.Inv cfg) (hg : s.Undisturbed cfg .caller) :
    (s.step cfg .caller).Inv cfg := by
  obtain ⟨lib, writer, caller⟩ := s
  simp only [step]
  cases caller with
  | episodes rows =>
    cases rows with
    | nil => exact ⟨h.dim, h.served, h.indexing⟩
    | cons r rows => exact h.readd hg _
  | chunks rows =>
    cases rows with
    | nil => exact ⟨h.dim, h.served, h.indexing⟩
    | cons r rows => exact h.readd hg _
  | _ => exact ⟨h.dim, h.served, h.indexing⟩

theorem Inv.step (h : s.Inv cfg) {e : ErasureEvent} (hg : s.Undisturbed cfg e) :
    (s.step cfg e).Inv cfg := by
  cases e with
  | command c => exact h.command hg
  | writer => exact h.writer
  | erase principal scope => exact h.erase principal scope
  | caller => exact h.caller hg

/-- In every undisturbed run from an exact index, the index is exact whenever the writer is between
two commands, so also when all commands and the erasure have finished. -/
theorem erasure_exact {lib : Library} (hdim : lib.hnsw.dim = cfg.dim) (hexact : lib.Exact cfg)
    {events : List ErasureEvent}
    (hg : Run.Guarded (step cfg) (Undisturbed cfg) (start lib) events) :
    Run.Always (step cfg) (fun s => s.writer = .idle → s.lib.Exact cfg) (start lib) events :=
  hg.always (Inv cfg) (fun _ _ h hg => h.step hg) (fun _ h => h.exact) (inv_start hdim hexact)

/-- One memory of the principal to be erased, and one that stays. -/
def twoRemembered : Library :=
  (Run.run (Session.step Session.cfgOne) (Session.new Session.cfgOne)
    [Session.rememberOne "a" (some "alice"), Session.rememberOne "b" none]).lib

def eraseAlice : ErasureEvent := .erase "alice" ⟨[], [], false, true, 0, 0⟩

/-- The memory that stays is forgotten after it was added again. -/
def forgottenAfterAdd : List ErasureEvent :=
  [eraseAlice, .caller, .caller, .command (.forget "b"), .writer, .writer, .caller, .caller]

theorem twoRemembered_served {id : I64} {v : Vector} (hp : (v, id) ∈ twoRemembered.hnsw.points) :
    twoRemembered.store.Readable 1 id v := by
  have hpoints : twoRemembered.hnsw.points = [([0x3F800000#32], 1), ([0x3F800000#32], 2)] := by
    decide
  rw [hpoints] at hp
  simp only [List.mem_cons, Prod.mk.injEq, List.not_mem_nil, or_false] at hp
  rcases hp with ⟨rfl, rfl⟩ | ⟨rfl, rfl⟩
  · exact .inl ⟨⟨⟨1, by decide⟩, "a", 0, .hot, .active, some "alice"⟩, by decide, rfl, by decide,
      ⟨"a", 1, .f32, 1, Session.embOne.data⟩, by decide, rfl, rfl, by decide⟩
  · exact .inl ⟨⟨⟨2, by decide⟩, "b", 0, .hot, .active, none⟩, by decide, rfl, by decide,
      ⟨"b", 1, .f32, 1, Session.embOne.data⟩, by decide, rfl, rfl, by decide⟩

theorem twoRemembered_exact : twoRemembered.Exact Session.cfgOne := by
  refine ⟨fun id hlive => ?_, fun id v _ hp => (Store.readable_iff.1 (twoRemembered_served hp)).2⟩
  obtain ⟨⟨v, id⟩, hp, rfl⟩ := List.mem_map.1 hlive.1
  exact (Store.readable_iff.1 (twoRemembered_served hp)).1

theorem forgottenAfterAdd_undisturbed :
    Run.Guarded (step Session.cfgOne) (Undisturbed Session.cfgOne)
    (start twoRemembered) forgottenAfterAdd := by
  refine ⟨trivial, trivial, fun v hv _ => .inl ?_, trivial, trivial, trivial, trivial, trivial,
    trivial⟩
  obtain rfl : [0x3F800000#32] = v := by
    have hdec : decodeF32 [0, 0, 128, 63] 1 = some [0x3F800000#32] := by decide
    exact Option.some.inj (hdec.symm.trans hv)
  refine ⟨.inl ⟨⟨⟨2, by decide⟩, "b", 0, .hot, .active, none⟩, by decide, rfl, by decide,
    ⟨"b", 1, .f32, 1, Session.embOne.data⟩, by decide, rfl, rfl, by decide⟩, fun w hw => ?_⟩
  have hpoints :
      (Run.run (step Session.cfgOne) (start twoRemembered) [eraseAlice, .caller]).lib.hnsw.points =
      [([0x3F800000#32], 1), ([0x3F800000#32], 2)] := by decide
  have hw :
      (w, 2) ∈ (Run.run (step Session.cfgOne) (start twoRemembered)
        [eraseAlice, .caller]).lib.hnsw.points := hw
  rw [hpoints] at hw
  simpa using hw

theorem erasure_exact_forgottenAfterAdd : Run.Always (step Session.cfgOne)
    (fun s => s.writer = .idle → s.lib.Exact Session.cfgOne) (start twoRemembered)
    forgottenAfterAdd :=
  erasure_exact (by decide) twoRemembered_exact forgottenAfterAdd_undisturbed

/-- The memory that stays is forgotten between the select and its `add`. -/
def forgottenBeforeAdd : List ErasureEvent :=
  [eraseAlice, .caller, .command (.forget "b"), .writer, .writer, .caller, .caller, .caller]

theorem forgottenBeforeAdd_not_exact :
    twoRemembered.Exact Session.cfgOne ∧
      (Run.run (step Session.cfgOne) (start twoRemembered) forgottenBeforeAdd).writer = .idle ∧
      (Run.run (step Session.cfgOne) (start twoRemembered) forgottenBeforeAdd).caller = .finished ∧
      ¬(Run.run (step Session.cfgOne) (start twoRemembered) forgottenBeforeAdd).lib.Exact
      Session.cfgOne := by
  refine ⟨twoRemembered_exact, rfl, rfl, fun h => ?_⟩
  have hactive := h.active 2 (by decide)
  have hdecode : decodeHnswId 2 = (.episode, 2) := by decide
  have hrows :
      (Run.run (step Session.cfgOne) (start twoRemembered)
        forgottenBeforeAdd).lib.store.episodes.rows =
      [⟨⟨2, by decide⟩, "b", 0, .hot, .forgotten, none⟩] := by decide
  rw [Store.ActiveId, hdecode] at hactive
  obtain ⟨e, he, -, ha⟩ := hactive
  rw [← Table.mem_rows, hrows, List.mem_singleton] at he
  rw [he] at ha
  cases ha

end Erasure

end Solo
