import Solo.Lib.Result
import Solo.Store.Open

/-!
# The outbox mirrors the embeddings

Every statement of the writer keeps `OutboxInv`: an outbox row of an episode holds the vector of the
episode's embedding row, and stored vectors have the length their element type and dimension ask
for. So an outbox row of an episode whose embedding is a binary32 vector of the index dimension can
be replayed. The dimension of the running index never changes.
-/

namespace Solo

open Result

theorem castF32_of_length {n : Nat} {blob : Blob} (h : blob.length = 4 * n) :
    ∃ v, castF32 blob = some v ∧ v.length = n := by
  induction n generalizing blob with
  | zero =>
    obtain rfl := List.length_eq_zero_iff.1 h
    exact ⟨[], rfl, rfl⟩
  | succ n ih =>
    match blob, h with
    | b0 :: b1 :: b2 :: b3 :: rest, h =>
      have hrest : rest.length = 4 * n := by
        simp at h
        omega
      obtain ⟨v, hv, hlen⟩ := ih hrest
      exact ⟨_, by rw [castF32, hv]; rfl, by simp [hlen]⟩

theorem length_of_castF32 {blob : Blob} {v : Vector} (h : castF32 blob = some v) :
    blob.length = 4 * v.length := by
  induction v generalizing blob with
  | nil =>
    match blob, h with
    | [], _ => rfl
    | _ :: _ :: _ :: _ :: rest, h => simp [castF32] at h
  | cons x v ih =>
    match blob, h with
    | [], h => simp [castF32] at h
    | b0 :: b1 :: b2 :: b3 :: rest, h =>
      simp only [castF32, Option.map_eq_some_iff, List.cons.injEq] at h
      obtain ⟨v', hv', -, rfl⟩ := h
      have := ih hv'
      simp only [List.length_cons]
      omega

theorem decodeF32_of_length {n : Nat} {blob : Blob} (hn : n < 2 ^ 32) (h : blob.length = 4 * n) :
    ∃ v, decodeF32 blob n = some v ∧ v.length = n := by
  have hsize : asUsize n * 4 % 2 ^ 64 = 4 * n := by
    have : asUsize n = n := by unfold asUsize; omega
    rw [this]
    omega
  obtain ⟨v, hv, hlen⟩ := castF32_of_length h
  exact ⟨v, by rw [decodeF32, if_neg (by rw [hsize, h]; simp), hv], hlen⟩

/-- What an embedding stores can be read back, as far as its size in bytes is a `u64`. -/
theorem decodeF32_embedding {emb : Embedding} {v : Vector} (hvalid : emb.valid = true)
    (hv : emb.asF32Slice = some v) (hsize : 4 * v.length < 2 ^ 64) :
    decodeF32 emb.data emb.dim = some v := by
  unfold Embedding.asF32Slice at hv
  split at hv
  · next hf32 =>
    have hlen := length_of_castF32 hv
    have hdata : emb.data.length = 4 * emb.dim := by
      simpa [Embedding.valid, hf32, EmbeddingDtype.bytesForDim] using hvalid
    have hsize' : asUsize emb.dim * 4 % 2 ^ 64 = 4 * emb.dim := by
      unfold asUsize
      omega
    rw [decodeF32, if_neg (by rw [hsize', hdata]; simp), hv]
  · cases hv

namespace Store

structure OutboxInv (cfg : Config) (s : Store) : Prop where
  mirror : ∀ p ∈ s.pendingIndex, ∀ m, p.target = .episode m → ∃ em ∈ s.embeddings, em.memoryId = m ∧
    em.embedderId = cfg.embedderId ∧ em.vector = p.embedding ∧ em.dim = p.embeddingDim
  valid : ∀ em ∈ s.embeddings, em.vector.length = em.dtype.bytesForDim em.dim.toNat

/-- The episode's embedding by the current embedder is a binary32 vector of the index dimension. -/
def WellEmbedded (cfg : Config) (s : Store) (m : MemoryId) : Prop :=
  ∃ em ∈ s.embeddings, em.memoryId = m ∧ em.embedderId = cfg.embedderId ∧ em.dtype = .f32 ∧
    em.dim = cfg.dim

variable {cfg : Config} {s s' : Store} {m : MemoryId}

theorem outboxInv_empty : Store.empty.OutboxInv cfg :=
  ⟨fun _ hp => absurd hp Table.not_mem_empty, fun _ hem => absurd hem Table.not_mem_empty⟩

theorem WellEmbedded.decode (hinv : s.OutboxInv cfg) (h : s.WellEmbedded cfg m) :
    ∃ em ∈ s.embeddings, em.memoryId = m ∧ em.embedderId = cfg.embedderId ∧
      ∃ v, decodeF32 em.vector em.dim = some v ∧ v.length = cfg.dim := by
  obtain ⟨em, hem, hm, hid, hf32, hdim⟩ := h
  have hlen := hinv.valid em hem
  rw [hf32, hdim, Int.toNat_natCast] at hlen
  exact ⟨em, hem, hm, hid, hdim ▸ decodeF32_of_length cfg.dim_lt hlen⟩

/-- An outbox row of a well embedded episode can be replayed. -/
theorem WellEmbedded.addable (hinv : s.OutboxInv cfg) (h : s.WellEmbedded cfg m) {p : PendingRow}
    (hp : p ∈ s.pendingIndex) (ht : p.target = .episode m) : p.Addable cfg.dim := by
  obtain ⟨em, hem, hm, hid, v, hv, hlen⟩ := h.decode hinv
  obtain ⟨em', hem', hm', hid', hvec, hdim⟩ := hinv.mirror p hp m ht
  obtain rfl : em = em' := Table.eq_of_clash hem hem' (by simp [Keyed.clash, hm, hm', hid, hid'])
  exact ⟨v, by rw [← hvec, ← hdim, hv], hlen⟩

/-- Statements that leave the embeddings alone and at most add outbox rows of chunks. -/
theorem OutboxInv.of_embeddings_eq (h : s.OutboxInv cfg) (hemb : s'.embeddings = s.embeddings)
    (hp : ∀ p ∈ s'.pendingIndex, p ∈ s.pendingIndex ∨ ∃ c, p.target = .chunk c) :
    s'.OutboxInv cfg := by
  refine ⟨fun p hp' m hm => ?_, hemb ▸ h.valid⟩
  rw [hemb]
  rcases hp p hp' with hold | ⟨c, hc⟩
  · exact h.mirror p hold m hm
  · rw [hc] at hm
    cases hm

theorem OutboxInv.drained (h : s.OutboxInv cfg) {p : PendingRow → Bool} :
    (s.drained fun t => t.deleteWhere p).OutboxInv cfg :=
  h.of_embeddings_eq rfl fun _ hp => .inl (Table.mem_deleteWhere.1 hp).1

/-- What one remembered episode adds. -/
theorem rememberRow_eq_ok {nowMs : Int} {principal : Option String} {item : NewEpisode × Embedding}
    {rowid : Rowid} (h : rememberRow cfg nowMs principal s item = .ok (s', rowid)) :
    s.embeddings.insert? (.ofEmbedding cfg item.1.memoryId item.2) = some s'.embeddings ∧
    s.pendingIndex.insert? ⟨.episode item.1.memoryId, item.2.data, item.2.dim, nowMs⟩ =
      some s'.pendingIndex ∧ s'.documents = s.documents ∧ s'.documentChunks = s.documentChunks := by
  unfold rememberRow at h
  simp only [bind_eq_ok, orStorage_eq_ok, pure_eq_ok, Prod.mk.injEq] at h
  obtain ⟨r, -, eps, -, ems, hems, pend, hpend, rfl, -⟩ := h
  exact ⟨hems, hpend, rfl, rfl⟩

theorem OutboxInv.rememberRow (h : s.OutboxInv cfg) {nowMs : Int} {principal : Option String}
    {item : NewEpisode × Embedding} {rowid : Rowid} (hvalid : item.2.valid = true)
    (hrow : rememberRow cfg nowMs principal s item = .ok (s', rowid)) : s'.OutboxInv cfg := by
  obtain ⟨hems, hpend, -, -⟩ := rememberRow_eq_ok hrow
  refine ⟨fun p hp m hm => ?_, fun em hem => ?_⟩
  · rcases (Table.mem_insert hpend).1 hp with hold | rfl
    · obtain ⟨em, hem, hrest⟩ := h.mirror p hold m hm
      exact ⟨em, (Table.mem_insert hems).2 (.inl hem), hrest⟩
    · cases hm
      exact ⟨_, (Table.mem_insert hems).2 (.inr rfl), rfl, rfl, rfl, rfl⟩
  · rcases (Table.mem_insert hems).1 hem with hold | rfl
    · exact h.valid em hold
    · simpa [Embedding.valid, EmbeddingRow.ofEmbedding] using hvalid

theorem OutboxInv.rememberRows (h : s.OutboxInv cfg) {nowMs : Int} {principal : Option String}
    {items : List (NewEpisode × Embedding)} {rowids : List Rowid}
    (hvalid : ∀ item ∈ items, item.2.valid = true)
    (hrows : rememberRows cfg nowMs principal s items = .ok (s', rowids)) : s'.OutboxInv cfg := by
  induction items generalizing s rowids with
  | nil =>
    cases hrows
    exact h
  | cons item items ih =>
    rw [Solo.rememberRows] at hrows
    simp only [bind_eq_ok, pure_eq_ok, Prod.exists, Prod.mk.injEq] at hrows
    obtain ⟨s₁, rowid, h₁, s₂, rowids, h₂, rfl, -⟩ := hrows
    exact ih (h.rememberRow (hvalid item List.mem_cons_self) h₁)
      (fun item hitem => hvalid item (List.mem_cons_of_mem _ hitem)) h₂

/-- An update replaces embedding and outbox row together. -/
theorem OutboxInv.updateRows (h : s.OutboxInv cfg) {nowMs : Int} {emb : Embedding} {rowid : Rowid}
    (hvalid : emb.valid = true) (hrow : updateRows cfg nowMs s m emb = .ok (s', rowid)) :
    s'.OutboxInv cfg := by
  unfold Solo.updateRows at hrow
  split at hrow
  · cases hrow
  · split at hrow
    · cases hrow
    · simp only [bind_eq_ok, orStorage_eq_ok, pure_eq_ok, Prod.mk.injEq] at hrow
      obtain ⟨ems, hems, pend, hpend, rfl, -⟩ := hrow
      have hlen : emb.data.length = emb.dtype.bytesForDim emb.dim := by
        simpa [Embedding.valid] using hvalid
      have hnew : ∃ em ∈ ems, em.memoryId = m ∧ em.embedderId = cfg.embedderId ∧
          em.vector = emb.data ∧ em.dim = emb.dim := by
        rcases Table.exists_mem_upsert hems with hr | ⟨b, -, hb, hmem⟩
        · exact ⟨_, hr, rfl, rfl, rfl, rfl⟩
        · simp only [Bool.and_eq_true, decide_eq_true_eq] at hb
          exact ⟨_, hmem, hb.1, hb.2, rfl, rfl⟩
      have hvalid' : ∀ em ∈ ems, em.vector.length = em.dtype.bytesForDim em.dim.toNat := by
        intro em hem
        rcases Table.mem_of_mem_upsert hems hem with rfl | ⟨b, -, -, rfl⟩ | ⟨hold, -⟩
        · simpa [EmbeddingRow.ofEmbedding] using hlen
        · simpa using hlen
        · exact h.valid em hold
      refine ⟨fun p hp m' hm' => ?_, hvalid'⟩
      rcases Table.mem_of_mem_upsert hpend hp with rfl | ⟨q, -, hq, rfl⟩ | ⟨hold, hne⟩
      · cases hm'
        exact hnew
      · simp only [decide_eq_true_eq] at hq
        rw [hq] at hm'
        cases hm'
        exact hnew
      · obtain ⟨em, hem, hm, hrest⟩ := h.mirror p hold m' hm'
        have hmm : m' ≠ m := by
          rintro rfl
          simp [hm'] at hne
        exact ⟨em, Table.mem_upsert_of_not hems hem (by simp [hm, hmm]), hm, hrest⟩

theorem OutboxInv.ingestChunk (h : s.OutboxInv cfg) {nowMs : Int} {principal : Option String}
    {docId : DocumentId} {idx : Nat} {chunk : ChunkId × Embedding} {rowid : Rowid}
    (hrow : ingestChunk cfg nowMs principal docId s idx chunk = .ok (s', rowid)) :
    s'.OutboxInv cfg := by
  unfold Solo.ingestChunk at hrow
  simp only [bind_eq_ok, orStorage_eq_ok, pure_eq_ok, Prod.mk.injEq] at hrow
  obtain ⟨r, -, chunks, -, ems, -, pend, hpend, rfl, -⟩ := hrow
  refine h.of_embeddings_eq rfl fun p hp => ?_
  rcases (Table.mem_insert hpend).1 hp with hold | rfl
  · exact .inl hold
  · exact .inr ⟨_, rfl⟩

theorem OutboxInv.ingestChunks (h : s.OutboxInv cfg) {nowMs : Int} {principal : Option String}
    {docId : DocumentId} {idx : Nat} {chunks : List (ChunkId × Embedding)} {rowids : List Rowid}
    (hrows : ingestChunks cfg nowMs principal docId s idx chunks = .ok (s', rowids)) :
    s'.OutboxInv cfg := by
  induction chunks generalizing s idx rowids with
  | nil =>
    cases hrows
    exact h
  | cons chunk chunks ih =>
    rw [Solo.ingestChunks] at hrows
    simp only [bind_eq_ok, pure_eq_ok, Prod.exists, Prod.mk.injEq] at hrows
    obtain ⟨s₁, rowid, h₁, s₂, rowids, h₂, rfl, -⟩ := hrows
    exact ih (h.ingestChunk h₁) h₂

theorem OutboxInv.ingestRows (h : s.OutboxInv cfg) {nowMs : Int} {principal : Option String}
    {file : IngestInput} {embeddings : List Embedding} {rowids : List Rowid}
    (hrows : ingestRows cfg nowMs principal s file embeddings = .ok (s', rowids)) :
    s'.OutboxInv cfg := by
  unfold Solo.ingestRows at hrows
  simp only [bind_eq_ok, orStorage_eq_ok] at hrows
  obtain ⟨docs, -, hrows⟩ := hrows
  have h' : OutboxInv cfg { s with documents := docs } := h.of_embeddings_eq rfl fun _ hp => .inl hp
  exact h'.ingestChunks hrows

theorem OutboxInv.deleteEpisodes (h : s.OutboxInv cfg) (p : EpisodeRow → Bool) :
    (s.deleteEpisodes p).OutboxInv cfg := by
  refine ⟨fun r hr m hm => ?_, fun em hem => h.valid em (Table.mem_deleteWhere.1 hem).1⟩
  obtain ⟨hold, hgone⟩ := Table.mem_deleteWhere.1 hr
  obtain ⟨em, hem, hrest⟩ := h.mirror r hold m hm
  refine ⟨em, Table.mem_deleteWhere.2 ⟨hem, ?_⟩, hrest⟩
  rw [hrest.1]
  simpa [hm] using hgone

theorem OutboxInv.deleteChunks (h : s.OutboxInv cfg) (p : ChunkRow → Bool) :
    (s.deleteChunks p).OutboxInv cfg :=
  h.of_embeddings_eq rfl fun _ hr => .inl (Table.mem_deleteWhere.1 hr).1

theorem OutboxInv.deletePrincipalRows (h : s.OutboxInv cfg) {principal : String}
    {scope : AssetScope}
    {outcome : DeleteOutcome} (hrows : deletePrincipalRows s principal scope = .ok (s', outcome)) :
    s'.OutboxInv cfg := by
  unfold Solo.deletePrincipalRows at hrows
  split at hrows
  · cases hrows
  split at hrows
  · cases hrows
  split at hrows
  · cases hrows
  simp only [Except.ok.injEq, Prod.mk.injEq] at hrows
  rw [← hrows.1]
  exact (((h.deleteEpisodes _).deleteChunks _).deleteChunks _).of_embeddings_eq rfl fun _ hp =>
    .inl hp

theorem replayStep_pending {drains : Drains} {st : ReplayState} (step : ReplayStep) {p : PendingRow}
    (hp : p ∈ (replayStep s drains st step).pending) : p ∈ st.pending := by
  cases step with
  | row r =>
    cases hadd : addRebuildRow st.hnsw r.row with
    | none =>
      simp only [replayStep, hadd] at hp
      exact hp
    | some hnsw =>
      cases hdrain : drains.row r.target with
      | true =>
        simp only [replayStep, hadd, hdrain, if_true] at hp
        exact (Table.mem_deleteWhere.1 hp).1
      | false => simpa [replayStep, hadd, hdrain] using hp
  | gcEpisodes => exact (Table.mem_deleteWhere.1 hp).1
  | gcChunks => exact (Table.mem_deleteWhere.1 hp).1

theorem replayRun_pending {drains : Drains} {st : ReplayState} {steps : List ReplayStep}
    {p : PendingRow}
    (hp : p ∈ (Run.run (replayStep s drains) st steps).pending) : p ∈ st.pending := by
  induction steps generalizing st with
  | nil => exact hp
  | cons step steps ih => exact replayStep_pending step (ih hp)

theorem OutboxInv.openCut (h : s.OutboxInv cfg) (env : OpenEnv) (dir : Dir HnswDump) (n : Nat) :
    (openCut cfg env s dir n).OutboxInv cfg := by
  unfold Solo.openCut
  split
  · exact h
  · exact h.of_embeddings_eq rfl fun _ hp => .inl (replayRun_pending hp)

end Store

end Solo
