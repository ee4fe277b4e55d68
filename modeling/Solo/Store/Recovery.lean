import Mathlib.Data.List.Sort
import Solo.Store.Schema

/-!
# Recovery of the index (`recovery.rs`, `hnsw_rebuild.rs`)

`rebuildHnswFromSql` adds every active row with an embedding of the current embedder,
`replayPendingIndex` adds the outbox rows whose target is active and drains those it added, then
drops the rows whose target is gone. Replay is a list of steps, so that a crash can cut it anywhere:
what survives a crash is the outbox as far as it was drained. A DELETE that fails is logged and its
rows stay (`Drains`).

Both passes are sequences of `add` calls with ids that are never negative, so a row is added exactly
when its vector has the dimension of the index (`Addable`), whatever was added before it.
-/

namespace Solo

/-- `dim as usize`. -/
def asUsize (dim : Int) : Nat := (dim % 2 ^ 64).toNat

/-- The size check and the cast of a stored vector; `dim * 4` wraps. -/
def decodeF32 (blob : Blob) (dim : Int) : Option Vector :=
  if blob.length ≠ asUsize dim * 4 % 2 ^ 64 then none else castF32 blob

/-- A stored vector for an id: a row that `add_rebuild_row` or replay tries to add. -/
structure IndexRow where
  hnswId : I64
  blob : Blob
  dim : Int

/-- The stored bytes are a binary32 vector of the index dimension. -/
def IndexRow.Addable (dim : Nat) (r : IndexRow) : Prop :=
  ∃ v, decodeF32 r.blob r.dim = some v ∧ v.length = dim

instance (dim : Nat) (r : IndexRow) : Decidable (r.Addable dim) :=
  decidable_of_iff ((decodeF32 r.blob r.dim).any fun v => v.length = dim) <| by
    simp [IndexRow.Addable, Option.any_eq_true]

/-- `add_rebuild_row`: the index with the row added, or `none` where the row is skipped. -/
def addRebuildRow (hnsw : HnswIndex) (r : IndexRow) : Option HnswIndex :=
  match decodeF32 r.blob r.dim with
  | none => none
  | some v => (hnsw.add r.hnswId v).toOption

theorem addRebuildRow_eq_some {hnsw hnsw' : HnswIndex} {r : IndexRow} :
    addRebuildRow hnsw r = some hnsw' ↔
      ∃ v, decodeF32 r.blob r.dim = some v ∧ hnsw.add r.hnswId v = .ok hnsw' := by
  unfold addRebuildRow
  cases decodeF32 r.blob r.dim with
  | none => simp
  | some v => cases h : hnsw.add r.hnswId v <;> simp [h, Except.toOption]

theorem addRebuildRow_isSome {hnsw : HnswIndex} {r : IndexRow} (hid : r.hnswId.msb = false) :
    (∃ hnsw', addRebuildRow hnsw r = some hnsw') ↔ r.Addable hnsw.dim := by
  simp only [addRebuildRow_eq_some, IndexRow.Addable]
  constructor
  · rintro ⟨hnsw', v, hv, hadd⟩
    exact ⟨v, hv, (HnswIndex.add_eq_ok.1 hadd).2.1⟩
  · rintro ⟨v, hv, hlen⟩
    obtain ⟨hnsw', hadd⟩ := HnswIndex.add_isOk.2 ⟨hid, hlen⟩
    exact ⟨hnsw', v, hv, hadd⟩

/-! ### Rebuild from SQL -/

structure RebuildReport where
  rowsSeen : Nat := 0
  rowsAdded : Nat := 0
  rowsSkipped : Nat := 0
  episodesSeen : Nat := 0
  episodesAdded : Nat := 0
  chunksSeen : Nat := 0
  chunksAdded : Nat := 0
  deriving DecidableEq

namespace RebuildReport

def addRow (report : RebuildReport) (kind : HnswIdKind) (added : Bool) : RebuildReport :=
  let n := if added then 1 else 0
  let report := { report with
    rowsSeen := report.rowsSeen + 1
    rowsAdded := report.rowsAdded + n
    rowsSkipped := report.rowsSkipped + (1 - n) }
  match kind with
  | .episode => { report with
      episodesSeen := report.episodesSeen + 1
      episodesAdded := report.episodesAdded + n }
  | .chunk => { report with
      chunksSeen := report.chunksSeen + 1
      chunksAdded := report.chunksAdded + n }

end RebuildReport

namespace Store

/-- `SELECT e.rowid, em.vector, em.dim FROM episodes e JOIN embeddings em ... ORDER BY e.rowid`. -/
def rebuildEpisodeRows (s : Store) (embedderId : Nat) : List (Rowid × IndexRow) :=
  (s.episodes.rows.flatMap fun e =>
    (s.embeddings.rows.filter fun em =>
      em.memoryId = e.memoryId && em.embedderId = embedderId && e.status = .active).map fun em =>
        (e.rowid, ⟨episodeHnswId e.rowid.toI64, em.vector, em.dim⟩)).insertionSort fun a b =>
          a.1.val ≤ b.1.val

/-- The chunk-side select, joined to the document for its status. -/
def rebuildChunkRows (s : Store) (embedderId : Nat) : List (Rowid × IndexRow) :=
  (s.documentChunks.rows.flatMap fun c =>
    (s.chunkEmbeddings.rows.filter fun ce =>
      ce.chunkId = c.chunkId && ce.embedderId = embedderId && s.chunkActive c).map fun ce =>
        (c.rowid, ⟨chunkHnswId c.rowid.toI64, ce.vector, ce.dim⟩)).insertionSort fun a b =>
          a.1.val ≤ b.1.val

end Store

/-- One row of a rebuild pass: a row that cannot be added is counted and skipped. -/
def rebuildStep (kind : HnswIdKind) (st : HnswIndex × RebuildReport) (r : Rowid × IndexRow) :
    HnswIndex × RebuildReport :=
  match addRebuildRow st.1 r.2 with
  | some hnsw => (hnsw, st.2.addRow kind true)
  | none => (st.1, st.2.addRow kind false)

/-- `rebuild_hnsw_from_sql` on a migrated database (the document tables exist). -/
def rebuildHnswFromSql (s : Store) (hnsw : HnswIndex) (embedderId : Nat) :
    HnswIndex × RebuildReport :=
  let st := Run.run (rebuildStep .episode) (hnsw, {}) (s.rebuildEpisodeRows embedderId)
  Run.run (rebuildStep .chunk) st (s.rebuildChunkRows embedderId)

/-! ### Tombstones -/

/-- `rebuild_episode_tombstones_from_sql`. -/
def rebuildEpisodeTombstonesFromSql (s : Store) (hnsw : HnswIndex) : HnswIndex :=
  ((s.episodes.rows.filter (·.status = .forgotten)).map fun e => episodeHnswId e.rowid.toI64).foldl
    HnswIndex.remove hnsw

/-- `rebuild_chunk_tombstones_from_sql`. -/
def rebuildChunkTombstonesFromSql (s : Store) (hnsw : HnswIndex) : HnswIndex :=
  ((s.documentChunks.rows.filter s.chunkForgotten).map fun c => chunkHnswId c.rowid.toI64).foldl
    HnswIndex.remove hnsw

/-! ### Replay of the outbox -/

structure ReplayReport where
  rowsSeen : Nat := 0
  rowsReplayed : Nat := 0
  rowsFailed : Nat := 0
  deriving DecidableEq

/-- A selected outbox row: what to add, and which outbox row to drain after it. -/
structure ReplayRow where
  target : PendingTarget
  row : IndexRow

/-- Which DELETEs of a replay go through: the drain of a target, the two orphan sweeps. -/
structure Drains where
  row : PendingTarget → Bool
  gcEpisodes : Bool
  gcChunks : Bool

/-- Every DELETE goes through. -/
def Drains.all : Drains := ⟨fun _ => true, true, true⟩

/-- The sweep of the kind of the target. -/
def Drains.sweep (drains : Drains) : PendingTarget → Bool
  | .episode _ => drains.gcEpisodes
  | .chunk _ => drains.gcChunks

structure ReplayState where
  pending : Table PendingRow
  hnsw : HnswIndex
  report : ReplayReport

namespace Store

/-- `WHERE p.kind = 'episode' AND e.status = 'active' ORDER BY p.enqueued_at`. -/
def replayEpisodeRows (s : Store) : List ReplayRow :=
  (s.pendingIndex.rows.insertionSort fun a b => a.enqueuedAt ≤ b.enqueuedAt).filterMap fun p =>
    match p.target with
    | .episode m => (s.episode? m).bind fun e =>
        if e.status = .active then
          some ⟨p.target, ⟨episodeHnswId e.rowid.toI64, p.embedding, p.embeddingDim⟩⟩ else none
    | .chunk _ => none

/-- `WHERE p.kind = 'chunk' AND d.status = 'active' ORDER BY p.enqueued_at`. -/
def replayChunkRows (s : Store) : List ReplayRow :=
  (s.pendingIndex.rows.insertionSort fun a b => a.enqueuedAt ≤ b.enqueuedAt).filterMap fun p =>
    match p.target with
    | .episode _ => none
    | .chunk c => (s.chunk? c).bind fun c =>
        if s.chunkActive c then
          some ⟨p.target, ⟨chunkHnswId c.rowid.toI64, p.embedding, p.embeddingDim⟩⟩ else none

/-- The outbox row has a target that replay considers. -/
def targetActive (s : Store) : PendingTarget → Bool
  | .episode m => (s.episode? m).any (·.status = .active)
  | .chunk c => (s.chunk? c).any s.chunkActive

end Store

inductive ReplayStep
  /-- One selected row: add, then drain. -/
  | row (r : ReplayRow)
  /-- The orphan sweep of one kind. -/
  | gcEpisodes
  | gcChunks

/-- `s` holds the episode and document tables, which replay only reads. -/
def replayStep (s : Store) (drains : Drains) (st : ReplayState) : ReplayStep → ReplayState
  | .row r =>
    let report := { st.report with rowsSeen := st.report.rowsSeen + 1 }
    match addRebuildRow st.hnsw r.row with
    | none => { st with report := { report with rowsFailed := report.rowsFailed + 1 } }
    | some hnsw =>
      -- the vector is in the index by now, whether or not its row goes
      if drains.row r.target then
        ⟨st.pending.deleteWhere fun p => p.target = r.target, hnsw,
          { report with rowsReplayed := report.rowsReplayed + 1 }⟩
      else { st with hnsw := hnsw, report := { report with rowsFailed := report.rowsFailed + 1 } }
  | .gcEpisodes =>
    { st with pending := st.pending.deleteWhere fun p =>
        match p.target with
        | .episode _ => drains.gcEpisodes && !s.targetActive p.target
        | .chunk _ => false }
  | .gcChunks =>
    { st with pending := st.pending.deleteWhere fun p =>
        match p.target with
        | .episode _ => false
        | .chunk _ => drains.gcChunks && !s.targetActive p.target }

def replaySteps (s : Store) : List ReplayStep :=
  s.replayEpisodeRows.map .row ++ s.replayChunkRows.map .row ++ [.gcEpisodes, .gcChunks]

/-- The first `n` steps of `replay_pending_index`. -/
def replayCut (s : Store) (drains : Drains) (hnsw : HnswIndex) (n : Nat) : ReplayState :=
  Run.run (replayStep s drains) ⟨s.pendingIndex, hnsw, {}⟩ ((replaySteps s).take n)

/-- `replay_pending_index`. -/
def replayPendingIndex (s : Store) (drains : Drains) (hnsw : HnswIndex) : ReplayState :=
  Run.run (replayStep s drains) ⟨s.pendingIndex, hnsw, {}⟩ (replaySteps s)

/-! ### What each pass does to the live ids -/

section Passes

variable {hnsw hnsw' : HnswIndex} {id : I64}

theorem addRebuildRow_live {r : IndexRow} (h : addRebuildRow hnsw r = some hnsw') :
    hnsw'.Live id ↔ id = r.hnswId ∨ hnsw.Live id := by
  obtain ⟨v, -, hadd⟩ := addRebuildRow_eq_some.1 h
  exact HnswIndex.live_add hadd

theorem addRebuildRow_dim {r : IndexRow} (h : addRebuildRow hnsw r = some hnsw') :
    hnsw'.dim = hnsw.dim := by
  obtain ⟨v, -, hadd⟩ := addRebuildRow_eq_some.1 h
  rw [(HnswIndex.add_eq_ok.1 hadd).2.2]

theorem rebuildRun_live (kind : HnswIdKind) {rows : List (Rowid × IndexRow)}
    (hid : ∀ r ∈ rows, r.2.hnswId.msb = false) (st : HnswIndex × RebuildReport) :
    (Run.run (rebuildStep kind) st rows).1.dim = st.1.dim ∧
      ∀ id, (Run.run (rebuildStep kind) st rows).1.Live id ↔
        st.1.Live id ∨ ∃ r ∈ rows, r.2.Addable st.1.dim ∧ id = r.2.hnswId := by
  induction rows generalizing st with
  | nil => simp
  | cons r rows ih =>
    have hrest := ih (fun r hr => hid r (List.mem_cons_of_mem _ hr)) (rebuildStep kind st r)
    rw [Run.run_cons]
    cases hadd : addRebuildRow st.1 r.2 with
    | none =>
      have hstep : (rebuildStep kind st r).1 = st.1 := by simp [rebuildStep, hadd]
      have hno : ¬r.2.Addable st.1.dim := by
        rw [← addRebuildRow_isSome (hid r List.mem_cons_self)]
        simp [hadd]
      rw [hstep] at hrest
      simpa [hno] using hrest
    | some hnsw' =>
      have hstep : (rebuildStep kind st r).1 = hnsw' := by simp [rebuildStep, hadd]
      have hyes : r.2.Addable st.1.dim :=
        (addRebuildRow_isSome (hid r List.mem_cons_self)).1 ⟨hnsw', hadd⟩
      have hdim := addRebuildRow_dim hadd
      rw [hstep, hdim] at hrest
      refine ⟨hrest.1, fun id => ?_⟩
      rw [hrest.2, addRebuildRow_live hadd]
      simp only [List.mem_cons, exists_eq_or_imp, hyes, true_and]
      tauto

/-- A pass of `remove` calls tombstones their ids. -/
theorem foldl_remove_live (hnsw : HnswIndex) (ids : List I64) :
    (ids.foldl HnswIndex.remove hnsw).dim = hnsw.dim ∧
      ∀ id, (ids.foldl HnswIndex.remove hnsw).Live id ↔ hnsw.Live id ∧ id ∉ ids := by
  induction ids generalizing hnsw with
  | nil => simp
  | cons x ids ih =>
    obtain ⟨hdim, hlive⟩ := ih (hnsw.remove x)
    refine ⟨hdim, fun id => ?_⟩
    rw [List.foldl_cons, hlive, HnswIndex.live_remove, List.mem_cons]
    tauto

/-- What is live after the rows of replay does not depend on the DELETEs; a row goes when its target
was added and its drain went through. -/
theorem replayRows_spec (s : Store) (drains : Drains) {rows : List ReplayRow}
    (hid : ∀ r ∈ rows, r.row.hnswId.msb = false) (st : ReplayState) :
    (Run.run (replayStep s drains) st (rows.map .row)).hnsw.dim = st.hnsw.dim ∧
    (∀ id, (Run.run (replayStep s drains) st (rows.map .row)).hnsw.Live id ↔
      st.hnsw.Live id ∨ ∃ r ∈ rows, r.row.Addable st.hnsw.dim ∧ id = r.row.hnswId) ∧
    ∀ p, p ∈ (Run.run (replayStep s drains) st (rows.map .row)).pending ↔
      p ∈ st.pending ∧
        ∀ r ∈ rows, r.row.Addable st.hnsw.dim → drains.row r.target = true →
        p.target ≠ r.target := by
  induction rows generalizing st with
  | nil => simp
  | cons r rows ih =>
    have hrest :=
      ih (fun r hr => hid r (List.mem_cons_of_mem _ hr)) (replayStep s drains st (.row r))
    rw [List.map_cons, Run.run_cons]
    cases hadd : addRebuildRow st.hnsw r.row with
    | none =>
      have hhnsw : (replayStep s drains st (.row r)).hnsw = st.hnsw := by simp [replayStep, hadd]
      have hpend : (replayStep s drains st (.row r)).pending = st.pending := by
        simp [replayStep, hadd]
      have hno : ¬r.row.Addable st.hnsw.dim := by
        rw [← addRebuildRow_isSome (hid r List.mem_cons_self)]
        simp [hadd]
      rw [hhnsw, hpend] at hrest
      simpa [hno] using hrest
    | some hnsw' =>
      have hhnsw : (replayStep s drains st (.row r)).hnsw = hnsw' := by
        cases hdrain : drains.row r.target <;> simp [replayStep, hadd, hdrain]
      have hpend (p : PendingRow) : p ∈ (replayStep s drains st (.row r)).pending ↔
          p ∈ st.pending ∧ (drains.row r.target = true → p.target ≠ r.target) := by
        cases hdrain : drains.row r.target <;>
          simp [replayStep, hadd, hdrain, Table.mem_deleteWhere]
      have hyes : r.row.Addable st.hnsw.dim :=
        (addRebuildRow_isSome (hid r List.mem_cons_self)).1 ⟨hnsw', hadd⟩
      have hdim := addRebuildRow_dim hadd
      rw [hhnsw, hdim] at hrest
      obtain ⟨hdim', hlive, hpending⟩ := hrest
      refine ⟨hdim', fun id => ?_, fun p => ?_⟩
      · rw [hlive, addRebuildRow_live hadd]
        simp only [List.mem_cons, exists_eq_or_imp, hyes, true_and]
        tauto
      · rw [hpending, hpend]
        simp only [List.mem_cons, forall_eq_or_imp, hyes, forall_const]
        tauto

/-- Rows that cannot be added leave the index and the outbox alone. -/
theorem replayRows_idle (s : Store) (drains : Drains) {rows : List ReplayRow} (st : ReplayState)
    (h : ∀ r ∈ rows, r.row.hnswId.msb = false ∧ ¬r.row.Addable st.hnsw.dim) :
    (Run.run (replayStep s drains) st (rows.map .row)).hnsw = st.hnsw ∧
      (Run.run (replayStep s drains) st (rows.map .row)).pending = st.pending := by
  induction rows generalizing st with
  | nil => exact ⟨rfl, rfl⟩
  | cons r rows ih =>
    obtain ⟨hid, hno⟩ := h r List.mem_cons_self
    have hadd : addRebuildRow st.hnsw r.row = none := by
      cases hadd : addRebuildRow st.hnsw r.row with
      | none => rfl
      | some hnsw' => exact absurd ((addRebuildRow_isSome hid).1 ⟨hnsw', hadd⟩) hno
    have hstep : (replayStep s drains st (.row r)).hnsw = st.hnsw ∧
        (replayStep s drains st (.row r)).pending = st.pending := by
      simp [replayStep, hadd]
    obtain ⟨hh, hp⟩ := ih (replayStep s drains st (.row r)) fun q hq => by
      rw [hstep.1]
      exact h q (List.mem_cons_of_mem _ hq)
    exact ⟨hh.trans hstep.1, hp.trans hstep.2⟩

end Passes

/-! ### The selects -/

namespace Store

variable {s : Store} {embedderId : Nat}

theorem mem_rebuildEpisodeRows {x : Rowid × IndexRow} : x ∈ s.rebuildEpisodeRows embedderId ↔
    ∃ e ∈ s.episodes, e.status = .active ∧ ∃ em ∈ s.embeddings, em.memoryId = e.memoryId ∧
      em.embedderId = embedderId ∧
      x = (e.rowid, ⟨episodeHnswId e.rowid.toI64, em.vector, em.dim⟩) := by
  simp only [rebuildEpisodeRows, List.mem_insertionSort, List.mem_flatMap, List.mem_map,
    List.mem_filter, Bool.and_eq_true, decide_eq_true_eq, Table.mem_rows]
  constructor
  · rintro ⟨e, he, em, ⟨hem, ⟨hm, hid⟩, hact⟩, rfl⟩
    exact ⟨e, he, hact, em, hem, hm, hid, rfl⟩
  · rintro ⟨e, he, hact, em, hem, hm, hid, rfl⟩
    exact ⟨e, he, em, ⟨hem, ⟨hm, hid⟩, hact⟩, rfl⟩

theorem mem_rebuildChunkRows {x : Rowid × IndexRow} : x ∈ s.rebuildChunkRows embedderId ↔
    ∃ c ∈ s.documentChunks, s.chunkActive c = true ∧ ∃ ce ∈ s.chunkEmbeddings, ce.chunkId =
    c.chunkId ∧
      ce.embedderId = embedderId ∧
      x = (c.rowid, ⟨chunkHnswId c.rowid.toI64, ce.vector, ce.dim⟩) := by
  simp only [rebuildChunkRows, List.mem_insertionSort, List.mem_flatMap, List.mem_map,
    List.mem_filter, Bool.and_eq_true, decide_eq_true_eq, Table.mem_rows]
  constructor
  · rintro ⟨c, hc, ce, ⟨hce, ⟨hm, hid⟩, hact⟩, rfl⟩
    exact ⟨c, hc, hact, ce, hce, hm, hid, rfl⟩
  · rintro ⟨c, hc, hact, ce, hce, hm, hid, rfl⟩
    exact ⟨c, hc, ce, ⟨hce, ⟨hm, hid⟩, hact⟩, rfl⟩

/-- The index id of an active outbox target. -/
def targetId? (s : Store) : PendingTarget → Option I64
  | .episode m => (s.episode? m).bind fun e =>
      if e.status = .active then some (episodeHnswId e.rowid.toI64) else none
  | .chunk c => (s.chunk? c).bind fun c => if s.chunkActive c then some (chunkHnswId c.rowid.toI64)
    else none

theorem targetActive_iff {t : PendingTarget} : s.targetActive t = true ↔
    ∃ id, s.targetId? t = some id := by
  cases t with
  | episode m =>
    cases h : s.episode? m with
    | none => simp [targetActive, targetId?, h]
    | some e => by_cases he : e.status = .active <;> simp [targetActive, targetId?, h, he]
  | chunk c =>
    cases h : s.chunk? c with
    | none => simp [targetActive, targetId?, h]
    | some c => by_cases hc : s.chunkActive c = true <;> simp [targetActive, targetId?, h, hc]

theorem mem_replayRows {r : ReplayRow} : r ∈ s.replayEpisodeRows ++ s.replayChunkRows ↔
    ∃ p ∈ s.pendingIndex, ∃ id, s.targetId? p.target = some id ∧
      (⟨p.target, ⟨id, p.embedding, p.embeddingDim⟩⟩ : ReplayRow) = r := by
  simp only [replayEpisodeRows, replayChunkRows, List.mem_append, List.mem_filterMap,
    List.mem_insertionSort, Table.mem_rows, ← exists_or, ← and_or_left]
  refine exists_congr fun p => and_congr_right fun _ => ?_
  cases hp : p.target with
  | episode m =>
    cases he : s.episode? m with
    | none => simp [targetId?, he]
    | some e => by_cases ha : e.status = .active <;> simp [targetId?, he, ha]
  | chunk c =>
    cases hc : s.chunk? c with
    | none => simp [targetId?, hc]
    | some c => by_cases ha : s.chunkActive c = true <;> simp [targetId?, hc, ha]

theorem targetId?_msb {t : PendingTarget} {id : I64} (h : s.targetId? t = some id) :
    id.msb = false := by
  cases t with
  | episode m =>
    simp only [targetId?, Option.bind_eq_some_iff] at h
    obtain ⟨e, -, h⟩ := h
    split at h
    · rw [← Option.some.inj h]
      exact episodeHnswId_msb _
    · cases h
  | chunk c =>
    simp only [targetId?, Option.bind_eq_some_iff] at h
    obtain ⟨c, -, h⟩ := h
    split at h
    · rw [← Option.some.inj h]
      exact chunkHnswId_msb _
    · cases h

end Store

/-! ### Rebuild and replay as a whole -/

/-- The outbox row holds a binary32 vector of the index dimension. -/
def PendingRow.Addable (dim : Nat) (p : PendingRow) : Prop :=
  ∃ v, decodeF32 p.embedding p.embeddingDim = some v ∧ v.length = dim

namespace Store

variable {s : Store} {dim embedderId : Nat}

/-- The rowids of the active episodes that recovery from SQL can index. -/
def indexedEpisodes (s : Store) (dim embedderId : Nat) : Set Rowid :=
  {r | ∃ e ∈ s.episodes, e.rowid = r ∧ e.status = .active ∧
    ((∃ em ∈ s.embeddings, em.memoryId = e.memoryId ∧ em.embedderId = embedderId) ∨
      ∃ p ∈ s.pendingIndex, p.target = .episode e.memoryId ∧ p.Addable dim)}

/-- The rowids of the chunks of active documents that recovery from SQL can index. -/
def indexedChunks (s : Store) (dim embedderId : Nat) : Set Rowid :=
  {r | ∃ c ∈ s.documentChunks, c.rowid = r ∧ s.chunkActive c = true ∧
    ((∃ ce ∈ s.chunkEmbeddings, ce.chunkId = c.chunkId ∧ ce.embedderId = embedderId) ∨
      ∃ p ∈ s.pendingIndex, p.target = .chunk c.chunkId ∧ p.Addable dim)}

/-- Every embedding of the embedder is a binary32 vector of the index dimension. -/
structure EmbeddingsWellFormed (s : Store) (dim embedderId : Nat) : Prop where
  episodes : ∀ em ∈ s.embeddings, em.embedderId = embedderId →
    ∃ v, decodeF32 em.vector em.dim = some v ∧ v.length = dim
  chunks : ∀ ce ∈ s.chunkEmbeddings, ce.embedderId = embedderId →
    ∃ v, decodeF32 ce.vector ce.dim = some v ∧ v.length = dim

theorem rebuild_live (s : Store) (hnsw : HnswIndex) (embedderId : Nat) :
    (rebuildHnswFromSql s hnsw embedderId).1.dim = hnsw.dim ∧
    ∀ id, (rebuildHnswFromSql s hnsw embedderId).1.Live id ↔ hnsw.Live id ∨
      ∃ r ∈ s.rebuildEpisodeRows embedderId ++ s.rebuildChunkRows embedderId,
        r.2.Addable hnsw.dim ∧ id = r.2.hnswId := by
  have hepId : ∀ r ∈ s.rebuildEpisodeRows embedderId, r.2.hnswId.msb = false := by
    intro r hr
    obtain ⟨e, -, -, em, -, -, -, rfl⟩ := mem_rebuildEpisodeRows.1 hr
    exact episodeHnswId_msb _
  have hchId : ∀ r ∈ s.rebuildChunkRows embedderId, r.2.hnswId.msb = false := by
    intro r hr
    obtain ⟨c, -, -, ce, -, -, -, rfl⟩ := mem_rebuildChunkRows.1 hr
    exact chunkHnswId_msb _
  have hep := rebuildRun_live .episode hepId (hnsw, {})
  have hch := rebuildRun_live .chunk hchId
    (Run.run (rebuildStep .episode) (hnsw, {}) (s.rebuildEpisodeRows embedderId))
  rw [hep.1] at hch
  refine ⟨hch.1, fun id => ?_⟩
  rw [rebuildHnswFromSql, hch.2, hep.2]
  simp only [List.mem_append, or_and_right, exists_or, or_assoc]

/-- The DELETE that is to take the row out of the outbox goes through. -/
def Drained (s : Store) (drains : Drains) (p : PendingRow) : Prop :=
  (if s.targetActive p.target then drains.row p.target else drains.sweep p.target) = true

theorem drained_all (s : Store) (p : PendingRow) : s.Drained .all p := by
  obtain ⟨target, _, _, _⟩ := p
  cases target <;> exact ite_self true

/-- With its rows done, replay is the two sweeps. -/
theorem replayPendingIndex_eq (s : Store) (drains : Drains) (hnsw : HnswIndex) :
    replayPendingIndex s drains hnsw = replayStep s drains (replayStep s drains
      (Run.run (replayStep s drains) ⟨s.pendingIndex, hnsw, {}⟩
        ((s.replayEpisodeRows ++ s.replayChunkRows).map .row)) .gcEpisodes) .gcChunks := by
  simp [replayPendingIndex, replaySteps, Run.run_append]

theorem mem_sweeps (s : Store) (drains : Drains) (st : ReplayState) (p : PendingRow) :
    p ∈ (replayStep s drains (replayStep s drains st .gcEpisodes) .gcChunks).pending ↔
      p ∈ st.pending ∧ (s.targetActive p.target = false → ¬s.Drained drains p) := by
  simp only [replayStep, Table.mem_deleteWhere, and_assoc, Drained]
  refine and_congr_right fun _ => ?_
  obtain ⟨target, _, _, _⟩ := p
  cases target with
  | episode m => cases s.targetActive (.episode m) <;> simp [Drains.sweep]
  | chunk c => cases s.targetActive (.chunk c) <;> simp [Drains.sweep]

/-- Replay adds the addable rows with an active target, whatever becomes of the DELETEs. What is
left are the rows of active targets that could not be added, and the rows whose DELETE failed. -/
theorem replay_spec (s : Store) (drains : Drains) (hnsw : HnswIndex) :
    (replayPendingIndex s drains hnsw).hnsw.dim = hnsw.dim ∧
    (∀ id, (replayPendingIndex s drains hnsw).hnsw.Live id ↔ hnsw.Live id ∨
      ∃ p ∈ s.pendingIndex, s.targetId? p.target = some id ∧ p.Addable hnsw.dim) ∧
    ∀ p, p ∈ (replayPendingIndex s drains hnsw).pending ↔
      p ∈ s.pendingIndex ∧
        (s.targetActive p.target = true ∧ ¬p.Addable hnsw.dim ∨ ¬s.Drained drains p) := by
  have hid : ∀ r ∈ s.replayEpisodeRows ++ s.replayChunkRows, r.row.hnswId.msb = false := by
    intro r hr
    obtain ⟨p, -, id, hid, rfl⟩ := mem_replayRows.1 hr
    exact targetId?_msb hid
  obtain ⟨hdim, hlive, hpend⟩ := replayRows_spec s drains hid ⟨s.pendingIndex, hnsw, {}⟩
  rw [replayPendingIndex_eq]
  refine ⟨hdim, fun id => ?_, fun p => ?_⟩
  · refine (hlive id).trans (or_congr_right ?_)
    constructor
    · rintro ⟨r, hr, hadd, rfl⟩
      obtain ⟨p, hp, id, hid, rfl⟩ := mem_replayRows.1 hr
      exact ⟨p, hp, hid, hadd⟩
    · rintro ⟨p, hp, hid, hadd⟩
      exact ⟨_, mem_replayRows.2 ⟨p, hp, id, hid, rfl⟩, hadd, rfl⟩
  · rw [mem_sweeps, hpend, and_assoc]
    refine and_congr_right fun hp => ?_
    have hrow : (∀ r ∈ s.replayEpisodeRows ++ s.replayChunkRows, r.row.Addable hnsw.dim →
        drains.row r.target = true → p.target ≠ r.target) ↔
        (s.targetActive p.target = true → p.Addable hnsw.dim → ¬drains.row p.target = true) := by
      constructor
      · intro h hact hadd hdrain
        obtain ⟨id, hid⟩ := targetActive_iff.1 hact
        exact h _ (mem_replayRows.2 ⟨p, hp, id, hid, rfl⟩) hadd hdrain rfl
      · intro h r hr hadd hdrain htarget
        obtain ⟨q, hq, id, hid, rfl⟩ := mem_replayRows.1 hr
        have hpq : p = q := Table.eq_of_clash hp hq (by simpa [Keyed.clash] using htarget)
        subst hpq
        exact h (targetActive_iff.2 ⟨id, hid⟩) hadd hdrain
    rw [hrow]
    cases hact : s.targetActive p.target with
    | false => simp
    | true =>
      simp only [Drained, hact, if_true, true_and, forall_const, Bool.true_eq_false, false_imp_iff,
        and_true]
      tauto

/-- Replay over an outbox of rows it cannot add changes nothing. -/
theorem replay_idle {s : Store} {hnsw : HnswIndex} (drains : Drains)
    (h : ∀ p ∈ s.pendingIndex, s.targetActive p.target = true ∧ ¬p.Addable hnsw.dim) :
    (replayPendingIndex s drains hnsw).hnsw = hnsw ∧
      (replayPendingIndex s drains hnsw).pending = s.pendingIndex := by
  have hidle : ∀ r ∈ s.replayEpisodeRows ++ s.replayChunkRows,
      r.row.hnswId.msb = false ∧ ¬r.row.Addable hnsw.dim := by
    intro r hr
    obtain ⟨p, hp, id, hid, rfl⟩ := mem_replayRows.1 hr
    exact ⟨targetId?_msb hid, (h p hp).2⟩
  have hrows := replayRows_idle s drains ⟨s.pendingIndex, hnsw, {}⟩ hidle
  rw [replayPendingIndex_eq]
  refine ⟨hrows.1, ?_⟩
  have hep : (replayStep s drains (Run.run (replayStep s drains) ⟨s.pendingIndex, hnsw, {}⟩
      ((s.replayEpisodeRows ++ s.replayChunkRows).map .row)) .gcEpisodes).pending =
      s.pendingIndex := by
    simp only [replayStep, hrows.2]
    refine Table.deleteWhere_eq_self fun p hp => ?_
    have := (h p hp).1
    cases hp : p.target <;> simp_all
  simp only [replayStep] at hep ⊢
  rw [hep]
  refine Table.deleteWhere_eq_self fun p hp => ?_
  have := (h p hp).1
  cases hp : p.target <;> simp_all

theorem mem_indexedEpisodes (hwf : s.EmbeddingsWellFormed dim embedderId) {id : I64} :
    id ∈ (fun r : Rowid => episodeHnswId r.toI64) '' s.indexedEpisodes dim embedderId ↔
      (∃ r ∈ s.rebuildEpisodeRows embedderId, r.2.Addable dim ∧ id = r.2.hnswId) ∨
      ∃ p ∈ s.pendingIndex, ∃ m, p.target = .episode m ∧ s.targetId? p.target = some id ∧
      p.Addable dim := by
  constructor
  · rintro ⟨r, ⟨e, he, rfl, hact, hrow⟩, rfl⟩
    rcases hrow with ⟨em, hem, hm, hid⟩ | ⟨p, hp, htarget, hadd⟩
    · exact .inl ⟨_, mem_rebuildEpisodeRows.2 ⟨e, he, hact, em, hem, hm, hid, rfl⟩,
        hwf.episodes em hem hid, rfl⟩
    · refine .inr ⟨p, hp, e.memoryId, htarget, ?_, hadd⟩
      simp [htarget, targetId?, episode?_eq_some.2 ⟨he, rfl⟩, hact]
  · rintro (⟨r, hr, -, rfl⟩ | ⟨p, hp, m, htarget, hid, hadd⟩)
    · obtain ⟨e, he, hact, em, hem, hm, hid, rfl⟩ := mem_rebuildEpisodeRows.1 hr
      exact ⟨e.rowid, ⟨e, he, rfl, hact, .inl ⟨em, hem, hm, hid⟩⟩, rfl⟩
    · rw [htarget] at hid
      simp only [targetId?, Option.bind_eq_some_iff] at hid
      obtain ⟨e, he, hid⟩ := hid
      obtain ⟨hmem, rfl⟩ := episode?_eq_some.1 he
      by_cases hact : e.status = .active
      · rw [if_pos hact] at hid
        exact ⟨e.rowid, ⟨e, hmem, rfl, hact, .inr ⟨p, hp, htarget, hadd⟩⟩, Option.some.inj hid⟩
      · simp [hact] at hid

theorem mem_indexedChunks (hwf : s.EmbeddingsWellFormed dim embedderId) {id : I64} :
    id ∈ (fun r : Rowid => chunkHnswId r.toI64) '' s.indexedChunks dim embedderId ↔
      (∃ r ∈ s.rebuildChunkRows embedderId, r.2.Addable dim ∧ id = r.2.hnswId) ∨
      ∃ p ∈ s.pendingIndex, ∃ c, p.target = .chunk c ∧ s.targetId? p.target = some id ∧
      p.Addable dim := by
  constructor
  · rintro ⟨r, ⟨c, hc, rfl, hact, hrow⟩, rfl⟩
    rcases hrow with ⟨ce, hce, hm, hid⟩ | ⟨p, hp, htarget, hadd⟩
    · exact .inl ⟨_, mem_rebuildChunkRows.2 ⟨c, hc, hact, ce, hce, hm, hid, rfl⟩,
        hwf.chunks ce hce hid, rfl⟩
    · refine .inr ⟨p, hp, c.chunkId, htarget, ?_, hadd⟩
      simp [htarget, targetId?, chunk?_eq_some.2 ⟨hc, rfl⟩, hact]
  · rintro (⟨r, hr, -, rfl⟩ | ⟨p, hp, c, htarget, hid, hadd⟩)
    · obtain ⟨c, hc, hact, ce, hce, hm, hid, rfl⟩ := mem_rebuildChunkRows.1 hr
      exact ⟨c.rowid, ⟨c, hc, rfl, hact, .inl ⟨ce, hce, hm, hid⟩⟩, rfl⟩
    · rw [htarget] at hid
      simp only [targetId?, Option.bind_eq_some_iff] at hid
      obtain ⟨c, hc, hid⟩ := hid
      obtain ⟨hmem, rfl⟩ := chunk?_eq_some.1 hc
      by_cases hact : s.chunkActive c = true
      · rw [if_pos hact] at hid
        exact ⟨c.rowid, ⟨c, hmem, rfl, hact, .inr ⟨p, hp, htarget, hadd⟩⟩, Option.some.inj hid⟩
      · simp [hact] at hid

/-- What rebuild and replay of a fresh index make live. -/
def liveIds (s : Store) (dim embedderId : Nat) : Set I64 :=
  (fun r : Rowid => episodeHnswId r.toI64) '' s.indexedEpisodes dim embedderId ∪
    (fun r : Rowid => chunkHnswId r.toI64) '' s.indexedChunks dim embedderId

theorem rebuild_replay_live (hwf : s.EmbeddingsWellFormed dim embedderId) (drains : Drains)
    (id : I64) :
    (replayPendingIndex s drains (rebuildHnswFromSql s (.new dim) embedderId).1).hnsw.Live id ↔
      id ∈ s.liveIds dim embedderId := by
  obtain ⟨hdim, hlive⟩ := rebuild_live s (.new dim) embedderId
  have hd : (HnswIndex.new dim).dim = dim := rfl
  rw [hd] at hdim
  rw [(replay_spec s drains _).2.1, hlive, hdim, liveIds, Set.mem_union, mem_indexedEpisodes hwf,
    mem_indexedChunks hwf]
  simp only [HnswIndex.not_live_new, false_or, List.mem_append, or_and_right, exists_or, hd]
  have hkind : (∃ p ∈ s.pendingIndex, s.targetId? p.target = some id ∧ p.Addable dim) ↔
      (∃ p ∈ s.pendingIndex, ∃ m, p.target = .episode m ∧ s.targetId? p.target = some id ∧
        p.Addable dim) ∨
      ∃ p ∈ s.pendingIndex, ∃ c, p.target = .chunk c ∧ s.targetId? p.target = some id ∧
      p.Addable dim := by
    constructor
    · rintro ⟨p, hp, hid, hadd⟩
      cases ht : p.target with
      | episode m => exact .inl ⟨p, hp, m, ht, hid, hadd⟩
      | chunk c => exact .inr ⟨p, hp, c, ht, hid, hadd⟩
    · rintro (⟨p, hp, _, _, hid, hadd⟩ | ⟨p, hp, _, _, hid, hadd⟩) <;> exact ⟨p, hp, hid, hadd⟩
  rw [hkind]
  exact or_or_or_comm

theorem not_mem_liveIds_of_forgotten {e : EpisodeRow} (he : e ∈ s.episodes)
    (hf : e.status = .forgotten) : episodeHnswId e.rowid.toI64 ∉ s.liveIds dim embedderId := by
  rintro (⟨r, ⟨e', he', rfl, hact, -⟩, heq⟩ | ⟨r, -, heq⟩)
  · rw [episode_rowid_inj he' he (episodeHnswId_injective heq), hf] at hact
    cases hact
  · exact episodeHnswId_ne_chunkHnswId _ _ heq.symm

theorem not_mem_liveIds_of_chunkForgotten {c : ChunkRow} (hc : c ∈ s.documentChunks)
    (hf : s.chunkForgotten c = true) : chunkHnswId c.rowid.toI64 ∉ s.liveIds dim embedderId := by
  rintro (⟨r, -, heq⟩ | ⟨r, ⟨c', hc', rfl, hact, -⟩, heq⟩)
  · exact episodeHnswId_ne_chunkHnswId _ _ heq
  · rw [chunk_rowid_inj hc' hc (chunkHnswId_injective heq)] at hact
    rw [chunkActive_not_forgotten hact] at hf
    cases hf

/-- Rebuild and replay of a fresh index: the live ids are those of the active rows with a vector in
SQL, forgotten rows stay out and the two kinds of ids are disjoint. The outbox keeps the rows of
active targets that could not be added and the rows whose DELETE failed. A second replay makes
nothing else live; it changes neither index nor outbox if the DELETEs of the first went through. -/
theorem rebuild_replay_exact (s : Store) (dim embedderId : Nat) (drains : Drains)
    (hwf : s.EmbeddingsWellFormed dim embedderId) :
    let rebuilt := (rebuildHnswFromSql s (.new dim) embedderId).1
    let replayed := replayPendingIndex s drains rebuilt
    {id | replayed.hnsw.Live id} = s.liveIds dim embedderId ∧
    (∀ e ∈ s.episodes, e.status = .forgotten → ¬replayed.hnsw.Live (episodeHnswId e.rowid.toI64)) ∧
    (∀ c ∈ s.documentChunks, s.chunkForgotten c = true →
      ¬replayed.hnsw.Live (chunkHnswId c.rowid.toI64)) ∧
    Disjoint ((fun r : Rowid => episodeHnswId r.toI64) '' s.indexedEpisodes dim embedderId)
      ((fun r : Rowid => chunkHnswId r.toI64) '' s.indexedChunks dim embedderId) ∧
    (∀ p, p ∈ replayed.pending ↔
      p ∈ s.pendingIndex ∧
        (s.targetActive p.target = true ∧ ¬p.Addable dim ∨ ¬s.Drained drains p)) ∧
    ∀ drains', let again :=
        replayPendingIndex { s with pendingIndex := replayed.pending } drains' replayed.hnsw
      {id | again.hnsw.Live id} = {id | replayed.hnsw.Live id} ∧
      ((∀ p ∈ s.pendingIndex, s.Drained drains p) →
        again.hnsw = replayed.hnsw ∧ again.pending = replayed.pending) := by
  intro rebuilt replayed
  have hlive : ∀ id, replayed.hnsw.Live id ↔ id ∈ s.liveIds dim embedderId :=
    rebuild_replay_live hwf drains
  have hdim : rebuilt.dim = dim := (rebuild_live s (.new dim) embedderId).1
  obtain ⟨hdim', hadds, hpend⟩ := replay_spec s drains rebuilt
  rw [hdim] at hpend hdim'
  refine ⟨Set.ext hlive, ?_, ?_, disjoint_hnswIds _ _, hpend,
    fun drains' => ⟨?_, fun hdrained => ?_⟩⟩
  · intro e he hf
    rw [hlive]
    exact not_mem_liveIds_of_forgotten he hf
  · intro c hc hf
    rw [hlive]
    exact not_mem_liveIds_of_chunkForgotten hc hf
  · -- what the second replay adds is in the outbox of the first
    refine Set.ext fun id => ((replay_spec _ drains' replayed.hnsw).2.1 id).trans
      (or_iff_left_of_imp ?_)
    rintro ⟨p, hp, hid, hadd⟩
    rw [hdim'] at hadd
    exact (hadds id).2 (.inr ⟨p, ((hpend p).1 hp).1, hid, by rwa [hdim]⟩)
  · refine replay_idle drains' fun p hp => ?_
    rw [hdim']
    obtain ⟨hp, hleft⟩ := (hpend p).1 hp
    exact hleft.resolve_right fun hno => hno (hdrained p hp)

/-- An active episode with an embedding, a forgotten one with an outbox row, and an outbox row
without an episode; the vectors have dimension 1. -/
def recoverySample : Store where
  episodes :=
    ⟨[⟨⟨1, by decide⟩, "a", 0, .hot, .active, none⟩,
      ⟨⟨2, by decide⟩, "b", 0, .hot, .forgotten, none⟩],
    by decide⟩
  embeddings := ⟨[⟨"a", 1, .f32, 1, [0, 0, 128, 63]⟩], by decide⟩
  documents := .empty
  documentChunks := .empty
  chunkEmbeddings := .empty
  pendingIndex := ⟨[⟨.episode "b", [0, 0, 128, 63], 1, 0⟩, ⟨.episode "c", [], 0, 1⟩], by decide⟩
  episodeSeq := 2
  chunkSeq := 0

theorem recoverySample_wellFormed : recoverySample.EmbeddingsWellFormed 1 1 := by
  refine ⟨fun em hem _ => ?_, fun ce hce _ => absurd hce List.not_mem_nil⟩
  obtain rfl := List.mem_singleton.1 hem
  exact ⟨[0x3F800000#32], by decide, rfl⟩

theorem rebuild_replay_exact_sample :
    {id | (replayPendingIndex recoverySample .all
      (rebuildHnswFromSql recoverySample (.new 1) 1).1).hnsw.Live id} = recoverySample.liveIds 1 1 :=
  (rebuild_replay_exact recoverySample 1 1 .all recoverySample_wellFormed).1

/-- The sample with an outbox row of its active episode. -/
def undrainedSample : Store :=
  { recoverySample with pendingIndex := .single ⟨.episode "a", [0, 0, 128, 63], 1, 0⟩ }

/-- A drain fails after its add: the row is left although its add succeeded, and a second replay
adds the vector once more. -/
theorem undrainedSample_not_exact :
    let replayed := replayPendingIndex undrainedSample ⟨fun _ => false, true, true⟩
      (rebuildHnswFromSql undrainedSample (.new 1) 1).1
    (∃ p ∈ replayed.pending, p.Addable 1) ∧ replayed.report = ⟨1, 0, 1⟩ ∧
      (replayPendingIndex { undrainedSample with pendingIndex := replayed.pending } .all
        replayed.hnsw).hnsw.points.length = replayed.hnsw.points.length + 1 := by
  refine ⟨⟨⟨.episode "a", [0, 0, 128, 63], 1, 0⟩, by decide, [0x3F800000#32], by decide, rfl⟩, ?_,
    ?_⟩
  · decide
  · decide

end Store

end Solo
