import Solo.Store.Erase

/-!
# Opening a library (`library/handle.rs`)

`openLibrary` loads the live snapshot, else `_bak`, else rebuilds from SQL; a loaded index gets the
tombstones of the forgotten rows; then the outbox is replayed. What an opening cannot decide by
itself, what the loader makes of a pair of files and which DELETEs go through, is its `OpenEnv`.

`openLibrary_live` says what is live after opening, `openLibrary_active_iff` when all of it is
active.
-/

namespace Solo

structure DriftReport where
  hotEpisodes : Nat
  activeChunks : Nat
  indexLen : Nat
  diff : Int

/-- `detect_drift`; nobody acts on it. -/
def detectDrift (s : Store) (hnsw : HnswIndex) : DriftReport :=
  let hot := (s.episodes.rows.filter fun e => e.tier = .hot && e.status = .active).length
  let chunks := (s.documentChunks.rows.filter s.chunkActive).length
  ⟨hot, chunks, hnsw.len, (hot + chunks : Nat) - (hnsw.len : Int)⟩

structure Opened where
  library : Library
  usedBakSnapshot : Bool
  startedFresh : Bool
  rebuild : RebuildReport
  replay : ReplayReport
  drift : DriftReport

/-- What an opening meets: the loader of `hnsw_rs`, and the DELETEs of its replay that go
through. -/
structure OpenEnv where
  io : HnswIo HnswDump
  drains : Drains

/-- A loader that fails on halves of two dumps, and DELETEs that go through. -/
def OpenEnv.calm : OpenEnv := ⟨.strict, .all⟩

/-- The snapshot `load_hnsw_with_fallback` finds, and whether it is the backup; a panic is not
caught. -/
def loadSnapshot (io : HnswIo HnswDump) (dir : Dir HnswDump) : LoadOutcome (HnswDump × Bool) :=
  match dir.load io with
  | .index d => .index (d, false)
  | .panic => .panic
  | .error =>
    match dir.loadBak io with
    | .index d => .index (d, true)
    | .panic => .panic
    | .error => .error

/-- The index before replay: loaded and tombstoned, or rebuilt. -/
def recoverIndex (cfg : Config) (io : HnswIo HnswDump) (s : Store) (dir : Dir HnswDump) :
    Except Error (HnswIndex × RebuildReport × Bool × Bool) :=
  match loadSnapshot io dir with
  | .index (d, bak) =>
    if d.dim ≠
      cfg.dim then .error
      (.storage "HNSW snapshot dim does not match solo.config.toml embedder.dim")
    else
      .ok (rebuildChunkTombstonesFromSql s (rebuildEpisodeTombstonesFromSql s (.fromInner d)), {},
        bak, false)
  | .error =>
    let (hnsw, report) := rebuildHnswFromSql s (.new cfg.dim) cfg.embedderId
    .ok (hnsw, report, false, true)
  -- the panic unwinds the opening: there is no library
  | .panic => .error (.other "panic in HnswIo::load_hnsw")

/-- `LibraryHandle::open`, from the migrations on. -/
def openLibrary (cfg : Config) (env : OpenEnv) (s : Store) (dir : Dir HnswDump) :
    Except Error Opened := do
  let (hnsw, rebuild, bak, fresh) ← recoverIndex cfg env.io s dir
  let replayed := replayPendingIndex s env.drains hnsw
  let store := { s with pendingIndex := replayed.pending }
  return ⟨⟨store, dir, replayed.hnsw⟩, bak, fresh, rebuild, replayed.report,
    detectDrift store replayed.hnsw⟩

/-- What is left of an opening that crashes after `n` steps of its replay. -/
def openCut (cfg : Config) (env : OpenEnv) (s : Store) (dir : Dir HnswDump) (n : Nat) : Store :=
  match recoverIndex cfg env.io s dir with
  | .error _ => s
  | .ok (hnsw, _) => { s with pendingIndex := (replayCut s env.drains hnsw n).pending }

/-- What is left of openings that each crash in their replay. -/
def openCuts (cfg : Config) (dir : Dir HnswDump) (s : Store) (cuts : List (OpenEnv × Nat)) :
    Store :=
  cuts.foldl (fun s cut => openCut cfg cut.1 s dir cut.2) s

/-! ### What is live after opening -/

namespace Store

/-- The ids that the tombstone passes remove. -/
def ForgottenId (s : Store) (id : I64) : Prop :=
  (∃ e ∈ s.episodes, e.status = .forgotten ∧ episodeHnswId e.rowid.toI64 = id) ∨
    ∃ c ∈ s.documentChunks, s.chunkForgotten c = true ∧ chunkHnswId c.rowid.toI64 = id

/-- The id decodes to an active episode or to a chunk of an active document. -/
def ActiveId (s : Store) (id : I64) : Prop :=
  match decodeHnswId id with
  | (.episode, r) => ∃ e ∈ s.episodes, e.rowid.toI64 = r ∧ e.status = .active
  | (.chunk, r) => ∃ c ∈ s.documentChunks, c.rowid.toI64 = r ∧ s.chunkActive c = true

/-- The id decodes to an episode, or to a chunk with its document. -/
def ExistingId (s : Store) (id : I64) : Prop :=
  match decodeHnswId id with
  | (.episode, r) => ∃ e ∈ s.episodes, e.rowid.toI64 = r
  | (.chunk, r) => ∃ c ∈ s.documentChunks, c.rowid.toI64 = r ∧ (s.document? c.docId).isSome

variable {s : Store} {id : I64}

theorem activeId_iff : s.ActiveId id ↔
    (∃ e ∈ s.episodes, e.status = .active ∧ episodeHnswId e.rowid.toI64 = id) ∨
      ∃ c ∈ s.documentChunks, s.chunkActive c = true ∧ chunkHnswId c.rowid.toI64 = id := by
  constructor
  · intro h
    unfold ActiveId at h
    split at h
    · next r hr =>
      obtain ⟨e, he, rfl, ha⟩ := h
      exact .inl ⟨e, he, ha, eq_of_decode_episode hr⟩
    · next r hr =>
      obtain ⟨c, hc, rfl, ha⟩ := h
      exact .inr ⟨c, hc, ha, eq_of_decode_chunk hr⟩
  · rintro (⟨e, he, ha, rfl⟩ | ⟨c, hc, ha, rfl⟩)
    · simp only [ActiveId, decode_episodeHnswId]
      exact ⟨e, he, rfl, ha⟩
    · simp only [ActiveId, decode_chunkHnswId]
      exact ⟨c, hc, rfl, ha⟩

theorem existingId_iff : s.ExistingId id ↔ s.ActiveId id ∨ s.ForgottenId id := by
  rw [activeId_iff, ForgottenId]
  constructor
  · intro h
    unfold ExistingId at h
    split at h
    · next r hr =>
      obtain ⟨e, he, rfl⟩ := h
      cases hs : e.status with
      | active => exact .inl (.inl ⟨e, he, hs, eq_of_decode_episode hr⟩)
      | forgotten => exact .inr (.inl ⟨e, he, hs, eq_of_decode_episode hr⟩)
    · next r hr =>
      obtain ⟨c, hc, rfl, hdoc⟩ := h
      obtain ⟨d, hd⟩ := Option.isSome_iff_exists.1 hdoc
      cases hs : d.status with
      | active => exact .inl (.inr ⟨c, hc, by simp [chunkActive, hd, hs], eq_of_decode_chunk hr⟩)
      | forgotten =>
        exact .inr (.inr ⟨c, hc, by simp [chunkForgotten, hd, hs], eq_of_decode_chunk hr⟩)
  · have hepisode {e : EpisodeRow} (he : e ∈ s.episodes) :
        s.ExistingId (episodeHnswId e.rowid.toI64) := by
      simp only [ExistingId, decode_episodeHnswId]
      exact ⟨e, he, rfl⟩
    have hchunk {c : ChunkRow} (hc : c ∈ s.documentChunks) {p : DocumentRow → Bool}
        (h : (s.document? c.docId).any p = true) : s.ExistingId (chunkHnswId c.rowid.toI64) := by
      simp only [ExistingId, decode_chunkHnswId]
      obtain ⟨d, hd, -⟩ := (Option.any_eq_true _ _).1 h
      exact ⟨c, hc, rfl, by rw [hd]; rfl⟩
    rintro ((⟨e, he, -, rfl⟩ | ⟨c, hc, ha, rfl⟩) | (⟨e, he, -, rfl⟩ | ⟨c, hc, ha, rfl⟩))
    · exact hepisode he
    · exact hchunk hc ha
    · exact hepisode he
    · exact hchunk hc ha

theorem not_forgottenId_of_activeId (h : s.ActiveId id) : ¬s.ForgottenId id := by
  rcases activeId_iff.1 h with ⟨e, he, ha, rfl⟩ | ⟨c, hc, ha, rfl⟩
  · rintro (⟨e', he', hf, heq⟩ | ⟨c, hc, hf, heq⟩)
    · rw [episode_rowid_inj he' he (episodeHnswId_injective heq), ha] at hf
      cases hf
    · exact episodeHnswId_ne_chunkHnswId _ _ heq.symm
  · rintro (⟨e, he, hf, heq⟩ | ⟨c', hc', hf, heq⟩)
    · exact episodeHnswId_ne_chunkHnswId _ _ heq
    · rw [chunk_rowid_inj hc' hc (chunkHnswId_injective heq), chunkActive_not_forgotten ha] at hf
      cases hf

/-- The ids an outbox row may be replayed under are active. -/
theorem activeId_of_targetId? {t : PendingTarget} (h : s.targetId? t = some id) :
    s.ActiveId id := by
  rw [activeId_iff]
  cases t with
  | episode m =>
    simp only [targetId?, Option.bind_eq_some_iff] at h
    obtain ⟨e, he, h⟩ := h
    split at h
    · next ha => exact .inl ⟨e, (episode?_eq_some.1 he).1, ha, Option.some.inj h⟩
    · cases h
  | chunk c =>
    simp only [targetId?, Option.bind_eq_some_iff] at h
    obtain ⟨r, hr, h⟩ := h
    split at h
    · next ha => exact .inr ⟨r, (chunk?_eq_some.1 hr).1, ha, Option.some.inj h⟩
    · cases h

end Store

section Open

variable {cfg : Config} {io : HnswIo HnswDump} {env : OpenEnv} {s : Store} {dir : Dir HnswDump}

theorem tombstones_live (s : Store) (hnsw : HnswIndex) :
    (rebuildChunkTombstonesFromSql s (rebuildEpisodeTombstonesFromSql s hnsw)).dim = hnsw.dim ∧
    ∀ id, (rebuildChunkTombstonesFromSql s (rebuildEpisodeTombstonesFromSql s hnsw)).Live id ↔
      hnsw.Live id ∧ ¬s.ForgottenId id := by
  have hep := foldl_remove_live hnsw
    ((s.episodes.rows.filter (·.status = .forgotten)).map fun e => episodeHnswId e.rowid.toI64)
  have hch := foldl_remove_live (rebuildEpisodeTombstonesFromSql s hnsw)
    ((s.documentChunks.rows.filter s.chunkForgotten).map fun c => chunkHnswId c.rowid.toI64)
  refine ⟨hch.1.trans hep.1, fun id => ?_⟩
  rw [rebuildChunkTombstonesFromSql, hch.2, rebuildEpisodeTombstonesFromSql, hep.2,
    Store.ForgottenId]
  simp only [List.mem_map, List.mem_filter, decide_eq_true_eq, Table.mem_rows, not_or, and_assoc]

/-- A loaded snapshot loses the forgotten ids and no others. -/
theorem recoverIndex_loaded (s : Store) {d : HnswDump} {bak : Bool}
    (hload : loadSnapshot io dir = .index (d, bak))
    (hdim : d.dim = cfg.dim) : ∃ hnsw report, recoverIndex cfg io s dir =
    .ok (hnsw, report, bak, false) ∧
      hnsw.dim = cfg.dim ∧ ∀ id, hnsw.Live id ↔ id ∈ d.points.map Prod.snd ∧ ¬s.ForgottenId id := by
  have htomb := tombstones_live s (.fromInner d)
  refine ⟨_,
    _, by rw [recoverIndex, hload]; simp only [hdim, ne_eq, not_true_eq_false, if_false]; rfl, ?_, ?_⟩
  · exact htomb.1.trans hdim
  · intro id
    rw [htomb.2, HnswIndex.live_fromInner]

theorem recoverIndex_fresh (cfg : Config) (s : Store) (hload : loadSnapshot io dir = .error) :
    ∃ hnsw report, recoverIndex cfg io s dir = .ok (hnsw, report, false, true) ∧
    hnsw.dim = cfg.dim ∧
      ∀ id, hnsw.Live id ↔ ∃ r ∈ s.rebuildEpisodeRows cfg.embedderId ++
      s.rebuildChunkRows cfg.embedderId,
        r.2.Addable cfg.dim ∧ id = r.2.hnswId := by
  obtain ⟨hdim, hlive⟩ := Store.rebuild_live s (.new cfg.dim) cfg.embedderId
  refine ⟨_, _, by rw [recoverIndex, hload], hdim, fun id => ?_⟩
  rw [hlive]
  simp [HnswIndex.new, HnswIndex.Live]

theorem recoverIndex_panic (cfg : Config) (s : Store) (hload : loadSnapshot io dir = .panic) :
    recoverIndex cfg io s dir = .error (.other "panic in HnswIo::load_hnsw") := by
  rw [recoverIndex, hload]

theorem recoverIndex_wrongDim (s : Store) {d : HnswDump} {bak : Bool}
    (hload : loadSnapshot io dir = .index (d, bak))
    (hdim : d.dim ≠ cfg.dim) : ∃ e, recoverIndex cfg io s dir = .error e := by
  rw [recoverIndex, hload]
  exact ⟨_, if_pos hdim⟩

theorem recoverIndex_dim {hnsw : HnswIndex} {r : RebuildReport × Bool × Bool}
    (h : recoverIndex cfg io s dir = .ok (hnsw, r)) : hnsw.dim = cfg.dim := by
  cases hload : loadSnapshot io dir with
  | error =>
    obtain ⟨hnsw', _, hrec, hdim, -⟩ := recoverIndex_fresh cfg s hload
    rw [hrec] at h
    obtain rfl : hnsw' = hnsw := congrArg Prod.fst (Except.ok.inj h)
    exact hdim
  | index d =>
    by_cases hd : d.1.dim = cfg.dim
    · obtain ⟨hnsw', _, hrec, hdim, -⟩ := recoverIndex_loaded s hload hd
      rw [hrec] at h
      obtain rfl : hnsw' = hnsw := congrArg Prod.fst (Except.ok.inj h)
      exact hdim
    · obtain ⟨e, he⟩ := recoverIndex_wrongDim s hload hd
      rw [he] at h
      cases h
  | panic =>
    rw [recoverIndex_panic cfg s hload] at h
    cases h

/-- Opening replays the outbox into the recovered index and keeps everything else. -/
theorem openLibrary_eq_ok {o : Opened} : openLibrary cfg env s dir = .ok o →
    ∃ hnsw report bak fresh, recoverIndex cfg env.io s dir = .ok (hnsw, report, bak, fresh) ∧
      o.library = ⟨{ s with pendingIndex := (replayPendingIndex s env.drains hnsw).pending }, dir,
        (replayPendingIndex s env.drains hnsw).hnsw⟩ := by
  intro h
  unfold openLibrary at h
  cases hrec : recoverIndex cfg env.io s dir with
  | error e => simp [hrec, bind, Except.bind] at h
  | ok r =>
    obtain ⟨hnsw, report, bak, fresh⟩ := r
    simp only [hrec, bind, Except.bind, pure, Except.pure, Except.ok.injEq] at h
    exact ⟨hnsw, report, bak, fresh, rfl, by rw [← h]⟩

/-- The loader does not panic on the files, and what it loads has the dimension of the library. -/
def Loads (cfg : Config) (io : HnswIo HnswDump) (dir : Dir HnswDump) : Prop :=
  loadSnapshot io dir ≠ .panic ∧ ∀ d bak, loadSnapshot io dir = .index (d, bak) → d.dim = cfg.dim

theorem openLibrary_isOk (s : Store) (h : Loads cfg env.io dir) :
    ∃ o, openLibrary cfg env s dir = .ok o := by
  unfold openLibrary
  cases hload : loadSnapshot env.io dir with
  | error =>
    obtain ⟨hnsw, report, hrec, -⟩ := recoverIndex_fresh cfg s hload
    rw [hrec]
    exact ⟨_, rfl⟩
  | index r =>
    obtain ⟨d, bak⟩ := r
    obtain ⟨hnsw, report, hrec, -⟩ := recoverIndex_loaded s hload (h.2 d bak hload)
    rw [hrec]
    exact ⟨_, rfl⟩
  | panic => exact absurd hload h.1

/-- An opening that goes through has loaded a snapshot of its dimension, or none. -/
theorem openLibrary_loads {o : Opened} (h : openLibrary cfg env s dir = .ok o) :
    Loads cfg env.io dir := by
  obtain ⟨hnsw, report, bak, fresh, hrec, -⟩ := openLibrary_eq_ok h
  refine ⟨fun hload => ?_, fun d bak' hload => ?_⟩
  · rw [recoverIndex_panic cfg s hload] at hrec
    cases hrec
  · by_contra hdim
    obtain ⟨e, he⟩ := recoverIndex_wrongDim s hload hdim
    rw [he] at hrec
    cases hrec

/-- The ids live after opening: those of the loaded snapshot that are not forgotten, or those
rebuilt from SQL, and those replayed. -/
theorem openLibrary_live {o : Opened} (h : openLibrary cfg env s dir = .ok o) {id : I64} :
    o.library.hnsw.Live id ↔
      (match loadSnapshot env.io dir with
        | .index (d, _) => id ∈ d.points.map Prod.snd ∧ ¬s.ForgottenId id
        | .error => ∃ r ∈ s.rebuildEpisodeRows cfg.embedderId ++ s.rebuildChunkRows cfg.embedderId,
            r.2.Addable cfg.dim ∧ id = r.2.hnswId
        | .panic => False) ∨
      ∃ p ∈ s.pendingIndex, s.targetId? p.target = some id ∧ p.Addable cfg.dim := by
  obtain ⟨hpanic, hdims⟩ := openLibrary_loads h
  obtain ⟨hnsw, report, bak, fresh, hrec, hlib⟩ := openLibrary_eq_ok h
  rw [hlib, (Store.replay_spec s env.drains hnsw).2.1]
  cases hload : loadSnapshot env.io dir with
  | error =>
    obtain ⟨hnsw', report', hrec', hdim, hlive⟩ := recoverIndex_fresh cfg s hload
    rw [hrec'] at hrec
    obtain rfl : hnsw' = hnsw := congrArg Prod.fst (Except.ok.inj hrec)
    rw [hdim, hlive]
  | index r =>
    obtain ⟨hnsw', report', hrec', hdim, hlive⟩ := recoverIndex_loaded s hload (hdims r.1 r.2 hload)
    rw [hrec'] at hrec
    obtain rfl : hnsw' = hnsw := congrArg Prod.fst (Except.ok.inj hrec)
    rw [hdim, hlive]
  | panic => exact absurd hload hpanic

/-- After opening, everything live is active exactly when the loaded snapshot has no id of an erased
row. -/
theorem openLibrary_active_iff
    (hdim : ∀ d bak, loadSnapshot env.io dir = .index (d, bak) → d.dim = cfg.dim) :
    (∀ o, openLibrary cfg env s dir = .ok o → ∀ id, o.library.hnsw.Live id →
      o.library.store.ActiveId id) ↔
      ∀ d bak, loadSnapshot env.io dir = .index (d, bak) →
      ∀ id ∈ d.points.map Prod.snd, s.ExistingId id := by
  have hstore {o : Opened} (h : openLibrary cfg env s dir = .ok o) (id : I64) :
      o.library.store.ActiveId id ↔ s.ActiveId id := by
    obtain ⟨hnsw, _, _, _, _, hlib⟩ := openLibrary_eq_ok h
    rw [hlib]
    exact Iff.rfl
  constructor
  · intro h d bak hload id hid
    have hpanic : loadSnapshot env.io dir ≠ .panic := by simp [hload]
    obtain ⟨o, ho⟩ := openLibrary_isOk s ⟨hpanic, hdim⟩
    rw [Store.existingId_iff]
    by_cases hf : s.ForgottenId id
    · exact .inr hf
    · refine .inl ((hstore ho id).1 (h o ho id ((openLibrary_live ho).2 (.inl ?_))))
      rw [hload]
      exact ⟨hid, hf⟩
  · intro h o ho id hlive
    rw [hstore ho]
    rcases (openLibrary_live ho).1 hlive with hbase | ⟨p, -, hid, -⟩
    · cases hload : loadSnapshot env.io dir with
      | error =>
        rw [hload] at hbase
        obtain ⟨r, hr, -, rfl⟩ := hbase
        rw [Store.activeId_iff]
        rcases List.mem_append.1 hr with hr | hr
        · obtain ⟨e, he, ha, em, -, -, -, rfl⟩ := Store.mem_rebuildEpisodeRows.1 hr
          exact .inl ⟨e, he, ha, rfl⟩
        · obtain ⟨c, hc, ha, ce, -, -, -, rfl⟩ := Store.mem_rebuildChunkRows.1 hr
          exact .inr ⟨c, hc, ha, rfl⟩
      | index r =>
        rw [hload] at hbase
        exact (Store.existingId_iff.1 (h r.1 r.2 hload id hbase.1)).resolve_right hbase.2
      | panic => exact absurd hload (openLibrary_loads ho).1
    · exact Store.activeId_of_targetId? hid

/-- A cut opening changes the outbox only. -/
theorem openCut_eq (cfg : Config) (env : OpenEnv) (s : Store) (dir : Dir HnswDump) (n : Nat) :
    ∃ pending, openCut cfg env s dir n = { s with pendingIndex := pending } := by
  unfold openCut
  split
  · exact ⟨_, rfl⟩
  · exact ⟨_, rfl⟩

theorem openCuts_eq (cfg : Config) (s : Store) (dir : Dir HnswDump) (cuts : List (OpenEnv × Nat)) :
    ∃ pending, openCuts cfg dir s cuts = { s with pendingIndex := pending } := by
  induction cuts generalizing s with
  | nil => exact ⟨s.pendingIndex, rfl⟩
  | cons cut cuts ih =>
    obtain ⟨pending, hn⟩ := openCut_eq cfg cut.1 s dir cut.2
    obtain ⟨pending', hcuts⟩ := ih (openCut cfg cut.1 s dir cut.2)
    exact ⟨pending', by rw [openCuts, List.foldl_cons, ← openCuts, hcuts, hn]⟩

end Open

end Solo
