import Solo.Store.Outbox

/-!
# Sessions: commands, crashes and reopenings of one library

`Session.step` runs a library through commands and crashes: a crash loses the running index and
keeps the store and the snapshot directory, and the library is opened again. A session also
remembers which episodes were acknowledged and what the last snapshot of a non-empty index was a
dump of.

`reopen_active_iff`: whatever snapshot of the run an opening finds, everything live afterwards is
active exactly when no id of that snapshot belongs to an erased row. `acked_live_iff`: every
acknowledged, active episode with a vector of the index dimension is live after a crash exactly when
each of them is in the last snapshot or still has its outbox row.
-/

namespace Solo

inductive Command
  | remember (nowMs : Int) (drains : String → Bool) (item : NewEpisode × Embedding) (principal :
    Option String)
  | rememberBatch (nowMs : Int) (drains : String → Bool) (items : List (NewEpisode × Embedding))
      (principal : Option String)
  | update (nowMs : Int) (drains : String → Bool) (memoryId : MemoryId) (content : String) (emb :
    Embedding)
  | forget (memoryId : MemoryId)
  | ingestDocument (nowMs : Int) (drains : String → Bool) (file : Except Error IngestInput)
      (principal : Option String)
  | forgetDocument (docId : DocumentId)
  | forgetPrincipal (principal : String) (scope : AssetScope)
  | saveSnapshot

/-- The library after the command, and the memory ids its reply acknowledges as remembered. -/
def Library.exec (cfg : Config) (lib : Library) : Command → Library × List MemoryId
  | .remember nowMs drains item principal =>
    let (lib, reply) := dispatchRemember cfg nowMs drains lib item principal
    (lib, reply.toOption.toList)
  | .rememberBatch nowMs drains items principal =>
    let (lib, reply) := dispatchRememberBatch cfg nowMs drains lib items principal
    (lib, reply.toOption.getD [])
  | .update nowMs drains m content emb =>
    ((dispatchUpdate cfg nowMs drains lib m content emb).1, [])
  | .forget m => ((handleForget lib m).1, [])
  | .ingestDocument nowMs drains file principal =>
    ((dispatchIngestDocument cfg nowMs drains lib file principal).1, [])
  | .forgetDocument d => ((handleForgetDocument lib d).1, [])
  | .forgetPrincipal principal scope => ((forgetPrincipal cfg lib principal scope).1, [])
  | .saveSnapshot => (handleSaveSnapshot lib, [])

/-- `crash cuts env`: the process dies, each opening named in `cuts` dies after that many steps of
its replay, and the next one goes through. -/
inductive Event
  | command (c : Command)
  | crash (cuts : List (OpenEnv × Nat)) (env : OpenEnv)

structure Session where
  lib : Library
  acked : List MemoryId
  /-- What the last `SaveSnapshot` of a non-empty index dumped. -/
  saved : Option HnswDump

namespace Session

def new (cfg : Config) : Session := ⟨.new cfg, [], none⟩

def savedBy (s : Session) : Command → Option HnswDump
  | .saveSnapshot => if s.lib.hnsw.rawLen = 0 then s.saved else some s.lib.hnsw.dump
  | _ => s.saved

def step (cfg : Config) (s : Session) : Event → Session
  | .command c =>
    let (lib, acked) := s.lib.exec cfg c
    ⟨lib, s.acked ++ acked, s.savedBy c⟩
  | .crash cuts env =>
    let store := openCuts cfg s.lib.dir s.lib.store cuts
    match openLibrary cfg env store s.lib.dir with
    | .ok o => { s with lib := o.library }
    | .error _ => { s with lib := { s.lib with store := store } }

end Session

namespace Library

/-- What every command keeps. -/
structure Inv (cfg : Config) (lib : Library) : Prop where
  outbox : lib.store.OutboxInv cfg
  dim : lib.hnsw.dim = cfg.dim

variable {cfg : Config} {lib : Library}

theorem add_dim {ix ix' : HnswIndex} {id : I64} {v : Vector} (h : ix.add id v = .ok ix') :
    ix'.dim = ix.dim := by
  rw [(HnswIndex.add_eq_ok.1 h).2.2]

theorem addBatch_dim (hnsw : HnswIndex) (items : List ((NewEpisode × Embedding) × Rowid)) :
    (addBatch hnsw items).1.dim = hnsw.dim := by
  induction items generalizing hnsw with
  | nil => rfl
  | cons x items ih =>
    obtain ⟨item, rowid⟩ := x
    rw [addBatch]
    split
    · exact ih hnsw
    · split
      · exact ih hnsw
      · next hadd => exact (ih _).trans (add_dim hadd)

theorem addChunks_dim (hnsw : HnswIndex) (chunks : List ((ChunkId × Embedding) × Rowid)) :
    (addChunks hnsw chunks).1.dim = hnsw.dim := by
  induction chunks generalizing hnsw with
  | nil => rfl
  | cons x chunks ih =>
    obtain ⟨chunk, rowid⟩ := x
    rw [addChunks]
    split
    · exact ih hnsw
    · split
      · exact ih hnsw
      · next hadd => exact (ih _).trans (add_dim hadd)

theorem handleRemember_inv (h : lib.Inv cfg) (nowMs : Int) (item : NewEpisode × Embedding)
    (principal : Option String) : (handleRemember cfg nowMs lib item principal).1.Inv cfg ∧
      (handleRemember cfg nowMs lib item principal).1.dir = lib.dir := by
  unfold handleRemember
  split
  · exact ⟨h, rfl⟩
  · next hvalid =>
    split
    · exact ⟨h, rfl⟩
    · next hrow =>
      have houtbox := h.outbox.rememberRow (by simpa using hvalid) hrow
      split
      · exact ⟨⟨houtbox, h.dim⟩, rfl⟩
      · split
        · exact ⟨⟨houtbox, h.dim⟩, rfl⟩
        · next hadd => exact ⟨⟨houtbox, (add_dim hadd).trans h.dim⟩, rfl⟩

theorem dispatchRemember_inv (h : lib.Inv cfg) (nowMs : Int) (drains : String → Bool)
    (item : NewEpisode × Embedding) (principal : Option String) :
    (dispatchRemember cfg nowMs drains lib item principal).1.Inv cfg ∧
      (dispatchRemember cfg nowMs drains lib item principal).1.dir = lib.dir := by
  have hinv := handleRemember_inv h nowMs item principal
  unfold dispatchRemember
  split
  · next heq =>
    rw [heq] at hinv
    exact hinv
  · next heq =>
    rw [heq] at hinv
    exact ⟨⟨hinv.1.outbox.drained, hinv.1.dim⟩, hinv.2⟩

theorem dispatchRememberBatch_inv (h : lib.Inv cfg) (nowMs : Int) (drains : String → Bool)
    (items : List (NewEpisode × Embedding)) (principal : Option String) :
    (dispatchRememberBatch cfg nowMs drains lib items principal).1.Inv cfg ∧
      (dispatchRememberBatch cfg nowMs drains lib items principal).1.dir = lib.dir := by
  unfold dispatchRememberBatch
  split
  · exact ⟨h, rfl⟩
  split
  · exact ⟨h, rfl⟩
  split
  · exact ⟨h, rfl⟩
  next hvalid =>
  split
  · exact ⟨h, rfl⟩
  · next hrows =>
    have hvalid' : ∀ item ∈ items, item.2.valid = true := by simpa using hvalid
    exact ⟨⟨(h.outbox.rememberRows hvalid' hrows).drained, (addBatch_dim _ _).trans h.dim⟩, rfl⟩

theorem handleUpdate_inv (h : lib.Inv cfg) (nowMs : Int) (m : MemoryId) (content : String)
    (emb : Embedding) : (handleUpdate cfg nowMs lib m content emb).1.Inv cfg ∧
      (handleUpdate cfg nowMs lib m content emb).1.dir = lib.dir := by
  unfold handleUpdate
  split
  · exact ⟨h, rfl⟩
  next hvalid =>
  split
  · exact ⟨h, rfl⟩
  split
  · exact ⟨h, rfl⟩
  split
  · exact ⟨h, rfl⟩
  next hrow =>
  have houtbox := h.outbox.updateRows (by simpa using hvalid) hrow
  split
  · exact ⟨⟨houtbox, h.dim⟩, rfl⟩
  · next hadd => exact ⟨⟨houtbox, (add_dim hadd).trans h.dim⟩, rfl⟩

theorem dispatchUpdate_inv (h : lib.Inv cfg) (nowMs : Int) (drains : String → Bool) (m : MemoryId)
    (content : String) (emb : Embedding) :
    (dispatchUpdate cfg nowMs drains lib m content emb).1.Inv cfg ∧
      (dispatchUpdate cfg nowMs drains lib m content emb).1.dir = lib.dir := by
  have hinv := handleUpdate_inv h nowMs m content emb
  unfold dispatchUpdate
  split
  · next heq =>
    rw [heq] at hinv
    exact hinv
  · next heq =>
    rw [heq] at hinv
    exact ⟨⟨hinv.1.outbox.drained, hinv.1.dim⟩, hinv.2⟩

theorem handleForget_inv (h : lib.Inv cfg) (m : MemoryId) :
    (handleForget lib m).1.Inv cfg ∧ (handleForget lib m).1.dir = lib.dir := by
  unfold handleForget
  split
  · exact ⟨h, rfl⟩
  · exact ⟨⟨h.outbox.of_embeddings_eq rfl fun _ hp => .inl hp, h.dim⟩, rfl⟩

theorem dispatchIngestDocument_inv (h : lib.Inv cfg) (nowMs : Int) (drains : String → Bool)
    (file : Except Error IngestInput) (principal : Option String) :
    (dispatchIngestDocument cfg nowMs drains lib file principal).1.Inv cfg ∧
      (dispatchIngestDocument cfg nowMs drains lib file principal).1.dir = lib.dir := by
  unfold dispatchIngestDocument
  split
  · exact ⟨h, rfl⟩
  split
  · exact ⟨h, rfl⟩
  split
  · exact ⟨h, rfl⟩
  split
  · exact ⟨h, rfl⟩
  split
  · exact ⟨h, rfl⟩
  split
  · exact ⟨h, rfl⟩
  split
  · exact ⟨h, rfl⟩
  · next hrows =>
    exact ⟨⟨(h.outbox.ingestRows hrows).drained, (addChunks_dim _ _).trans h.dim⟩, rfl⟩

theorem handleForgetDocument_inv (h : lib.Inv cfg) (d : DocumentId) :
    (handleForgetDocument lib d).1.Inv cfg ∧ (handleForgetDocument lib d).1.dir = lib.dir := by
  unfold handleForgetDocument
  split
  · exact ⟨h, rfl⟩
  · exact ⟨⟨h.outbox.of_embeddings_eq rfl fun _ hp => .inl hp,
      (foldl_remove_live _ _).1.trans h.dim⟩, rfl⟩

theorem forgetPrincipal_inv (h : lib.Inv cfg) (principal : String) (scope : AssetScope) :
    (forgetPrincipal cfg lib principal scope).1.Inv cfg ∧
      (forgetPrincipal cfg lib principal scope).1.dir = lib.dir := by
  unfold forgetPrincipal handleForgetPrincipalRows
  cases hrows : deletePrincipalRows lib.store principal scope with
  | error e => exact ⟨h, rfl⟩
  | ok r =>
    have houtbox := h.outbox.deletePrincipalRows hrows
    have hdim : (r.2.invalidateVectors lib.hnsw).dim = cfg.dim :=
      (foldl_remove_live _ _).1.trans h.dim
    simp only
    split
    · exact ⟨⟨houtbox, (Store.rebuild_live _ _ _).1.trans hdim⟩, rfl⟩
    · exact ⟨⟨houtbox, hdim⟩, rfl⟩

/-- Every command keeps the invariant, and only `SaveSnapshot` touches the directory. -/
theorem exec_inv (h : lib.Inv cfg) (c : Command) : (lib.exec cfg c).1.Inv cfg ∧
    (lib.exec cfg c).1.dir =
      match c with
      | .saveSnapshot => save lib.hnsw.rawLen lib.hnsw.dump lib.dir
      | _ => lib.dir := by
  cases c with
  | remember nowMs drains item principal => exact dispatchRemember_inv h nowMs drains item principal
  | rememberBatch nowMs drains items principal =>
    exact dispatchRememberBatch_inv h nowMs drains items principal
  | update nowMs drains m content emb => exact dispatchUpdate_inv h nowMs drains m content emb
  | forget m => exact handleForget_inv h m
  | ingestDocument nowMs drains file principal =>
    exact dispatchIngestDocument_inv h nowMs drains file principal
  | forgetDocument d => exact handleForgetDocument_inv h d
  | forgetPrincipal principal scope => exact forgetPrincipal_inv h principal scope
  | saveSnapshot => exact ⟨⟨h.outbox, h.dim⟩, rfl⟩

end Library

namespace Session

variable {cfg : Config} {s : Session}

structure Inv (cfg : Config) (s : Session) : Prop where
  lib : s.lib.Inv cfg
  /-- An opening loads the last snapshot that was saved, which is whole. -/
  loaded : ∀ io, loadSnapshot io s.lib.dir = s.saved.elim .error fun d => .index (d, false)
  savedDim : ∀ d, s.saved = some d → d.dim = cfg.dim

theorem loadSnapshot_save (io : HnswIo HnswDump) {rawLen : Nat} (h : rawLen ≠ 0) (d : HnswDump)
    (dir : Dir HnswDump) : loadSnapshot io (save rawLen d dir) = .index (d, false) := by
  have hlive := (save_file h d dir).1
  have hload : (save rawLen d dir).load io = .index d :=
    Dir.loadBasename_whole io (by rw [hlive]) (by rw [hlive])
  rw [loadSnapshot, hload]

theorem inv_new : (Session.new cfg).Inv cfg :=
  ⟨⟨Store.outboxInv_empty, rfl⟩, fun _ => rfl, fun _ h => nomatch h⟩

theorem Inv.command (h : s.Inv cfg) (c : Command) : (s.step cfg (.command c)).Inv cfg := by
  obtain ⟨hinv, hdir⟩ := Library.exec_inv h.lib c
  refine ⟨hinv, ?_, ?_⟩
  · simp only [step]
    rw [hdir]
    intro io
    cases c with
    | saveSnapshot =>
      by_cases h0 : s.lib.hnsw.rawLen = 0
      · simpa [savedBy, h0] using h.loaded io
      · simp [savedBy, h0, loadSnapshot_save io h0]
    | _ => exact h.loaded io
  · intro d hd
    simp only [step] at hd
    cases c with
    | saveSnapshot =>
      by_cases h0 : s.lib.hnsw.rawLen = 0
      · simp only [savedBy, h0, if_true] at hd
        exact h.savedDim d hd
      · simp only [savedBy, h0, if_false, Option.some.injEq] at hd
        rw [← hd]
        exact h.lib.dim
    | _ => exact h.savedDim d hd

theorem Inv.loads (h : s.Inv cfg) (io : HnswIo HnswDump) : Loads cfg io s.lib.dir := by
  rw [Loads, h.loaded io]
  cases hsaved : s.saved with
  | none => simp
  | some d =>
    refine ⟨by simp, fun d' bak hload => ?_⟩
    obtain rfl : d = d' := congrArg Prod.fst (LoadOutcome.index.inj hload)
    exact h.savedDim d hsaved

theorem outboxInv_cuts {store : Store} (h : store.OutboxInv cfg) (dir : Dir HnswDump)
    (cuts : List (OpenEnv × Nat)) : (openCuts cfg dir store cuts).OutboxInv cfg := by
  induction cuts generalizing store with
  | nil => exact h
  | cons cut cuts ih => exact ih (h.openCut cut.1 dir cut.2)

theorem Inv.crash (h : s.Inv cfg) (cuts : List (OpenEnv × Nat)) (env : OpenEnv) :
    (s.step cfg (.crash cuts env)).Inv cfg := by
  have houtbox := outboxInv_cuts h.lib.outbox s.lib.dir cuts
  obtain ⟨o, ho⟩ := openLibrary_isOk (openCuts cfg s.lib.dir s.lib.store cuts) (h.loads env.io)
  obtain ⟨hnsw, report, bak, fresh, hrec, hlib⟩ := openLibrary_eq_ok ho
  have hstep : s.step cfg (.crash cuts env) = { s with lib := o.library } := by simp only [step, ho]
  rw [hstep]
  refine ⟨⟨?_, ?_⟩, ?_, h.savedDim⟩
  · rw [hlib]
    exact houtbox.of_embeddings_eq rfl fun _ hp => .inl (Store.replayRun_pending hp)
  · rw [hlib]
    exact (Store.replay_spec _ env.drains hnsw).1.trans (recoverIndex_dim hrec)
  · rw [hlib]
    exact h.loaded

theorem Inv.step (h : s.Inv cfg) (e : Event) : (s.step cfg e).Inv cfg := by
  cases e with
  | command c => exact h.command c
  | crash cuts env => exact h.crash cuts env

theorem inv_run (cfg : Config) (events : List Event) :
    (Run.run (step cfg) (new cfg) events).Inv cfg :=
  Run.invariant (Inv cfg) (fun _ e h => h.step e) inv_new

/-- An acknowledged, active episode with a vector of the index dimension. -/
structure Expected (cfg : Config) (s : Session) (e : EpisodeRow) : Prop where
  acked : e.memoryId ∈ s.acked
  row : e ∈ s.lib.store.episodes
  active : e.status = .active
  embedded : s.lib.store.WellEmbedded cfg e.memoryId

/-- After a crash now, every expected episode is live. -/
def Durable (cfg : Config) (s : Session) : Prop :=
  ∀ env o, openLibrary cfg env s.lib.store s.lib.dir = .ok o →
    ∀ e, s.Expected cfg e → o.library.hnsw.Live (episodeHnswId e.rowid.toI64)

/-- The last snapshot holds the expected episode, or its outbox row is still there. -/
def Covered (cfg : Config) (s : Session) : Prop :=
  ∀ d, s.saved = some d → ∀ e, s.Expected cfg e →
    episodeHnswId e.rowid.toI64 ∈ d.points.map Prod.snd ∨
      ∃ p ∈ s.lib.store.pendingIndex, p.target = .episode e.memoryId

theorem Expected.activeId {e : EpisodeRow} (h : s.Expected cfg e) :
    s.lib.store.ActiveId (episodeHnswId e.rowid.toI64) :=
  Store.activeId_iff.2 (.inl ⟨e, h.row, h.active, rfl⟩)

/-- An outbox row that is replayed under the id of an episode is the row of that episode. -/
theorem target_of_targetId? {store : Store} {e : EpisodeRow} (he : e ∈ store.episodes)
    {t : PendingTarget}
    (h : store.targetId? t = some (episodeHnswId e.rowid.toI64)) : t = .episode e.memoryId := by
  cases t with
  | episode m =>
    simp only [Store.targetId?, Option.bind_eq_some_iff] at h
    obtain ⟨e', he', h⟩ := h
    obtain ⟨hmem, rfl⟩ := Store.episode?_eq_some.1 he'
    split at h
    · rw [Store.episode_rowid_inj hmem he (episodeHnswId_injective (Option.some.inj h))]
    · cases h
  | chunk c =>
    simp only [Store.targetId?, Option.bind_eq_some_iff] at h
    obtain ⟨r, -, h⟩ := h
    split at h
    · exact absurd (Option.some.inj h).symm (episodeHnswId_ne_chunkHnswId _ _)
    · cases h

/-- The snapshot and the outbox between them decide what a reopened index has of the acknowledged
episodes; without a snapshot the index is rebuilt from SQL and has them all. -/
theorem Inv.durable_iff (h : s.Inv cfg) : s.Durable cfg ↔ s.Covered cfg := by
  constructor
  · intro hdur d hd e he
    obtain ⟨o, ho⟩ := openLibrary_isOk s.lib.store (h.loads OpenEnv.calm.io)
    have hlive := (openLibrary_live ho).1 (hdur _ o ho e he)
    rw [h.loaded, hd] at hlive
    rcases hlive with ⟨hmem, -⟩ | ⟨p, hp, hid, -⟩
    · exact .inl hmem
    · exact .inr ⟨p, hp, target_of_targetId? he.row hid⟩
  · intro hcov env o ho e he
    rw [openLibrary_live ho, h.loaded]
    cases hd : s.saved with
    | none =>
      obtain ⟨em, hem, hm, hid, hadd⟩ := he.embedded.decode h.lib.outbox
      refine .inl ⟨_, List.mem_append_left _ (Store.mem_rebuildEpisodeRows.2
        ⟨e, he.row, he.active, em, hem, hm, hid, rfl⟩), hadd, rfl⟩
    | some d =>
      rcases hcov d hd e he with hmem | ⟨p, hp, ht⟩
      · exact .inl ⟨hmem, Store.not_forgottenId_of_activeId he.activeId⟩
      · refine .inr ⟨p, hp, ?_, he.embedded.addable h.lib.outbox hp ht⟩
        simp [ht, Store.targetId?, Store.episode?_eq_some.2 ⟨he.row, rfl⟩, he.active]

/-- In every run, a crash loses no acknowledged episode exactly when the last snapshot and the
outbox cover them all. -/
theorem acked_live_iff (cfg : Config) (events : List Event) :
    (Run.run (step cfg) (new cfg) events).Durable cfg ↔
    (Run.run (step cfg) (new cfg) events).Covered cfg :=
  (inv_run cfg events).durable_iff

theorem one_lt_two_pow : 1 < 2 ^ 32 := by decide

/-- Dimension 1; the embedding is the number 1. -/
def cfgOne : Config := ⟨1, 1, .f32, Nat.one_pos, one_lt_two_pow⟩

def embOne : Embedding := ⟨.f32, 1, [0, 0, 128, 63]⟩

def rememberOne (m : MemoryId) (principal : Option String) : Event :=
  .command (.remember 0 (fun _ => true) (⟨m, 0, .hot⟩, embOne) principal)

/-- An episode is acknowledged and drained after the last snapshot. -/
def staleSnapshot : List Event :=
  [rememberOne "a" none, .command .saveSnapshot, rememberOne "b" none]

theorem staleSnapshot_not_durable :
    ¬(Run.run (step cfgOne) (new cfgOne) staleSnapshot).Durable cfgOne := by
  intro h
  have hexp : (Run.run (step cfgOne) (new cfgOne) staleSnapshot).Expected cfgOne
      ⟨⟨2, by decide⟩, "b", 0, .hot, .active, none⟩ :=
    ⟨by decide, by decide, rfl, ⟨⟨"b", 1, .f32, 1, embOne.data⟩, by decide, by decide⟩⟩
  rcases (inv_run cfgOne staleSnapshot).durable_iff.1 h _ rfl _ hexp with hsnap | ⟨p, hp, -⟩
  · exact absurd hsnap (by decide)
  · have hempty : (Run.run (step cfgOne) (new cfgOne) staleSnapshot).lib.store.pendingIndex.rows =
        [] := by
      decide
    rw [← Table.mem_rows, hempty] at hp
    cases hp

/-! ### Nothing forgotten comes back -/

/-- The store after the run, with whatever outbox, once openings over `dir` were cut off. -/
def crashedStore (cfg : Config) (events : List Event) (dir : Dir HnswDump)
    (pending : Table PendingRow) (cuts : List (OpenEnv × Nat)) : Store :=
  openCuts cfg dir { (Run.run (step cfg) (new cfg) events).lib.store with pendingIndex := pending }
    cuts

/-- Every snapshot an opening over `dir` can find was dumped at some point of the run. -/
def TakenIn (cfg : Config) (events : List Event) (io : HnswIo HnswDump) (dir : Dir HnswDump) :
    Prop :=
  ∀ d bak, loadSnapshot io dir = .index (d, bak) →
    ∃ pre, pre <+: events ∧ d = (Run.run (step cfg) (new cfg) pre).lib.hnsw.dump

theorem TakenIn.dim {events : List Event} {io : HnswIo HnswDump} {dir : Dir HnswDump}
    (h : TakenIn cfg events io dir) (d : HnswDump) (bak : Bool)
    (hload : loadSnapshot io dir = .index (d, bak)) : d.dim = cfg.dim := by
  obtain ⟨pre, -, rfl⟩ := h d bak hload
  exact (inv_run cfg pre).lib.dim

theorem crashedStore_eq (cfg : Config) (events : List Event) (dir : Dir HnswDump)
    (pending : Table PendingRow)
    (cuts : List (OpenEnv × Nat)) : ∃ pending', crashedStore cfg events dir pending cuts =
      { (Run.run (step cfg) (new cfg) events).lib.store with pendingIndex := pending' } :=
  openCuts_eq cfg { (Run.run (step cfg) (new cfg) events).lib.store with pendingIndex := pending }
    dir cuts

/-- For every run, every snapshot taken in it, every outbox and every sequence of openings cut off
in their replay: what is live after the next opening is active exactly when every id of the snapshot
still has its row. -/
theorem reopen_active_iff (cfg : Config) (events : List Event) (dir : Dir HnswDump)
    (pending : Table PendingRow) (cuts : List (OpenEnv × Nat)) (env : OpenEnv)
    (hdir : TakenIn cfg events env.io dir) :
    (∀ o, openLibrary cfg env (crashedStore cfg events dir pending cuts) dir = .ok o →
      ∀ id, o.library.hnsw.Live id → o.library.store.ActiveId id) ↔
      ∀ d bak, loadSnapshot env.io dir = .index (d, bak) → ∀ id ∈ d.points.map Prod.snd,
        (Run.run (step cfg) (new cfg) events).lib.store.ExistingId id := by
  obtain ⟨pending', hstore⟩ := crashedStore_eq cfg events dir pending cuts
  rw [openLibrary_active_iff hdir.dim, hstore]
  exact Iff.rfl

/-- A snapshot of one remembered episode, under both basenames. -/
def dirOne : Dir HnswDump := ⟨fun _ _ => some ⟨1, [([0x3F800000#32], 1)]⟩⟩

theorem loadSnapshot_dirOne :
    loadSnapshot OpenEnv.calm.io dirOne = .index (⟨1, [([0x3F800000#32], 1)]⟩, false) := by
  rw [loadSnapshot, Dir.load, Dir.loadBasename_whole _ rfl rfl]

theorem dirOne_takenIn :
    TakenIn cfgOne [rememberOne "a" (some "alice"), .command (.forget "a")]
    OpenEnv.calm.io dirOne := by
  intro d bak hload
  rw [loadSnapshot_dirOne] at hload
  obtain rfl : (⟨1, [([0x3F800000#32], 1)]⟩ : HnswDump) = d :=
    congrArg Prod.fst (LoadOutcome.index.inj hload)
  exact ⟨[rememberOne "a" (some "alice")], ⟨[.command (.forget "a")], rfl⟩, by decide⟩

theorem reopen_active_iff_forget :
    (∀ o, openLibrary cfgOne OpenEnv.calm (crashedStore cfgOne
        [rememberOne "a" (some "alice"), .command (.forget "a")] dirOne .empty [(OpenEnv.calm, 1)])
        dirOne = .ok o →
      ∀ id, o.library.hnsw.Live id → o.library.store.ActiveId id) ↔
      ∀ d bak, loadSnapshot OpenEnv.calm.io dirOne = .index (d, bak) → ∀ id ∈ d.points.map Prod.snd,
        (Run.run (step cfgOne) (new cfgOne)
          [rememberOne "a" (some "alice"), .command (.forget "a")]).lib.store.ExistingId id :=
  reopen_active_iff cfgOne _ dirOne .empty [(OpenEnv.calm, 1)] OpenEnv.calm dirOne_takenIn

/-- The principal's episode is erased after the last snapshot. -/
def erasedAfterSnapshot : List Event :=
  [rememberOne "a" (some "alice"), .command .saveSnapshot,
    .command (.forgetPrincipal "alice" ⟨[], [], false, true, 0, 0⟩)]

theorem erasedAfterSnapshot_not_active :
    ¬∀ o, openLibrary cfgOne OpenEnv.calm
    (Run.run (step cfgOne) (new cfgOne) erasedAfterSnapshot).lib.store
        (Run.run (step cfgOne) (new cfgOne) erasedAfterSnapshot).lib.dir = .ok o →
      ∀ id, o.library.hnsw.Live id → o.library.store.ActiveId id := by
  intro h
  have hinv := inv_run cfgOne erasedAfterSnapshot
  have hload := hinv.loaded OpenEnv.calm.io
  have hex :=
    (openLibrary_active_iff (hinv.loads OpenEnv.calm.io).2).1 h _ false hload 1 (by decide)
  have hdecode : decodeHnswId 1 = (.episode, 1) := by decide
  have hempty : (Run.run (step cfgOne) (new cfgOne) erasedAfterSnapshot).lib.store.episodes.rows =
      [] := by
    decide
  rw [Store.ExistingId, hdecode] at hex
  obtain ⟨e, he, -⟩ := hex
  rw [← Table.mem_rows, hempty] at he
  cases he

end Session

end Solo
