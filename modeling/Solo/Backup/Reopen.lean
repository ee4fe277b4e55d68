import Solo.Backup.Swap
import Solo.Store.Vectors

/-!
# The index after a restore

A restore leaves the snapshots of the vector index where they are, and the next opening loads one of
them if its dimension is right. `openLibrary_agrees_iff` says which snapshots give the index of the
restored database; `restore_reopen_iff` carries it through a restore. The snapshot files are
arbitrary: what the loader makes of two halves of different dumps is left to the opening's
`OpenEnv`.
-/

namespace Solo

open RestoreDir

/-- The index holds every current embedding under its id, and no other id is live. -/
def IndexAgrees (s : Store) (embedderId : ℕ) (hnsw : HnswIndex) : Prop :=
  (∀ r, s.Current embedderId r →
    hnsw.Live r.hnswId ∧ ∃ v, decodeF32 r.blob r.dim = some v ∧ ∀ w, (w, r.hnswId) ∈ hnsw.points →
      w = v) ∧
  ∀ id, hnsw.Live id → ∃ r, s.Current embedderId r ∧ r.hnswId = id

/-- The snapshot could be one of this database: its dimension is right, the ids that are not
forgotten are those of current embeddings, each with its vector, and what it lacks is in the
outbox. -/
def SnapshotFits (cfg : Config) (s : Store) (d : HnswDump) : Prop :=
  d.dim = cfg.dim ∧
  (∀ r, s.Current cfg.embedderId r →
    ((∃ w, (w, r.hnswId) ∈ d.points) ∨ ∃ w, s.Replayed cfg.dim r.hnswId w) ∧
    ∃ v, decodeF32 r.blob r.dim = some v ∧ ∀ w, (w, r.hnswId) ∈ d.points → w = v) ∧
  ∀ w id, (w, id) ∈ d.points → ¬ s.ForgottenId id → ∃ r, s.Current cfg.embedderId r ∧ r.hnswId = id

/-- The snapshot that opening loads fits the database; without one the embeddings can be added; and
an outbox row that is replayed has the current embedding of its target. -/
def OpensTrue (cfg : Config) (io : HnswIo HnswDump) (s : Store) (dir : Dir HnswDump) : Prop :=
  (match loadSnapshot io dir with
    | .index (d, _) => SnapshotFits cfg s d
    | .error => ∀ r, s.Current cfg.embedderId r → r.Addable cfg.dim
    | .panic => False) ∧
  ∀ id w, s.Replayed cfg.dim id w → ∃ r, s.Current cfg.embedderId r ∧ r.hnswId = id ∧
  decodeF32 r.blob r.dim = some w

section Open

variable {cfg : Config} {env : OpenEnv} {s : Store} {dir : Dir HnswDump} {o : Opened} {id : I64}

theorem exists_replayed_iff {dim : ℕ} :
    (∃ p ∈ s.pendingIndex, s.targetId? p.target = some id ∧ p.Addable dim) ↔
    ∃ w, s.Replayed dim id w := by
  constructor
  · rintro ⟨p, hp, hid, w, hw⟩
    exact ⟨w, p, hp, hid, hw⟩
  · rintro ⟨w, p, hp, hid, hw⟩
    exact ⟨p, hp, hid, w, hw⟩

theorem openLibrary_store (h : openLibrary cfg env s dir = .ok o) :
    ∃ pending, o.library.store = { s with pendingIndex := pending } := by
  obtain ⟨hnsw, report, bak, fresh, -, hlib⟩ := openLibrary_eq_ok h
  exact ⟨_, by rw [hlib]⟩

theorem openLibrary_current (h : openLibrary cfg env s dir = .ok o) {embedderId : ℕ}
    {r : IndexRow} : o.library.store.Current embedderId r ↔ s.Current embedderId r := by
  obtain ⟨pending, hstore⟩ := openLibrary_store h
  rw [hstore]
  exact Iff.rfl

/-- A replayed id is live. -/
theorem live_of_replayed (h : openLibrary cfg env s dir = .ok o) {w : Vector}
    (hr : s.Replayed cfg.dim id w) : o.library.hnsw.Live id ∧ (w, id) ∈ o.library.hnsw.points :=
  ⟨(openLibrary_live h).2 (.inr (exists_replayed_iff.2 ⟨w, hr⟩)),
    (openLibrary_points h).2 (.inr hr)⟩

theorem OpensTrue.agrees (h : OpensTrue cfg env.io s dir) :
    ∃ o, openLibrary cfg env s dir = .ok o ∧
    IndexAgrees o.library.store cfg.embedderId o.library.hnsw := by
  obtain ⟨hbase, houtbox⟩ := h
  have hloads : Loads cfg env.io dir := by
    refine ⟨fun hload => ?_, fun d bak hload => ?_⟩
    · rw [hload] at hbase
      exact hbase
    · rw [hload] at hbase
      exact hbase.1
  obtain ⟨o, ho⟩ := openLibrary_isOk s hloads
  -- a vector replayed under an id is that of its current embedding
  have hreplayed {r : IndexRow} {v w : Vector} (hr : s.Current cfg.embedderId r)
      (hv : decodeF32 r.blob r.dim = some v) (hw : s.Replayed cfg.dim r.hnswId w) : w = v := by
    obtain ⟨r', hr', hid, hdec⟩ := houtbox _ _ hw
    rw [hr'.unique hr hid, hv] at hdec
    exact (Option.some.inj hdec).symm
  refine ⟨o, ho, fun r hr => ?_, fun id hlive => ?_⟩
  · rw [openLibrary_current ho] at hr
    rw [openLibrary_live ho, exists_replayed_iff]
    cases hload : loadSnapshot env.io dir with
    | error =>
      rw [hload] at hbase
      obtain ⟨v, hv, hlen⟩ := hbase r hr
      obtain ⟨x, hx, rfl⟩ := Store.current_iff.1 hr
      refine ⟨.inl ⟨x, hx, ⟨v, hv, hlen⟩, rfl⟩, v, hv, fun w hw => ?_⟩
      rw [openLibrary_points ho, hload] at hw
      rcases hw with ⟨r', hr', hid, hw, -⟩ | hw
      · rw [hr'.unique hr hid, hv] at hw
        exact (Option.some.inj hw).symm
      · exact hreplayed hr hv hw
    | panic => exact absurd hload hloads.1
    | index r' =>
      rw [hload] at hbase
      obtain ⟨hhas, v, hv, hpoints⟩ := hbase.2.1 r hr
      refine ⟨?_, v, hv, fun w hw => ?_⟩
      · rcases hhas with ⟨w, hw⟩ | hw
        · exact .inl ⟨List.mem_map_of_mem hw, Store.not_forgottenId_of_activeId hr.activeId⟩
        · exact .inr hw
      · rw [openLibrary_points ho, hload] at hw
        rcases hw with hw | hw
        · exact hpoints w hw
        · exact hreplayed hr hv hw
  · simp only [openLibrary_current ho]
    rcases (openLibrary_live ho).1 hlive with hlive | hlive
    · cases hload : loadSnapshot env.io dir with
      | panic => exact absurd hload hloads.1
      | error =>
        rw [hload] at hlive
        obtain ⟨x, hx, -, rfl⟩ := hlive
        exact ⟨x.2, Store.current_iff.2 ⟨x, hx, rfl⟩, rfl⟩
      | index r' =>
        rw [hload] at hlive hbase
        obtain ⟨hmem, hforgotten⟩ := hlive
        obtain ⟨⟨w, id'⟩, hw, rfl⟩ := List.mem_map.1 hmem
        exact hbase.2.2 w _ hw hforgotten
    · obtain ⟨w, hw⟩ := exists_replayed_iff.1 hlive
      obtain ⟨r, hr, hid, -⟩ := houtbox id w hw
      exact ⟨r, hr, hid⟩

theorem IndexAgrees.opensTrue (ho : openLibrary cfg env s dir = .ok o)
    (h : IndexAgrees o.library.store cfg.embedderId o.library.hnsw) :
    OpensTrue cfg env.io s dir := by
  obtain ⟨hcurrent, hlive⟩ := h
  simp only [openLibrary_current ho] at hcurrent hlive
  refine ⟨?_, fun id w hw => ?_⟩
  · cases hload : loadSnapshot env.io dir with
    | panic => exact absurd hload (openLibrary_loads ho).1
    | error =>
      intro r hr
      obtain ⟨hl, v, hv, hpoints⟩ := hcurrent r hr
      rw [openLibrary_live ho, hload, exists_replayed_iff] at hl
      rcases hl with ⟨x, hx, hadd, hid⟩ | ⟨w, hw⟩
      · have hx' : s.Current cfg.embedderId x.2 := Store.current_iff.2 ⟨x, hx, rfl⟩
        rw [hr.unique hx' hid]
        exact hadd
      · obtain rfl := hpoints w (live_of_replayed ho hw).2
        obtain ⟨p, -, -, -, hlen⟩ := hw
        exact ⟨w, hv, hlen⟩
    | index r' =>
      obtain ⟨d, bak⟩ := r'
      refine ⟨(openLibrary_loads ho).2 d bak hload, fun r hr => ?_, fun w id hw hforgotten => ?_⟩
      · obtain ⟨hl, v, hv, hpoints⟩ := hcurrent r hr
        refine ⟨?_, v, hv,
          fun w hw => hpoints w ((openLibrary_points ho).2 (.inl (by rw [hload]; exact hw)))⟩
        rw [openLibrary_live ho, hload, exists_replayed_iff] at hl
        refine hl.imp_left fun hmem => ?_
        obtain ⟨⟨w, id'⟩, hw, hid⟩ := List.mem_map.1 hmem.1
        exact ⟨w, by rw [← hid]; exact hw⟩
      · refine hlive id ((openLibrary_live ho).2 (.inl ?_))
        rw [hload]
        exact ⟨List.mem_map_of_mem hw, hforgotten⟩
  · obtain ⟨hl, hpoint⟩ := live_of_replayed ho hw
    obtain ⟨r, hr, rfl⟩ := hlive id hl
    obtain ⟨-, v, hv, hpoints⟩ := hcurrent r hr
    exact ⟨r, hr, rfl, by rw [hv, hpoints w hpoint]⟩

theorem openLibrary_agrees_iff :
    (∃ o, openLibrary cfg env s dir = .ok o ∧
      IndexAgrees o.library.store cfg.embedderId o.library.hnsw) ↔ OpensTrue cfg env.io s dir :=
  ⟨fun ⟨_, ho, h⟩ => h.opensTrue ho, OpensTrue.agrees⟩

end Open

/-- `LibraryHandle::open` on the live files succeeds with the index of their database; the tables of
the store are the first component. -/
def ReopensTrue {A : Type} (cfg : Config) (env : OpenEnv) (d : RestoreDir (Store × A)) : Prop :=
  ∃ img, d.family .db = some (.database img) ∧ ∃ o, openLibrary cfg env img.tables.1 d.hnsw =
    .ok o ∧ IndexAgrees img.tables.1 cfg.embedderId o.library.hnsw

/-- After a restore that returns `Ok`, opening gives the index of the restored database exactly when
the snapshot that was there before fits the database of the backup. -/
theorem restore_reopen_iff {A : Type} (key : Aead) (sha256 : List UInt8 → String)
    (src : RestoreSource (Store × A))
    (force : Bool) (auditRow : A → A) (cfg : Config) (env : OpenEnv) (family : DbFamily (Store × A))
    (assets : Option AssetFiles)
    (staging : Option (StagingFile (Store × A))) (hnsw : Dir HnswDump) (es : List RestoreEvent)
    (report : RestoreReport)
    (hdone : (Run.run (step key sha256 src force (Prod.map id auditRow))
      (start family assets staging hnsw) es).pc = .done report) :
    ReopensTrue cfg env
        (Run.run (step key sha256 src force (Prod.map id auditRow))
          (start family assets staging hnsw) es) ↔
      OpensTrue cfg env.io src.image.tables.1 hnsw := by
  obtain ⟨⟨hdb, -⟩, -⟩ := restored_of_done hdone
  have hhnsw :
      (Run.run (step key sha256 src force (Prod.map id auditRow)) (start family assets staging hnsw)
        es).hnsw =
      hnsw := run_hnsw (start family assets staging hnsw) es
  obtain ⟨img, himg, htables⟩ : ∃ img, (Run.run (step key sha256 src force (Prod.map id auditRow))
      (start family assets staging hnsw) es).family .db = some (.database img) ∧
      img.tables.1 = src.image.tables.1 := by
    rcases hdb with hdb | hdb
    · exact ⟨_, hdb, rfl⟩
    · exact ⟨_, hdb, rfl⟩
  rw [← openLibrary_agrees_iff, ← htables]
  have hcurrent {o : Opened} (ho : openLibrary cfg env img.tables.1 hnsw = .ok o) :
      IndexAgrees img.tables.1 cfg.embedderId o.library.hnsw ↔
        IndexAgrees o.library.store cfg.embedderId o.library.hnsw := by
    unfold IndexAgrees
    simp only [openLibrary_current ho]
  constructor
  · rintro ⟨img', himg', o, ho, h⟩
    obtain rfl : img = img' := by
      rw [himg] at himg'
      simpa using himg'
    rw [hhnsw] at ho
    exact ⟨o, ho, (hcurrent ho).1 h⟩
  · rintro ⟨o, ho, h⟩
    exact ⟨img, himg, o, by rw [hhnsw]; exact ho, (hcurrent ho).2 h⟩

/-! ### A backup and the snapshot of another history -/

namespace StaleSnapshot

/-- One active episode with the vector `[1.0]`, and an empty outbox. -/
def store : Store := { Store.recoverySample with pendingIndex := .empty }

/-- The live library had another episode under the same rowid. -/
def snapshot : HnswDump := ⟨1, [([0], episodeHnswId 1)]⟩

def dir : Dir HnswDump :=
  (Dir.empty.set .live .data (some snapshot)).set .live .graph (some snapshot)

def config : Config := ⟨1, 1, .f32, Nat.one_pos, Nat.one_lt_two_pow_iff.2 (by simp)⟩

def source : RestoreSource (Store × List String) := ⟨true, true, "ok", ⟨(store, []), none, none⟩⟩

/-- A library without an episode is there before. -/
def family : DbFamily (Store × List String) :=
  Function.update (fun _ => none) .db (some (.database ⟨(Store.empty, []), none, none⟩))

def restored (hnsw : Dir HnswDump) : RestoreDir (Store × List String) :=
  Run.run (step HiAsset.key HiAsset.sha256 source true (Prod.map id (List.cons "library.restore")))
    (start family none none hnsw) (List.replicate 14 .ok)

theorem restored_done (hnsw : Dir HnswDump) : (restored hnsw).pc = .done ⟨⟨0, 0⟩⟩ := by rfl

theorem current_iff {r : IndexRow} : store.Current 1 r ↔
    r = ⟨episodeHnswId 1, [0, 0, 128, 63], 1⟩ := by
  constructor
  · rintro (⟨e, he, ha, em, hem, -, -, rfl⟩ | ⟨c, hc, -⟩)
    · obtain rfl := List.mem_singleton.1 hem
      rcases List.mem_pair.1 he with rfl | rfl
      · rfl
      · cases ha
    · exact absurd hc List.not_mem_nil
  · rintro rfl
    exact .inl ⟨_, List.mem_cons_self, rfl, _, List.mem_singleton_self _, rfl, rfl, rfl⟩

theorem decode_vector : decodeF32 [0, 0, 128, 63] 1 = some [0x3F800000#32] := by decide

theorem not_replayed {id : I64} {w : Vector} : ¬ store.Replayed 1 id w := by
  rintro ⟨p, hp, -⟩
  exact absurd hp List.not_mem_nil

end StaleSnapshot

open StaleSnapshot

theorem restore_reopen_iff_noSnapshot : ReopensTrue config .calm (restored .empty) := by
  refine (restore_reopen_iff HiAsset.key HiAsset.sha256 source true (List.cons "library.restore")
    config .calm
    StaleSnapshot.family none none .empty (List.replicate 14 .ok) ⟨⟨0, 0⟩⟩ (restored_done .empty)).2
    ⟨?_, ?_⟩
  · have hload : loadSnapshot OpenEnv.calm.io .empty = .error := by rfl
    rw [hload]
    rintro r hr
    obtain rfl := current_iff.1 hr
    exact ⟨_, decode_vector, rfl⟩
  · exact fun id w hw => absurd hw not_replayed

/-- After an `Ok` restore the episode of the backup is found under the vector of another episode. -/
theorem staleSnapshot_not_reopensTrue :
    (restored dir).pc = .done ⟨⟨0, 0⟩⟩ ∧ ∀ env, ¬ ReopensTrue config env (restored dir) := by
  refine ⟨restored_done dir, ?_⟩
  rintro env ⟨img, himg, o, ho, hcurrent, -⟩
  have hdb : (restored dir).family .db =
      some (.database ⟨(store, ["library.restore"]), none, none⟩) := by rfl
  obtain rfl : img = ⟨(store, ["library.restore"]), none, none⟩ := by
    rw [hdb] at himg
    simpa using himg.symm
  obtain ⟨-, v, hv, hpoints⟩ := hcurrent _ (current_iff.2 rfl)
  rw [decode_vector] at hv
  have hload : loadSnapshot env.io dir = .index (snapshot, false) := by
    rw [loadSnapshot, Dir.load, Dir.loadBasename_whole env.io (d := snapshot) rfl rfl]
  have hpoint : ([0], episodeHnswId 1) ∈ o.library.hnsw.points := by
    rw [openLibrary_points ho, show (restored dir).hnsw = dir from rfl, hload]
    exact .inl (List.mem_singleton_self _)
  have hne := hpoints _ hpoint
  rw [← Option.some.inj hv] at hne
  exact absurd hne (by decide)

end Solo
