import Solo.Store.AuditOutcome

/-!
# A batch is remembered whole or not at all (`handle_remember_batch_durable`)

The rows of a batch are inserted in one transaction, in order; the first insert that fails takes the
batch with it. After the commit every item is offered to the index, whatever became of the others,
and the outbox loses the rows of the items that the index took, as far as their deletes take effect:
a delete that fails is logged, and its row is left to the replay.
-/

namespace Solo

section Rows

variable {cfg : Config} {nowMs : Int} {principal : Option String}

def newEpisodeRow (principal : Option String) (x : (NewEpisode × Embedding) × Rowid) : EpisodeRow :=
  ⟨x.2, x.1.1.memoryId, x.1.1.tsMs, x.1.1.tier, .active, principal⟩

def newEmbeddingRow (cfg : Config) (item : NewEpisode × Embedding) : EmbeddingRow :=
  .ofEmbedding cfg item.1.memoryId item.2

def newPendingRow (nowMs : Int) (item : NewEpisode × Embedding) : PendingRow :=
  ⟨.episode item.1.memoryId, item.2.data, item.2.dim, nowMs⟩

/-- The rows that the inserts of `items` add to `s`, in order, under these rowids. -/
structure Inserted (cfg : Config) (nowMs : Int) (principal : Option String)
    (items : List (NewEpisode × Embedding)) (rowids : List Rowid) (s s' : Store) : Prop where
  length : rowids.length = items.length
  episodes : s'.episodes.rows = s.episodes.rows ++ (items.zip rowids).map (newEpisodeRow principal)
  embeddings : s'.embeddings.rows = s.embeddings.rows ++ items.map (newEmbeddingRow cfg)
  pendingIndex : s'.pendingIndex.rows = s.pendingIndex.rows ++ items.map (newPendingRow nowMs)
  fresh : ∀ item ∈ items, ∀ p ∈ s.pendingIndex, p.target ≠ .episode item.1.memoryId
  nodup : (items.map (·.1.memoryId)).Nodup

theorem rememberRow_inserted {s s' : Store} {item : NewEpisode × Embedding} {rowid : Rowid}
    (h : rememberRow cfg nowMs principal s item = .ok (s', rowid)) :
    Inserted cfg nowMs principal [item] [rowid] s s' := by
  unfold rememberRow at h
  simp only [Result.bind_eq_ok, orStorage_eq_ok, Result.pure_eq_ok, Prod.mk.injEq] at h
  obtain ⟨r, -, eps, heps, ems, hems, pend, hpend, rfl, rfl⟩ := h
  refine ⟨rfl, Table.insert?_rows heps, Table.insert?_rows hems, Table.insert?_rows hpend,
    ?_, by simp⟩
  intro item' hitem p hp
  rw [List.mem_singleton] at hitem
  subst hitem
  have hfresh := Table.insert?_fresh hpend hp
  simpa [Keyed.clash] using hfresh

theorem rememberRows_inserted {s s' : Store} {items : List (NewEpisode × Embedding)}
    {rowids : List Rowid} (h : rememberRows cfg nowMs principal s items = .ok (s', rowids)) :
    Inserted cfg nowMs principal items rowids s s' := by
  induction items generalizing s rowids with
  | nil =>
    cases h
    exact ⟨rfl, by simp, by simp, by simp, by simp, by simp⟩
  | cons item items ih =>
    rw [rememberRows] at h
    simp only [Result.bind_eq_ok, Result.pure_eq_ok, Prod.exists, Prod.mk.injEq] at h
    obtain ⟨s₁, rowid, hrow, s₂, rowids, hrows, rfl, rfl⟩ := h
    have hone := rememberRow_inserted hrow
    have hrest := ih hrows
    have hmem (p : PendingRow) : p ∈ s₁.pendingIndex ↔ p ∈ s.pendingIndex ∨
        p = newPendingRow nowMs item := by
      rw [← Table.mem_rows, hone.pendingIndex]
      simp
    refine ⟨by rw [List.length_cons, List.length_cons, hrest.length], ?_, ?_, ?_, ?_, ?_⟩
    · rw [hrest.episodes, hone.episodes, List.append_assoc]
      rfl
    · rw [hrest.embeddings, hone.embeddings, List.append_assoc]
      rfl
    · rw [hrest.pendingIndex, hone.pendingIndex, List.append_assoc]
      rfl
    · intro item' hitem p hp
      rcases List.mem_cons.1 hitem with rfl | hitem
      · exact hone.fresh _ (List.mem_singleton_self _) p hp
      · exact hrest.fresh item' hitem p ((hmem p).2 (.inl hp))
    · rw [List.map_cons, List.nodup_cons]
      refine ⟨fun h => ?_, hrest.nodup⟩
      obtain ⟨item', hitem, hid⟩ := List.mem_map.1 h
      refine hrest.fresh item' hitem _ ((hmem _).2 (.inr rfl)) ?_
      rw [newPendingRow, hid]

end Rows

/-! ### The index -/

/-- The point that the index takes for an item: its vector must be `f32` and of the index's
dimension. -/
def indexPoint (dim : Nat) (x : (NewEpisode × Embedding) × Rowid) : Option (Vector × I64) :=
  (x.1.2.asF32Slice.filter fun v => v.length = dim).map fun v => (v, episodeHnswId x.2.toI64)

/-- Every item is offered, whatever became of those before it. -/
theorem addBatch_eq (hnsw : HnswIndex) (items : List ((NewEpisode × Embedding) × Rowid)) :
    (addBatch hnsw items).1.points = hnsw.points ++ items.filterMap (indexPoint hnsw.dim) ∧
      (addBatch hnsw items).2 = (items.filter fun x => (indexPoint hnsw.dim x).isSome).map
      (·.1.1.memoryId) := by
  induction items generalizing hnsw with
  | nil => exact ⟨(List.append_nil _).symm, rfl⟩
  | cons x items ih =>
    obtain ⟨item, rowid⟩ := x
    rw [addBatch]
    cases hv : item.2.asF32Slice with
    | none =>
      have hpoint : indexPoint hnsw.dim (item, rowid) = none := by simp [indexPoint, hv]
      dsimp only
      rw [List.filterMap_cons_none hpoint, List.filter_cons_of_neg (by simp [hpoint])]
      exact ih hnsw
    | some v =>
      dsimp only
      cases hadd : hnsw.add (episodeHnswId rowid.toI64) v with
      | error e =>
        have hlen : v.length ≠ hnsw.dim := by
          intro hlen
          obtain ⟨ix, hix⟩ := HnswIndex.add_isOk.2 ⟨episodeHnswId_msb rowid, hlen⟩
          rw [hadd] at hix
          cases hix
        have hpoint : indexPoint hnsw.dim (item, rowid) = none := by simp [indexPoint, hv, hlen]
        dsimp only
        rw [List.filterMap_cons_none hpoint, List.filter_cons_of_neg (by simp [hpoint])]
        exact ih hnsw
      | ok ix =>
        obtain ⟨-, hlen, hix⟩ := HnswIndex.add_eq_ok.1 hadd
        have hpoint : indexPoint hnsw.dim (item, rowid) = some (v, episodeHnswId rowid.toI64) := by
          simp [indexPoint, hv, hlen]
        have hdim : ix.dim = hnsw.dim := by rw [hix]
        have hpoints : ix.points = hnsw.points ++ [(v, episodeHnswId rowid.toI64)] := by rw [hix]
        obtain ⟨hrest, hids⟩ := ih ix
        rw [hdim] at hrest hids
        rw [hpoints, List.append_assoc] at hrest
        dsimp only
        rw [List.filterMap_cons_some hpoint, List.filter_cons_of_pos (by simp [hpoint]), hrest,
          hids]
        exact ⟨rfl, rfl⟩

def takesPoint (dim : Nat) (x : (NewEpisode × Embedding) × Rowid) : Bool :=
  (indexPoint dim x).isSome

namespace Inserted

variable {cfg : Config} {nowMs : Int} {principal : Option String}
  {items : List (NewEpisode × Embedding)} {rowids : List Rowid} {s s' : Store}

/-- Two inserted items of one id are the same. -/
theorem eq_of_memoryId (h : Inserted cfg nowMs principal items rowids s s')
    {x y : (NewEpisode × Embedding) × Rowid}
    (hx : x ∈ items.zip rowids) (hy : y ∈ items.zip rowids)
    (hid : x.1.1.memoryId = y.1.1.memoryId) : x = y := by
  have hzip : (items.zip rowids).map Prod.fst = items := List.map_fst_zip h.length.ge
  have hids : ((items.zip rowids).map fun x => x.1.1.memoryId) = items.map (·.1.memoryId) := by
    conv_rhs => rw [← hzip]
    rw [List.map_map]
    rfl
  exact List.inj_on_of_nodup_map (hids ▸ h.nodup) hx hy hid

/-- The outbox afterwards, when the rows of the items that `taken` names are deleted as `deleted`
says. -/
theorem filter_pendingIndex (h : Inserted cfg nowMs principal items rowids s s')
    (taken : (NewEpisode × Embedding) × Rowid → Bool) (deleted : MemoryId → Bool) :
    s'.pendingIndex.rows.filter
    (fun p => !(((items.zip rowids).filter taken).map (·.1.1.memoryId)).any fun m =>
        p.target = .episode m && deleted m) =
      s.pendingIndex.rows ++
      ((items.zip rowids).filter fun x => !(taken x && deleted x.1.1.memoryId)).map
        fun x => newPendingRow nowMs x.1 := by
  have hzip : (items.zip rowids).map Prod.fst = items := List.map_fst_zip h.length.ge
  have hnew : items.map (newPendingRow nowMs) = (items.zip rowids).map fun x =>
      newPendingRow nowMs x.1 := by
    conv_lhs => rw [← hzip]
    rw [List.map_map]
    rfl
  rw [h.pendingIndex, hnew, List.filter_append, List.filter_map]
  congr 1
  · refine List.filter_eq_self.2 fun p hp => ?_
    rw [Bool.not_eq_true', List.any_eq_false]
    intro m hm
    obtain ⟨x, hx, rfl⟩ := List.mem_map.1 hm
    have hitem : x.1 ∈ items := (List.of_mem_zip (List.mem_filter.1 hx).1).1
    simp [h.fresh x.1 hitem p (Table.mem_rows.1 hp)]
  · refine congrArg _ (List.filter_congr fun x hx => ?_)
    dsimp only [Function.comp]
    congr 1
    rw [Bool.eq_iff_iff, List.any_eq_true, Bool.and_eq_true]
    constructor
    · rintro ⟨m, hm, hdel⟩
      obtain ⟨y, hy, rfl⟩ := List.mem_map.1 hm
      obtain ⟨hmem, htaken⟩ := List.mem_filter.1 hy
      rw [Bool.and_eq_true, decide_eq_true_iff] at hdel
      have hid : x.1.1.memoryId = y.1.1.memoryId := PendingTarget.episode.inj hdel.1
      obtain rfl := h.eq_of_memoryId hx hmem hid
      exact ⟨htaken, hdel.2⟩
    · rintro ⟨htaken, hdel⟩
      refine ⟨x.1.1.memoryId, List.mem_map.2 ⟨x, List.mem_filter.2 ⟨hx, htaken⟩, rfl⟩, ?_⟩
      rw [Bool.and_eq_true, decide_eq_true_iff]
      exact ⟨rfl, hdel⟩

end Inserted

/-! ### The reply -/

namespace AuditedLibrary

def RememberItem.row (item : RememberItem) : NewEpisode × Embedding :=
  (item.episode, item.embedding)

/-- The whole batch is in `s'`, under these rowids: its rows, its texts, and the points that the
index takes. The outbox is without the rows of the taken items whose delete takes effect. -/
structure BatchStored (deleted : MemoryId → Bool) (env : WriterEnv) (items : List RememberItem)
    (principal : Option String) (rowids : List Rowid) (s s' : AuditedLibrary) : Prop where
  length : rowids.length = items.length
  episodes : s'.lib.store.episodes.rows =
    s.lib.store.episodes.rows ++ ((items.map (·.row)).zip rowids).map (newEpisodeRow principal)
  embeddings : s'.lib.store.embeddings.rows =
    s.lib.store.embeddings.rows ++ (items.map (·.row)).map (newEmbeddingRow env.cfg)
  texts : s'.texts = items.foldl (fun (texts : MemoryId → Option EpisodeText) item =>
    Function.update texts item.episode.memoryId (some ⟨(env.redact item.content).1, env.nowMs⟩))
      s.texts
  points : s'.lib.hnsw.points =
    s.lib.hnsw.points ++ ((items.map (·.row)).zip rowids).filterMap (indexPoint s.lib.hnsw.dim)
  pendingIndex : s'.lib.store.pendingIndex.rows = s.lib.store.pendingIndex.rows ++
    (((items.map (·.row)).zip rowids).filter fun x =>
      !(takesPoint s.lib.hnsw.dim x && deleted x.1.1.memoryId)).map fun x =>
        newPendingRow env.nowMs x.1

/-- An `Ok` reply lists the ids in the order of the items, and all of them are stored; after an
`Err` the library and its texts are as they were. -/
def AllOrNothing (deleted : MemoryId → Bool) (env : WriterEnv) (items : List RememberItem)
    (principal : Option String)
    (s : AuditedLibrary) : AuditedLibrary × Except Error (List MemoryId) → Prop
  | (s', .ok ids) => ids = items.map (·.episode.memoryId) ∧
    ∃ rowids, BatchStored deleted env items principal rowids s s'
  | (s', .error _) => s'.lib = s.lib ∧ s'.texts = s.texts

/-- A batch that is answered `Ok` came through its transaction. -/
theorem handleRememberBatchDurable_eq_ok {s s' : AuditedLibrary} {env : WriterEnv}
    {items : List RememberItem} {principal : Option String} {reply : List MemoryId × List MemoryId}
    (h : s.handleRememberBatchDurable env items principal = (s', .ok reply)) :
    ∃ store rowids, rememberRows env.cfg env.nowMs principal s.lib.store (items.map (·.row)) =
    .ok (store, rowids) ∧
      s' = { s.batchRemembered env store items principal with
        lib := { s.lib with store, hnsw := (addBatch s.lib.hnsw ((items.map (·.row)).zip rowids)).1 } } ∧
      reply = (items.map (·.episode.memoryId),
        (addBatch s.lib.hnsw ((items.map (·.row)).zip rowids)).2) := by
  unfold handleRememberBatchDurable at h
  split at h
  · cases h
  split at h
  · cases h
  split at h
  · cases h
  dsimp only at h
  split at h
  · cases h
  split at h
  · cases h
  · cases h
  · next hrows =>
    cases h
    exact ⟨_, _, hrows, rfl, rfl⟩

/-- A batch that is answered `Err` has left nothing but audit rows. -/
theorem handleRememberBatchDurable_eq_error {s s' : AuditedLibrary} {env : WriterEnv}
    {items : List RememberItem}
    {principal : Option String} {e : Error}
    (h : s.handleRememberBatchDurable env items principal = (s', .error e)) :
    s'.lib = s.lib ∧ s'.texts = s.texts := by
  have hexit : BatchExit s env items principal (s', .error e) := h ▸ handleRememberBatchDurable_exit
  cases hexit with
  | rejected => exact ⟨rfl, rfl⟩
  | overQuota => exact ⟨rfl, rfl⟩

theorem rememberBatch_allOrNothing (s : AuditedLibrary) (env : WriterEnv)
    (items : List RememberItem) (principal : Option String) :
    AllOrNothing env.drains env items principal s
    (s.dispatchRememberBatch env items principal) := by
  unfold dispatchRememberBatch
  cases hout : s.handleRememberBatchDurable env items principal with
  | mk s' reply =>
    cases reply with
    | error e =>
      have hsame := handleRememberBatchDurable_eq_error hout
      exact hsame
    | ok reply =>
      obtain ⟨store, rowids, hrows, rfl, rfl⟩ := handleRememberBatchDurable_eq_ok hout
      have hins := rememberRows_inserted hrows
      have hlen : rowids.length = items.length := hins.length.trans (List.length_map _)
      obtain ⟨hpoints, hids⟩ := addBatch_eq s.lib.hnsw ((items.map (·.row)).zip rowids)
      refine ⟨rfl, rowids, hlen, hins.episodes, hins.embeddings, rfl, hpoints, ?_⟩
      dsimp only [drained, Store.drained, drainEpisodes, Table.deleteWhere]
      rw [hids]
      exact hins.filter_pendingIndex _ env.drains

end AuditedLibrary

/-! The delete of an outbox row that fails is only logged, so a taken item can keep its row. -/

namespace HalfPrecision

def item : AuditedLibrary.RememberItem := ⟨⟨"m", 1, .hot⟩, "text", ⟨.f32, 1, [0, 0, 0, 0]⟩⟩

theorem undrained_pendingIndex (rowids : List Rowid) : ¬ AuditedLibrary.BatchStored (fun _ => true)
    { env with drains := fun _ => false } [item] none rowids state
    (state.dispatchRememberBatch { env with drains := fun _ => false } [item] none).1 := by
  intro h
  obtain ⟨rowid, rfl⟩ := List.length_eq_one_iff.1 h.length
  have hlen := congrArg List.length h.pendingIndex
  have hkept : (state.dispatchRememberBatch { env with drains := fun _ => false } [item] none
      ).1.lib.store.pendingIndex.rows.length = 1 := by decide +kernel
  cases hkept.symm.trans hlen

end HalfPrecision

open HalfPrecision in
theorem rememberBatch_undrained : ¬ ∀ (s : AuditedLibrary) (env : WriterEnv)
    (items : List AuditedLibrary.RememberItem)
    (principal : Option String), AuditedLibrary.AllOrNothing (fun _ => true) env items principal s
      (s.dispatchRememberBatch env items principal) := by
  intro h
  obtain ⟨-, rowids, hstored⟩ := h state { env with drains := fun _ => false } [item] none
  exact undrained_pendingIndex rowids hstored

end Solo
