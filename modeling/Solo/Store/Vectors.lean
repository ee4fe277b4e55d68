import Solo.Store.Open

/-!
# The vectors in the index after opening

`openLibrary_live` says which ids opening leaves live; here is under which vectors. A loaded
snapshot keeps its points whatever the database says of them, and replay adds its vector beside
those that an id already has.
-/

namespace Solo

/-- The stored bytes are the vector `v`, of the index dimension. -/
def IndexRow.Holds (dim : Nat) (r : IndexRow) (v : Vector) : Prop :=
  decodeF32 r.blob r.dim = some v ∧ v.length = dim

namespace Store

/-- An active episode, or a chunk of an active document, with its embedding of the embedder. -/
def Current (s : Store) (embedderId : Nat) (r : IndexRow) : Prop :=
  (∃ e ∈ s.episodes, e.status = .active ∧ ∃ em ∈ s.embeddings, em.memoryId = e.memoryId ∧
    em.embedderId = embedderId ∧ r = ⟨episodeHnswId e.rowid.toI64, em.vector, em.dim⟩) ∨
  ∃ c ∈ s.documentChunks, s.chunkActive c = true ∧ ∃ ce ∈ s.chunkEmbeddings, ce.chunkId =
  c.chunkId ∧
    ce.embedderId = embedderId ∧ r = ⟨chunkHnswId c.rowid.toI64, ce.vector, ce.dim⟩

/-- Replay adds the vector under the id. -/
def Replayed (s : Store) (dim : Nat) (id : I64) (v : Vector) : Prop :=
  ∃ p ∈ s.pendingIndex, s.targetId? p.target = some id ∧
    IndexRow.Holds dim ⟨id, p.embedding, p.embeddingDim⟩ v

end Store

section Passes

variable {hnsw hnsw' : HnswIndex} {id : I64} {v : Vector}

theorem addRebuildRow_points {r : IndexRow} (h : addRebuildRow hnsw r = some hnsw') :
    (v, id) ∈ hnsw'.points ↔ (v, id) ∈ hnsw.points ∨ r.hnswId = id ∧ r.Holds hnsw.dim v := by
  obtain ⟨w, hw, hadd⟩ := addRebuildRow_eq_some.1 h
  obtain ⟨-, hlen, rfl⟩ := HnswIndex.add_eq_ok.1 hadd
  simp only [List.mem_append, List.mem_singleton, Prod.mk.injEq]
  refine or_congr_right ⟨?_, ?_⟩
  · rintro ⟨rfl, rfl⟩
    exact ⟨rfl, hw, hlen⟩
  · rintro ⟨rfl, hv, -⟩
    exact ⟨Option.some.inj (hv.symm.trans hw), rfl⟩

/-- A row that is not added holds no vector. -/
theorem not_holds_of_addRebuildRow {r : IndexRow} (hid : r.hnswId.msb = false)
    (h : addRebuildRow hnsw r = none) : ¬ r.Holds hnsw.dim v := by
  intro hv
  obtain ⟨hnsw', hadd⟩ := (addRebuildRow_isSome hid).2 ⟨v, hv⟩
  rw [h] at hadd
  cases hadd

theorem rebuildRun_points (kind : HnswIdKind) {rows : List (Rowid × IndexRow)}
    (hid : ∀ r ∈ rows, r.2.hnswId.msb = false) (st : HnswIndex × RebuildReport) :
    (v, id) ∈ (Run.run (rebuildStep kind) st rows).1.points ↔
      (v, id) ∈ st.1.points ∨ ∃ r ∈ rows, r.2.hnswId = id ∧ r.2.Holds st.1.dim v := by
  induction rows generalizing st with
  | nil => simp
  | cons r rows ih =>
    have hrest := ih (fun r hr => hid r (List.mem_cons_of_mem _ hr)) (rebuildStep kind st r)
    rw [Run.run_cons, hrest]
    cases hadd : addRebuildRow st.1 r.2 with
    | none =>
      have hstep : (rebuildStep kind st r).1 = st.1 := by simp [rebuildStep, hadd]
      have hno : ¬ r.2.Holds st.1.dim v :=
        not_holds_of_addRebuildRow (hid r List.mem_cons_self) hadd
      simp [hstep, hno]
    | some hnsw' =>
      have hstep : (rebuildStep kind st r).1 = hnsw' := by simp [rebuildStep, hadd]
      rw [hstep, addRebuildRow_points hadd, addRebuildRow_dim hadd]
      simp only [List.mem_cons, exists_eq_or_imp, or_assoc]

theorem foldl_remove_points (hnsw : HnswIndex) (ids : List I64) :
    (ids.foldl HnswIndex.remove hnsw).points = hnsw.points := by
  induction ids generalizing hnsw with
  | nil => rfl
  | cons x ids ih => exact ih (hnsw.remove x)

theorem replayRows_points (s : Store) (drains : Drains) {rows : List ReplayRow}
    (hid : ∀ r ∈ rows, r.row.hnswId.msb = false) (st : ReplayState) :
    (v, id) ∈ (Run.run (replayStep s drains) st (rows.map .row)).hnsw.points ↔
      (v, id) ∈ st.hnsw.points ∨ ∃ r ∈ rows, r.row.hnswId = id ∧ r.row.Holds st.hnsw.dim v := by
  induction rows generalizing st with
  | nil => simp
  | cons r rows ih =>
    have hrest :=
      ih (fun r hr => hid r (List.mem_cons_of_mem _ hr)) (replayStep s drains st (.row r))
    rw [List.map_cons, Run.run_cons, hrest]
    cases hadd : addRebuildRow st.hnsw r.row with
    | none =>
      have hstep : (replayStep s drains st (.row r)).hnsw = st.hnsw := by simp [replayStep, hadd]
      have hno : ¬ r.row.Holds st.hnsw.dim v :=
        not_holds_of_addRebuildRow (hid r List.mem_cons_self) hadd
      simp [hstep, hno]
    | some hnsw' =>
      have hstep : (replayStep s drains st (.row r)).hnsw = hnsw' := by
        cases hdrain : drains.row r.target <;> simp [replayStep, hadd, hdrain]
      rw [hstep, addRebuildRow_points hadd, addRebuildRow_dim hadd]
      simp only [List.mem_cons, exists_eq_or_imp, or_assoc]

end Passes

namespace Store

variable {s : Store} {embedderId : Nat} {id : I64} {v : Vector}

theorem current_iff {r : IndexRow} :
    s.Current embedderId r ↔ ∃ x ∈ s.rebuildEpisodeRows embedderId ++
    s.rebuildChunkRows embedderId, x.2 = r := by
  simp only [List.mem_append, or_and_right, exists_or]
  refine or_congr ⟨?_, ?_⟩ ⟨?_, ?_⟩
  · rintro ⟨e, he, ha, em, hem, hm, hid, rfl⟩
    exact ⟨_, mem_rebuildEpisodeRows.2 ⟨e, he, ha, em, hem, hm, hid, rfl⟩, rfl⟩
  · rintro ⟨x, hx, rfl⟩
    obtain ⟨e, he, ha, em, hem, hm, hid, rfl⟩ := mem_rebuildEpisodeRows.1 hx
    exact ⟨e, he, ha, em, hem, hm, hid, rfl⟩
  · rintro ⟨c, hc, ha, ce, hce, hm, hid, rfl⟩
    exact ⟨_, mem_rebuildChunkRows.2 ⟨c, hc, ha, ce, hce, hm, hid, rfl⟩, rfl⟩
  · rintro ⟨x, hx, rfl⟩
    obtain ⟨c, hc, ha, ce, hce, hm, hid, rfl⟩ := mem_rebuildChunkRows.1 hx
    exact ⟨c, hc, ha, ce, hce, hm, hid, rfl⟩

theorem Current.activeId {r : IndexRow} (h : s.Current embedderId r) : s.ActiveId r.hnswId := by
  rw [activeId_iff]
  rcases h with ⟨e, he, ha, em, -, -, -, rfl⟩ | ⟨c, hc, ha, ce, -, -, -, rfl⟩
  · exact .inl ⟨e, he, ha, rfl⟩
  · exact .inr ⟨c, hc, ha, rfl⟩

theorem Current.msb {r : IndexRow} (h : s.Current embedderId r) : r.hnswId.msb = false := by
  rcases h with ⟨e, -, -, em, -, -, -, rfl⟩ | ⟨c, -, -, ce, -, -, -, rfl⟩
  · exact episodeHnswId_msb _
  · exact chunkHnswId_msb _

/-- An id has one current embedding. -/
theorem Current.unique {r r' : IndexRow} (h : s.Current embedderId r) (h' : s.Current embedderId r')
    (hid : r.hnswId = r'.hnswId) : r = r' := by
  rcases h with ⟨e, he, ha, em, hem, hm, hemb, rfl⟩ | ⟨c, hc, ha, ce, hce, hm, hemb, rfl⟩
  · rcases h' with ⟨e', he', -, em', hem', hm', hemb', rfl⟩ | ⟨c, -, -, ce, -, -, -, rfl⟩
    · obtain rfl := episode_rowid_inj he he' (episodeHnswId_injective hid)
      obtain rfl : em = em' :=
        Table.eq_of_clash hem hem' (by simp [Keyed.clash, hm, hm', hemb, hemb'])
      rfl
    · exact absurd hid (episodeHnswId_ne_chunkHnswId _ _)
  · rcases h' with ⟨e, -, -, em, -, -, -, rfl⟩ | ⟨c', hc', -, ce', hce', hm', hemb', rfl⟩
    · exact absurd hid.symm (episodeHnswId_ne_chunkHnswId _ _)
    · obtain rfl := chunk_rowid_inj hc hc' (chunkHnswId_injective hid)
      obtain rfl : ce = ce' :=
        Table.eq_of_clash hce hce' (by simp [Keyed.clash, hm, hm', hemb, hemb'])
      rfl

theorem rebuild_points (s : Store) (hnsw : HnswIndex) (embedderId : Nat) :
    (v, id) ∈ (rebuildHnswFromSql s hnsw embedderId).1.points ↔
      (v, id) ∈ hnsw.points ∨ ∃ r, s.Current embedderId r ∧ r.hnswId = id ∧ r.Holds hnsw.dim v := by
  have hid : ∀ x ∈ s.rebuildEpisodeRows embedderId ++
      s.rebuildChunkRows embedderId, x.2.hnswId.msb = false :=
    fun x hx => (current_iff.2 ⟨x, hx, rfl⟩ : s.Current embedderId x.2).msb
  have hep :=
    (rebuildRun_live .episode (fun x hx => hid x (List.mem_append_left _ hx)) (hnsw, {})).1
  rw [rebuildHnswFromSql, rebuildRun_points .chunk fun x hx => hid x (List.mem_append_right _ hx),
    rebuildRun_points .episode fun x hx => hid x (List.mem_append_left _ hx), hep, or_assoc]
  refine or_congr_right ⟨?_, ?_⟩
  · rintro (⟨x, hx, hr⟩ | ⟨x, hx, hr⟩)
    · exact ⟨x.2, current_iff.2 ⟨x, List.mem_append_left _ hx, rfl⟩, hr⟩
    · exact ⟨x.2, current_iff.2 ⟨x, List.mem_append_right _ hx, rfl⟩, hr⟩
  · rintro ⟨r, hcur, hr⟩
    obtain ⟨x, hx, rfl⟩ := current_iff.1 hcur
    rcases List.mem_append.1 hx with hx | hx
    · exact .inl ⟨x, hx, hr⟩
    · exact .inr ⟨x, hx, hr⟩

theorem replay_points (s : Store) (drains : Drains) (hnsw : HnswIndex) :
    (v, id) ∈ (replayPendingIndex s drains hnsw).hnsw.points ↔
      (v, id) ∈ hnsw.points ∨ s.Replayed hnsw.dim id v := by
  have hid : ∀ r ∈ s.replayEpisodeRows ++ s.replayChunkRows, r.row.hnswId.msb = false := by
    intro r hr
    obtain ⟨p, -, id, hid, rfl⟩ := mem_replayRows.1 hr
    exact targetId?_msb hid
  rw [replayPendingIndex_eq]
  refine (replayRows_points s drains hid _).trans (or_congr_right ⟨?_, ?_⟩)
  · rintro ⟨r, hr, rfl, hv⟩
    obtain ⟨p, hp, id, hid, rfl⟩ := mem_replayRows.1 hr
    exact ⟨p, hp, hid, hv⟩
  · rintro ⟨p, hp, hid, hv⟩
    exact ⟨_, mem_replayRows.2 ⟨p, hp, id, hid, rfl⟩, rfl, hv⟩

end Store

variable {cfg : Config} {env : OpenEnv} {s : Store} {dir : Dir HnswDump} {id : I64} {v : Vector}

/-- The points of a loaded snapshot, or those rebuilt from SQL, and those replayed. -/
theorem openLibrary_points {o : Opened} (h : openLibrary cfg env s dir = .ok o) :
    (v, id) ∈ o.library.hnsw.points ↔
      (match loadSnapshot env.io dir with
        | .index (d, _) => (v, id) ∈ d.points
        | .error => ∃ r, s.Current cfg.embedderId r ∧ r.hnswId = id ∧ r.Holds cfg.dim v
        | .panic => False) ∨
      s.Replayed cfg.dim id v := by
  have hpanic := (openLibrary_loads h).1
  obtain ⟨hnsw, report, bak, fresh, hrec, hlib⟩ := openLibrary_eq_ok h
  have hdim : hnsw.dim = cfg.dim := recoverIndex_dim hrec
  rw [hlib, Store.replay_points, hdim]
  refine or_congr_left ?_
  unfold recoverIndex at hrec
  cases hload : loadSnapshot env.io dir with
  | error =>
    simp only [hload, Except.ok.injEq, Prod.mk.injEq] at hrec
    rw [← hrec.1, Store.rebuild_points]
    simp [HnswIndex.new]
  | index r =>
    simp only [hload] at hrec
    split at hrec
    · cases hrec
    · simp only [Except.ok.injEq, Prod.mk.injEq] at hrec
      rw [← hrec.1, rebuildChunkTombstonesFromSql, foldl_remove_points,
        rebuildEpisodeTombstonesFromSql, foldl_remove_points]
      rfl
  | panic => exact absurd hload hpanic

end Solo
