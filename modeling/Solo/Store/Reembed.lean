import Solo.Store.Vectors

/-!
# Changing the embedder (`handle_reembed_impl`, `embedder_migrate.rs`)

`handleReembed` embeds the active episodes with a stale vector again and, with `gc`, drops the stale
ones; `migrateEmbedder` runs it twice under the new embedder, deletes the snapshots and opens the
library again. `carriedOver_iff`: where the first opening drains its outbox, nothing is lost exactly
when no chunk of an active document depends on the old embedder and what is left of earlier vectors
of the new one is still its embedding of the text.
-/

namespace Solo

/-- The columns `content` of episodes and chunks. -/
structure Texts where
  episode : MemoryId → String
  chunk : ChunkId → String

structure ReembedScope where
  /-- Name and version of the embedder whose rows are stale; by default all but the current one. -/
  fromEmbedder : Option (String × String) := none
  dryRun : Bool := false
  gc : Bool := false

structure ReembedReport where
  rowsSeen : ℕ
  rowsReembedded : ℕ
  rowsFailed : ℕ
  rowsGcDeleted : ℕ
  dryRun : Bool
  deriving DecidableEq

/-- The embedder and the table `embedders`. -/
structure ReembedEnv where
  embed : String → Except Error Embedding
  registered : String × String → Option ℕ

namespace ReembedReport

def fail (r : ReembedReport) : ReembedReport := { r with rowsFailed := r.rowsFailed + 1 }

def reembed (r : ReembedReport) (gcCount : ℕ) : ReembedReport :=
  { r with rowsReembedded := r.rowsReembedded + 1, rowsGcDeleted := r.rowsGcDeleted + gcCount }

end ReembedReport

/-- Which embedder ids count as stale. -/
def staleEmbedder (cfg : Config) (env : ReembedEnv) : Option (String × String) →
    Except Error (ℕ → Bool)
  | none => .ok fun id => id ≠ cfg.embedderId
  | some nv =>
    match env.registered nv with
    | some id =>
      if id = cfg.embedderId then
        .error (.other
          s!"reembed: from-embedder ({nv.1}, {nv.2}) IS the current embedder; nothing to do")
      else .ok (· = id)
    | none =>
      .error (.notFound
        s!"reembed: from-embedder ({nv.1}, {nv.2}) not registered in \x60embedders\x60 table")

namespace Store

/-- `SELECT DISTINCT e.memory_id ... WHERE e.status = 'active' ORDER BY e.rowid`. -/
def reembedCandidates (s : Store) (stale : ℕ → Bool) : List MemoryId :=
  ((s.episodes.rows.filter fun e => e.status = .active && s.embeddings.rows.any fun em =>
    em.memoryId = e.memoryId && stale em.embedderId).insertionSort fun a b =>
      a.rowid.val ≤ b.rowid.val).map (·.memoryId)

def deleteStale (s : Store) (cfg : Config) (m : MemoryId) : Store :=
  { s with embeddings := s.embeddings.deleteWhere fun r => r.memoryId = m && r.embedderId ≠ cfg.embedderId }

end Store

/-- The row of a memory under the current embedder. -/
def EmbeddingRow.current (cfg : Config) (m : MemoryId) (e : Embedding) : EmbeddingRow :=
  ⟨m, cfg.embedderId, cfg.embedderDtype, e.dim, e.data⟩

/-- One memory: embedded, and its rows changed in a transaction of its own, if that goes through. -/
def reembedMemory (cfg : Config) (env : ReembedEnv) (texts : Texts) (commits : MemoryId → Bool)
    (gc : Bool) (st : Store × ReembedReport) (m : MemoryId) : Store × ReembedReport :=
  match env.embed (texts.episode m) with
  | .error _ => (st.1, st.2.fail)
  | .ok e =>
    if !e.valid then (st.1, st.2.fail)
    else
      match st.1.embeddings.upsert? (.current cfg m e)
        (fun r => r.memoryId = m && r.embedderId = cfg.embedderId)
        fun r => { r with dtype := cfg.embedderDtype, dim := e.dim, vector := e.data } with
      | none => (st.1, st.2.fail)
      | some embeddings =>
        if !commits m then (st.1, st.2.fail)
        else
          let s := { st.1 with embeddings := embeddings }
          if gc then
            (s.deleteStale cfg m,
              st.2.reembed
                (s.embeddings.rows.length - (s.deleteStale cfg m).embeddings.rows.length))
          else (s, st.2.reembed 0)

/-- `handle_reembed_impl` of a writer with an embedder. -/
def handleReembed (cfg : Config) (env : ReembedEnv) (texts : Texts) (commits : MemoryId → Bool)
    (s : Store) (scope : ReembedScope) : Store × Except Error ReembedReport :=
  match staleEmbedder cfg env scope.fromEmbedder with
  | .error e => (s, .error e)
  | .ok stale =>
    let candidates := s.reembedCandidates stale
    let report : ReembedReport := ⟨candidates.length, 0, 0, 0, scope.dryRun⟩
    if scope.dryRun then (s, .ok report)
    else
      let st := candidates.foldl (reembedMemory cfg env texts commits scope.gc) (s, report)
      (st.1, .ok st.2)

/-- `delete_all_pairs`. -/
def Dir.deleteAllPairs {δ : Type*} (dir : Dir δ) : Dir δ :=
  [Basename.live, .bak, .tmp].foldl (fun dir b => (dir.set b .data none).set b .graph none) dir

/-- `run_reembed_phases`, and the library opened again; the two openings meet `first` and
`second`. -/
def migrateEmbedder (cfg : Config) (env : ReembedEnv) (texts : Texts)
    (prepareCommits gcCommits : MemoryId → Bool)
    (first second : OpenEnv) (s : Store) (dir : Dir HnswDump) : Except Error Opened :=
  match openLibrary cfg first s dir with
  | .error e => .error e
  | .ok o =>
    match handleReembed cfg env texts prepareCommits o.library.store {} with
    | (_, .error e) => .error e
    | (s, .ok report) =>
      if report.rowsFailed > 0 then
        .error (.other
          s!"aborting before stale-row GC because the prepare phase had {report.rowsFailed} failures")
      else
        match handleReembed cfg env texts gcCommits s { gc := true } with
        | (_, .error e) => .error e
        | (s, .ok report) =>
          if report.rowsFailed > 0 then
            .error (.other
              s!"migration wrote current vectors but stale-row GC had {report.rowsFailed} failures")
          else openLibrary cfg second s dir.deleteAllPairs

/-! ### What a run leaves in the table -/

section Run

variable {cfg : Config} {env : ReembedEnv} {texts : Texts} {commits : MemoryId → Bool} {gc : Bool}
  {s s' s₁ : Store} {done done' : List MemoryId} {m : MemoryId}

/-- The new row of a memory that was embedded again. -/
def NewRow (cfg : Config) (env : ReembedEnv) (texts : Texts) (m : MemoryId) (em : EmbeddingRow) :
    Prop :=
  ∃ e, env.embed (texts.episode m) = .ok e ∧ em = .current cfg m e

/-- The rows after some memories were embedded again. -/
structure Reembedded (cfg : Config) (env : ReembedEnv) (texts : Texts) (gc : Bool)
    (done : List MemoryId) (s s' : Store) : Prop where
  rest : ∃ embeddings, s' = { s with embeddings := embeddings }
  embedded : ∀ m ∈ done, ∃ e, env.embed (texts.episode m) = .ok e
  rows : ∀ em, em ∈ s'.embeddings ↔ (∃ m ∈ done, NewRow cfg env texts m em) ∨
    em ∈ s.embeddings ∧ ¬ (em.memoryId ∈ done ∧ (em.embedderId = cfg.embedderId ∨ gc = true))

/-- The upsert of the new row. -/
theorem mem_upsert_current {e : Embedding} {embeddings : Table EmbeddingRow}
    (hups : s.embeddings.upsert? (.current cfg m e)
      (fun r => r.memoryId = m && r.embedderId = cfg.embedderId)
      (fun r => { r with dtype := cfg.embedderDtype, dim := e.dim, vector := e.data }) =
        some embeddings)
    (em : EmbeddingRow) : em ∈ embeddings ↔ em = .current cfg m e ∨
      em ∈ s.embeddings ∧ ¬ (em.memoryId = m ∧ em.embedderId = cfg.embedderId) := by
  have hnew {b : EmbeddingRow} (hb : (b.memoryId = m && b.embedderId = cfg.embedderId) = true) :
      { b with dtype := cfg.embedderDtype, dim := e.dim, vector := e.data } =
      EmbeddingRow.current cfg m e := by
    rw [Bool.and_eq_true, decide_eq_true_eq, decide_eq_true_eq] at hb
    rw [EmbeddingRow.current, ← hb.1, ← hb.2]
  constructor
  · intro hem
    rcases Table.mem_of_mem_upsert hups hem with rfl | ⟨b, -, hb, rfl⟩ | ⟨hold, hno⟩
    · exact .inl rfl
    · exact .inl (hnew hb)
    · rw [Bool.and_eq_false_iff, decide_eq_false_iff_not, decide_eq_false_iff_not] at hno
      exact .inr ⟨hold, fun h => hno.elim (· h.1) (· h.2)⟩
  · rintro (rfl | ⟨hold, hno⟩)
    · rcases Table.exists_mem_upsert hups with hmem | ⟨b, -, hb, hmem⟩
      · exact hmem
      · exact hnew hb ▸ hmem
    · refine Table.mem_upsert_of_not hups hold ?_
      rw [Bool.and_eq_false_iff, decide_eq_false_iff_not, decide_eq_false_iff_not]
      exact not_and_or.1 hno

/-- A memory fails and nothing happens, or it is embedded again. -/
theorem reembedMemory_cases (cfg : Config) (env : ReembedEnv) (texts : Texts)
    (commits : MemoryId → Bool) (gc : Bool) (st : Store × ReembedReport) (m : MemoryId) :
    (reembedMemory cfg env texts commits gc st m = (st.1, st.2.fail)) ∨
      ∃ n, (reembedMemory cfg env texts commits gc st m).2 = st.2.reembed n ∧
        Reembedded cfg env texts gc [m] st.1 (reembedMemory cfg env texts commits gc st m).1 := by
  cases hembed : env.embed (texts.episode m) with
  | error err => exact .inl (by rw [reembedMemory, hembed])
  | ok e =>
    by_cases hvalid : (!e.valid) = true
    · refine .inl ?_
      rw [reembedMemory, hembed]
      exact if_pos hvalid
    cases hups : st.1.embeddings.upsert? (.current cfg m e)
      (fun r => r.memoryId = m && r.embedderId = cfg.embedderId)
        fun r => { r with dtype := cfg.embedderDtype, dim := e.dim, vector := e.data } with
    | none =>
      refine .inl ?_
      rw [reembedMemory, hembed]
      dsimp only
      rw [if_neg hvalid, hups]
    | some embeddings =>
      have hrun : reembedMemory cfg env texts commits gc st m = if !commits m then (st.1, st.2.fail)
          else
          let s := { st.1 with embeddings := embeddings }
          if gc then (s.deleteStale cfg m,
            st.2.reembed (s.embeddings.rows.length - (s.deleteStale cfg m).embeddings.rows.length))
          else (s, st.2.reembed 0) := by
        rw [reembedMemory, hembed]
        dsimp only
        rw [if_neg hvalid, hups]
      by_cases hcommit : (!commits m) = true
      · exact .inl (by rw [hrun, if_pos hcommit])
      rw [if_neg hcommit] at hrun
      have hmem := mem_upsert_current hups
      have hone : ∀ m' ∈ [m], ∃ e, env.embed (texts.episode m') = .ok e := by
        rw [List.forall_mem_singleton]
        exact ⟨e, hembed⟩
      have hnew (em : EmbeddingRow) : (∃ m' ∈ [m], NewRow cfg env texts m' em) ↔
          em = .current cfg m e := by
        constructor
        · rintro ⟨m', hm', e', he', rfl⟩
          obtain rfl := List.mem_singleton.1 hm'
          rw [Except.ok.inj (he'.symm.trans hembed)]
        · rintro rfl
          exact ⟨m, List.mem_singleton_self m, e, hembed, rfl⟩
      cases gc with
      | false =>
        refine .inr ⟨0, by rw [hrun]; rfl, ⟨embeddings, by rw [hrun]; rfl⟩, hone, fun em => ?_⟩
        rw [hrun, hnew, List.mem_singleton, or_iff_left Bool.false_ne_true]
        exact hmem em
      | true =>
        refine .inr ⟨_, by rw [hrun]; rfl, ⟨_, by rw [hrun]; rfl⟩, hone, fun em => ?_⟩
        rw [hrun, hnew, List.mem_singleton, or_iff_right_of_imp fun _ => rfl]
        refine Table.mem_deleteWhere.trans ?_
        rw [hmem, Bool.and_eq_false_iff, decide_eq_false_iff_not, decide_not, Bool.not_eq_false',
          decide_eq_true_eq]
        constructor
        · rintro ⟨rfl | ⟨hold, hno⟩, hkept⟩
          · exact .inl rfl
          · exact .inr ⟨hold, fun h => hkept.elim (· h.1) fun hid => hno ⟨h.1, hid⟩⟩
        · rintro (rfl | ⟨hold, hno⟩)
          · exact ⟨.inl rfl, .inr rfl⟩
          · exact ⟨.inr ⟨hold, fun h => hno ⟨h.1, rfl⟩⟩, .inl fun h => hno ⟨h, rfl⟩⟩

/-- One run after another, with the same texts and the same embedder. -/
theorem Reembedded.trans (h : Reembedded cfg env texts gc done s s₁)
    (h' : Reembedded cfg env texts gc done' s₁ s') :
    Reembedded cfg env texts gc (done ++ done') s s' := by
  obtain ⟨⟨embeddings, rfl⟩, hembed, hrows⟩ := h
  obtain ⟨⟨embeddings', rfl⟩, hembed', hrows'⟩ := h'
  refine ⟨⟨embeddings', rfl⟩, List.forall_mem_append.2 ⟨hembed, hembed'⟩, fun em => ?_⟩
  have hnew : (∃ m ∈ done ++ done', NewRow cfg env texts m em) ↔
      (∃ m ∈ done, NewRow cfg env texts m em) ∨ ∃ m ∈ done', NewRow cfg env texts m em := by
    simp only [List.mem_append, or_and_right, exists_or]
  have hdone : (em.memoryId ∈ done ++ done' ∧ (em.embedderId = cfg.embedderId ∨ gc = true)) ↔
      (em.memoryId ∈ done ∧ (em.embedderId = cfg.embedderId ∨ gc = true)) ∨
        em.memoryId ∈ done' ∧ (em.embedderId = cfg.embedderId ∨ gc = true) := by
    rw [List.mem_append, or_and_right]
  rw [hrows', hrows, hnew, hdone, not_or]
  constructor
  · rintro (hnew | ⟨hnew | ⟨hold, hno⟩, hno'⟩)
    · exact .inl (.inr hnew)
    · exact .inl (.inl hnew)
    · exact .inr ⟨hold, hno, hno'⟩
  · rintro ((hnew | hnew) | ⟨hold, hno, hno'⟩)
    · obtain ⟨m, hm, e, hembed, rfl⟩ := hnew
      -- a memory that comes again gets the same row again
      by_cases hagain : m ∈ done'
      · exact .inl ⟨m, hagain, e, hembed, rfl⟩
      · exact .inr ⟨.inl ⟨m, hm, e, hembed, rfl⟩, fun h => hagain h.1⟩
    · exact .inl hnew
    · exact .inr ⟨.inr ⟨hold, hno⟩, hno'⟩

/-- A run without failures embeds every candidate. -/
theorem foldl_reembedMemory {ms : List MemoryId} {st st' : Store × ReembedReport}
    (hrun : ms.foldl (reembedMemory cfg env texts commits gc) st = st')
    (hfailed : st'.2.rowsFailed = 0) :
    st.2.rowsFailed = 0 ∧ Reembedded cfg env texts gc ms st.1 st'.1 := by
  induction ms generalizing st with
  | nil =>
    rw [List.foldl_nil] at hrun
    subst hrun
    refine ⟨hfailed, ⟨_, rfl⟩, fun m hm => absurd hm List.not_mem_nil, fun em => ?_⟩
    constructor
    · exact fun hem => .inr ⟨hem, fun h => absurd h.1 List.not_mem_nil⟩
    · rintro (⟨m, hm, -⟩ | ⟨hem, -⟩)
      · exact absurd hm List.not_mem_nil
      · exact hem
  | cons m ms ih =>
    obtain ⟨hzero, hrest⟩ := ih hrun
    rcases reembedMemory_cases cfg env texts commits gc st m with hfail | ⟨n, hreport, hone⟩
    · rw [hfail] at hzero
      cases hzero
    · rw [hreport] at hzero
      exact ⟨hzero, hone.trans hrest⟩

theorem handleReembed_reembedded {report : ReembedReport}
    (h : handleReembed cfg env texts commits s { gc := gc } = (s', .ok report))
    (hfailed : report.rowsFailed = 0) :
    Reembedded cfg env texts gc (s.reembedCandidates fun id => id ≠ cfg.embedderId) s s' := by
  have hrun := Prod.mk.inj h
  obtain ⟨rfl, hreport⟩ := hrun
  have hst := Except.ok.inj hreport
  exact (foldl_reembedMemory rfl (hst ▸ hfailed)).2

/-- The memory has a row of another embedder. -/
def Store.Stale (s : Store) (cfg : Config) (m : MemoryId) : Prop :=
  ∃ em ∈ s.embeddings, em.memoryId = m ∧ em.embedderId ≠ cfg.embedderId

theorem mem_reembedCandidates : (m ∈ s.reembedCandidates fun id => id ≠ cfg.embedderId) ↔
    (∃ e ∈ s.episodes, e.memoryId = m ∧ e.status = .active) ∧ s.Stale cfg m := by
  unfold Store.reembedCandidates
  simp only [List.mem_map, List.mem_insertionSort, List.mem_filter, Bool.and_eq_true,
    decide_eq_true_eq, List.any_eq_true, Table.mem_rows]
  constructor
  · rintro ⟨e, ⟨he, hactive, em, hem, hm, hid⟩, rfl⟩
    exact ⟨⟨e, he, rfl, hactive⟩, em, hem, hm, hid⟩
  · rintro ⟨⟨e, he, rfl, hactive⟩, em, hem, hm, hid⟩
    exact ⟨e, ⟨he, hactive, em, hem, hm, hid⟩, rfl⟩

/-- The rows of the current embedder after both phases: those of the memories that had a stale one
are new. -/
theorem rows_of_phases {s₂ : Store}
    (h₁ : Reembedded cfg env texts false (s.reembedCandidates fun id => id ≠ cfg.embedderId) s s₁)
    (h₂ : Reembedded cfg env texts true (s₁.reembedCandidates fun id => id ≠ cfg.embedderId) s₁ s₂)
    {em : EmbeddingRow} {e : EpisodeRow} (he : e ∈ s.episodes) (hactive : e.status = .active)
    (hm : em.memoryId = e.memoryId) (hid : em.embedderId = cfg.embedderId) :
    em ∈ s₂.embeddings ↔ s.Stale cfg e.memoryId ∧ NewRow cfg env texts e.memoryId em ∨
      ¬ s.Stale cfg e.memoryId ∧ em ∈ s.embeddings := by
  have hepisodes : s₁.episodes = s.episodes := by
    obtain ⟨_, rfl⟩ := h₁.rest
    rfl
  have hstale : s₁.Stale cfg e.memoryId ↔ s.Stale cfg e.memoryId := by
    refine exists_congr fun row => and_congr_left fun hrow => ?_
    rw [h₁.rows]
    constructor
    · rintro (⟨m, -, x, -, rfl⟩ | ⟨hold, -⟩)
      · exact absurd rfl hrow.2
      · exact hold
    · exact fun hold => .inr ⟨hold, fun h => h.2.elim hrow.2 Bool.false_ne_true⟩
  have hcand {s' : Store} (heq : s'.episodes = s.episodes) :
      (e.memoryId ∈ (s'.reembedCandidates fun id => id ≠ cfg.embedderId)) ↔
      s'.Stale cfg e.memoryId := by
    rw [mem_reembedCandidates, heq]
    exact and_iff_right ⟨e, he, rfl, hactive⟩
  have hnew {s' : Store} (heq : s'.episodes = s.episodes) :
      (∃ m ∈ (s'.reembedCandidates fun id => id ≠ cfg.embedderId), NewRow cfg env texts m em) ↔
        s'.Stale cfg e.memoryId ∧ NewRow cfg env texts e.memoryId em := by
    rw [← hcand heq]
    constructor
    · rintro ⟨m, hmem, x, hx, rfl⟩
      obtain rfl : m = e.memoryId := hm
      exact ⟨hmem, x, hx, rfl⟩
    · rintro ⟨hmem, hrow⟩
      exact ⟨_, hmem, hrow⟩
  rw [h₂.rows, h₁.rows, hnew hepisodes, hnew rfl, hm, hcand hepisodes, hcand rfl, hstale]
  constructor
  · rintro (hrow | ⟨hrow | ⟨hold, -⟩, hno⟩)
    · exact .inl hrow
    · exact .inl hrow
    · exact .inr ⟨fun h => hno ⟨h, .inl hid⟩, hold⟩
  · rintro (hrow | ⟨hno, hold⟩)
    · exact .inl hrow
    · exact .inr ⟨.inr ⟨hold, fun h => hno h.1⟩, fun h => hno h.1⟩

end Run

/-! ### What the second opening finds -/

/-- The vector in which the embedder embeds a text. -/
def ReembedEnv.vector? (env : ReembedEnv) (text : String) : Option Vector :=
  (env.embed text).toOption.bind fun e => decodeF32 e.data e.dim

/-- The vector of an active episode after the migration. -/
def MigratedVector (cfg : Config) (env : ReembedEnv) (texts : Texts) (s : Store) (m : MemoryId)
    (v : Vector) : Prop :=
  v.length = cfg.dim ∧ (s.Stale cfg m ∧ env.vector? (texts.episode m) = some v ∨
    ¬ s.Stale cfg m ∧ ∃ em ∈ s.embeddings, em.memoryId = m ∧ em.embedderId = cfg.embedderId ∧
      decodeF32 em.vector em.dim = some v)

/-- The vector of an active chunk after the migration: that of a row which the new embedder already
had. -/
def KeptVector (cfg : Config) (s : Store) (c : ChunkId) (v : Vector) : Prop :=
  v.length = cfg.dim ∧ ∃ ce ∈ s.chunkEmbeddings, ce.chunkId = c ∧ ce.embedderId = cfg.embedderId ∧
    decodeF32 ce.vector ce.dim = some v

section Migration

variable {cfg : Config} {env : ReembedEnv} {texts : Texts}
  {prepareCommits gcCommits : MemoryId → Bool}
  {first second : OpenEnv} {s : Store} {dir : Dir HnswDump} {o : Opened} {id : I64} {v : Vector}

theorem newRow_vector {m : MemoryId} :
    (∃ em, NewRow cfg env texts m em ∧ decodeF32 em.vector em.dim = some v) ↔
    env.vector? (texts.episode m) = some v := by
  rw [ReembedEnv.vector?, Option.bind_eq_some_iff]
  constructor
  · rintro ⟨em, ⟨e, he, rfl⟩, hv⟩
    exact ⟨e, by rw [he]; rfl, hv⟩
  · rintro ⟨e, he, hv⟩
    cases hembed : env.embed (texts.episode m) with
    | error err =>
      rw [hembed] at he
      cases he
    | ok e' =>
      rw [hembed] at he
      obtain rfl := Option.some.inj he
      exact ⟨_, ⟨e', hembed, rfl⟩, hv⟩

theorem loadSnapshot_deleteAllPairs (io : HnswIo HnswDump) (dir : Dir HnswDump) :
    loadSnapshot io dir.deleteAllPairs = .error := by
  rw [loadSnapshot, Dir.load, Dir.loadBak, Dir.loadBasename_missing io rfl,
    Dir.loadBasename_missing io rfl]

/-- What a migration that reports no failure has done. -/
theorem migrateEmbedder_eq_ok
    (h : migrateEmbedder cfg env texts prepareCommits gcCommits first second s dir = .ok o) :
    ∃ o₀ s₁ s₂, openLibrary cfg first s dir = .ok o₀ ∧
      Reembedded cfg env texts false
      (o₀.library.store.reembedCandidates fun id => id ≠ cfg.embedderId)
        o₀.library.store s₁ ∧
      Reembedded cfg env texts true (s₁.reembedCandidates fun id => id ≠ cfg.embedderId) s₁ s₂ ∧
      openLibrary cfg second s₂ dir.deleteAllPairs = .ok o := by
  unfold migrateEmbedder at h
  cases hopen : openLibrary cfg first s dir with
  | error e =>
    rw [hopen] at h
    cases h
  | ok o₀ =>
    rw [hopen] at h
    dsimp only at h
    cases hprepare : handleReembed cfg env texts prepareCommits o₀.library.store {} with
    | mk s₁ r₁ =>
      rw [hprepare] at h
      cases r₁ with
      | error e => cases h
      | ok report₁ =>
        dsimp only at h
        by_cases hfailed₁ : report₁.rowsFailed > 0
        · rw [if_pos hfailed₁] at h
          cases h
        rw [if_neg hfailed₁] at h
        cases hgc : handleReembed cfg env texts gcCommits s₁ { gc := true } with
        | mk s₂ r₂ =>
          rw [hgc] at h
          cases r₂ with
          | error e => cases h
          | ok report₂ =>
            dsimp only at h
            by_cases hfailed₂ : report₂.rowsFailed > 0
            · rw [if_pos hfailed₂] at h
              cases h
            rw [if_neg hfailed₂] at h
            exact ⟨o₀, s₁, s₂, rfl,
              handleReembed_reembedded hprepare (Nat.eq_zero_of_not_pos hfailed₁),
              handleReembed_reembedded hgc (Nat.eq_zero_of_not_pos hfailed₂), h⟩

/-- The vectors of the embedder that an active episode has after both phases. -/
theorem vectors_of_phases {s₁ s₂ : Store} {e : EpisodeRow}
    (h₁ : Reembedded cfg env texts false (s.reembedCandidates fun id => id ≠ cfg.embedderId) s s₁)
    (h₂ : Reembedded cfg env texts true (s₁.reembedCandidates fun id => id ≠ cfg.embedderId) s₁ s₂)
    (he : e ∈ s.episodes) (hactive : e.status = .active) :
    (v.length = cfg.dim ∧ ∃ em ∈ s₂.embeddings, em.memoryId = e.memoryId ∧
      em.embedderId = cfg.embedderId ∧
      decodeF32 em.vector em.dim = some v) ↔ MigratedVector cfg env texts s e.memoryId v := by
  refine and_congr_right fun _ => ?_
  constructor
  · rintro ⟨em, hem, hm, hid, hv⟩
    rcases (rows_of_phases h₁ h₂ he hactive hm hid).1 hem with ⟨hstale, hrow⟩ | ⟨hstale, hold⟩
    · exact .inl ⟨hstale, newRow_vector.1 ⟨em, hrow, hv⟩⟩
    · exact .inr ⟨hstale, em, hold, hm, hid, hv⟩
  · rintro (⟨hstale, hv⟩ | ⟨hstale, em, hold, hm, hid, hv⟩)
    · obtain ⟨em, hrow, hv⟩ := newRow_vector.2 hv
      have hkey : em.memoryId = e.memoryId ∧ em.embedderId = cfg.embedderId := by
        obtain ⟨x, -, rfl⟩ := hrow
        exact ⟨rfl, rfl⟩
      exact ⟨em, (rows_of_phases h₁ h₂ he hactive hkey.1 hkey.2).2 (.inl ⟨hstale, hrow⟩), hkey.1,
        hkey.2, hv⟩
    · exact ⟨em, (rows_of_phases h₁ h₂ he hactive hm hid).2 (.inr ⟨hstale, hold⟩), hm, hid, hv⟩

/-- An id with a vector that the migration leaves it. -/
def Store.Carried (s : Store) (cfg : Config) (env : ReembedEnv) (texts : Texts) (id : I64)
    (v : Vector) : Prop :=
  (∃ e ∈ s.episodes, e.status = .active ∧ episodeHnswId e.rowid.toI64 = id ∧
    MigratedVector cfg env texts s e.memoryId v) ∨
  ∃ c ∈ s.documentChunks, s.chunkActive c = true ∧ chunkHnswId c.rowid.toI64 = id ∧
  KeptVector cfg s c.chunkId v

/-- The points of the second opening are rebuilt from SQL: the first one has left nothing to
replay. -/
theorem migrateEmbedder_points (hdrained : ∀ p ∈ s.pendingIndex, s.Drained first.drains p)
    (h : migrateEmbedder cfg env texts prepareCommits gcCommits first second s dir = .ok o) :
    ((v, id) ∈ o.library.hnsw.points ↔ s.Carried cfg env texts id v) ∧
      (o.library.hnsw.Live id ↔ ∃ v, s.Carried cfg env texts id v) := by
  obtain ⟨o₀, s₁, s₂, hopen₀, h₁, h₂, hopen⟩ := migrateEmbedder_eq_ok h
  obtain ⟨hnsw, _, _, _, hrec, hlib⟩ := openLibrary_eq_ok hopen₀
  have hpending := (Store.replay_spec s first.drains hnsw).2.2
  rw [recoverIndex_dim hrec] at hpending
  rw [hlib] at h₁
  have hvectors {e : EpisodeRow} {v : Vector} (he : e ∈ s.episodes)
      (hactive : e.status = .active) :=
    vectors_of_phases (v := v) h₁ h₂ he hactive
  obtain ⟨⟨E₁, rfl⟩, -, -⟩ := h₁
  obtain ⟨⟨E₂, rfl⟩, -, -⟩ := h₂
  have hcarried (v : Vector) : (∃ r, Store.Current { s with
      pendingIndex := (replayPendingIndex s first.drains hnsw).pending, embeddings := E₂ }
        cfg.embedderId r ∧ r.hnswId = id ∧
      r.Holds cfg.dim v) ↔ s.Carried cfg env texts id v := by
    constructor
    · rintro ⟨r, ⟨e, he, hactive, em, hem, hm, hid, rfl⟩ | ⟨c, hc, hactive, ce, hce, hm, hid, rfl⟩,
        rfl, hv, hlen⟩
      · exact .inl ⟨e, he, hactive, rfl, (hvectors he hactive).1 ⟨hlen, em, hem, hm, hid, hv⟩⟩
      · exact .inr ⟨c, hc, hactive, rfl, hlen, ce, hce, hm, hid, hv⟩
    · rintro (⟨e, he, hactive, rfl, hv⟩ | ⟨c, hc, hactive, rfl, hlen, ce, hce, hm, hid, hv⟩)
      · obtain ⟨hlen, em, hem, hm, hid, hv⟩ := (hvectors he hactive).2 hv
        exact ⟨_, .inl ⟨e, he, hactive, em, hem, hm, hid, rfl⟩, rfl, hv, hlen⟩
      · exact ⟨_, .inr ⟨c, hc, hactive, ce, hce, hm, hid, rfl⟩, rfl, hv, hlen⟩
  have hreplayed {p : PendingRow} (hp : p ∈ (replayPendingIndex s first.drains hnsw).pending) :
      ¬ p.Addable cfg.dim :=
    (((hpending p).1 hp).2.resolve_right fun hno => hno (hdrained p ((hpending p).1 hp).1)).2
  constructor
  · rw [openLibrary_points hopen, loadSnapshot_deleteAllPairs]
    dsimp only
    rw [hcarried]
    refine or_iff_left ?_
    rintro ⟨p, hp, -, hv, hlen⟩
    exact hreplayed hp ⟨v, hv, hlen⟩
  · rw [openLibrary_live hopen, loadSnapshot_deleteAllPairs]
    dsimp only
    rw [← exists_congr hcarried]
    constructor
    · rintro (⟨r, hr, ⟨v, hv, hlen⟩, rfl⟩ | ⟨p, hp, -, hadd⟩)
      · exact ⟨v, r.2, Store.current_iff.2 ⟨r, hr, rfl⟩, rfl, hv, hlen⟩
      · exact absurd hadd (hreplayed hp)
    · rintro ⟨v, r, hcur, rfl, hv, hlen⟩
      obtain ⟨x, hx, rfl⟩ := Store.current_iff.1 hcur
      exact .inl ⟨x, hx, ⟨v, hv, hlen⟩, rfl⟩

theorem carried_episode {e : EpisodeRow} (he : e ∈ s.episodes) (hactive : e.status = .active) :
    s.Carried cfg env texts (episodeHnswId e.rowid.toI64) v ↔
    MigratedVector cfg env texts s e.memoryId v := by
  constructor
  · rintro (⟨e', he', -, hid, hv⟩ | ⟨c, -, -, hid, -⟩)
    · rwa [Store.episode_rowid_inj he' he (episodeHnswId_injective hid)] at hv
    · exact absurd hid.symm (episodeHnswId_ne_chunkHnswId _ _)
  · exact fun hv => .inl ⟨e, he, hactive, rfl, hv⟩

theorem carried_chunk {c : ChunkRow} (hc : c ∈ s.documentChunks)
    (hactive : s.chunkActive c = true) :
    s.Carried cfg env texts (chunkHnswId c.rowid.toI64) v ↔ KeptVector cfg s c.chunkId v := by
  constructor
  · rintro (⟨e, -, -, hid, -⟩ | ⟨c', hc', -, hid, hv⟩)
    · exact absurd hid (episodeHnswId_ne_chunkHnswId _ _)
    · rwa [Store.chunk_rowid_inj hc' hc (chunkHnswId_injective hid)] at hv
  · exact fun hv => .inr ⟨c, hc, hactive, rfl, hv⟩

end Migration

/-! ### When everything is carried over -/

/-- What was embedded before is live, and what is live has the vector of its text. -/
structure CarriedOver (cfg : Config) (env : ReembedEnv) (texts : Texts) (s : Store) (o : Opened) :
    Prop where
  episodes : ∀ e ∈ s.episodes, e.status = .active →
    (∃ em ∈ s.embeddings, em.memoryId = e.memoryId) →
    o.library.hnsw.Live (episodeHnswId e.rowid.toI64)
  chunks : ∀ c ∈ s.documentChunks, s.chunkActive c = true →
    (∃ ce ∈ s.chunkEmbeddings, ce.chunkId = c.chunkId) →
    o.library.hnsw.Live (chunkHnswId c.rowid.toI64)
  vectors : ∀ id v, o.library.hnsw.Live id → (v, id) ∈ o.library.hnsw.points →
    (∃ e ∈ s.episodes, e.status = .active ∧ episodeHnswId e.rowid.toI64 = id ∧
      env.vector? (texts.episode e.memoryId) = some v) ∨
    ∃ c ∈ s.documentChunks, s.chunkActive c = true ∧ chunkHnswId c.rowid.toI64 = id ∧
      env.vector? (texts.chunk c.chunkId) = some v

/-- What the database must hold before: no chunk depends on an earlier embedder, and the rows of the
new one that are kept are its embeddings of the texts. -/
structure Migratable (cfg : Config) (env : ReembedEnv) (texts : Texts) (s : Store) : Prop where
  stale : ∀ e ∈ s.episodes, e.status = .active → s.Stale cfg e.memoryId →
    ∃ v, env.vector? (texts.episode e.memoryId) = some v ∧ v.length = cfg.dim
  kept : ∀ e ∈ s.episodes, e.status = .active → ¬ s.Stale cfg e.memoryId →
    ∀ em ∈ s.embeddings, em.memoryId = e.memoryId →
      ∃ v, decodeF32 em.vector em.dim = some v ∧ v.length = cfg.dim ∧
      env.vector? (texts.episode e.memoryId) = some v
  chunks : ∀ c ∈ s.documentChunks, s.chunkActive c = true → ∀ ce ∈ s.chunkEmbeddings, ce.chunkId =
    c.chunkId →
    ∃ ce' ∈ s.chunkEmbeddings, ce'.chunkId = c.chunkId ∧ ce'.embedderId = cfg.embedderId ∧
      ∃ v, decodeF32 ce'.vector ce'.dim = some v ∧ v.length = cfg.dim ∧
      env.vector? (texts.chunk c.chunkId) = some v

theorem carriedOver_iff {cfg : Config} {env : ReembedEnv} {texts : Texts}
    {prepareCommits gcCommits : MemoryId → Bool}
    {first second : OpenEnv} {s : Store} {dir : Dir HnswDump} {o : Opened}
    (hdrained : ∀ p ∈ s.pendingIndex, s.Drained first.drains p)
    (h : migrateEmbedder cfg env texts prepareCommits gcCommits first second s dir = .ok o) :
    CarriedOver cfg env texts s o ↔ Migratable cfg env texts s := by
  have hpoints (id : I64) (v : Vector) : (v, id) ∈ o.library.hnsw.points ↔
      s.Carried cfg env texts id v :=
    (migrateEmbedder_points hdrained h).1
  have hlive (id : I64) : o.library.hnsw.Live id ↔ ∃ v, s.Carried cfg env texts id v :=
    (migrateEmbedder_points (v := []) hdrained h).2
  constructor
  · intro hover
    -- whatever is carried is live, so it has the vector of its text
    have hvector {id : I64} {v : Vector} (hv : s.Carried cfg env texts id v) :=
      hover.vectors id v ((hlive id).2 ⟨v, hv⟩) ((hpoints id v).2 hv)
    refine ⟨fun e he hactive hstale => ?_, fun e he hactive hstale em hem hm => ?_,
      fun c hc hactive ce hce hm => ?_⟩
    · obtain ⟨em, hem, hm, -⟩ := id hstale
      obtain ⟨v, hv⟩ := (hlive _).1 (hover.episodes e he hactive ⟨em, hem, hm⟩)
      obtain ⟨hlen, ⟨-, hv⟩ | ⟨hno, -⟩⟩ := (carried_episode he hactive).1 hv
      · exact ⟨v, hv, hlen⟩
      · exact absurd hstale hno
    · obtain ⟨v, hv⟩ := (hlive _).1 (hover.episodes e he hactive ⟨em, hem, hm⟩)
      obtain ⟨hlen, ⟨hno, -⟩ | ⟨-, em', hem', hm', hid', hdecode⟩⟩ :=
        (carried_episode he hactive).1 hv
      · exact absurd hno hstale
      have hid : em.embedderId = cfg.embedderId := by
        by_contra hne
        exact hstale ⟨em, hem, hm, hne⟩
      obtain rfl : em = em' :=
        Table.eq_of_clash hem hem' (by simp [Keyed.clash, hm, hm', hid, hid'])
      refine ⟨v, hdecode, hlen, ?_⟩
      rcases hvector hv with ⟨e', he', -, heq, htext⟩ | ⟨c, -, -, heq, -⟩
      · rwa [Store.episode_rowid_inj he' he (episodeHnswId_injective heq)] at htext
      · exact absurd heq.symm (episodeHnswId_ne_chunkHnswId _ _)
    · obtain ⟨v, hv⟩ := (hlive _).1 (hover.chunks c hc hactive ⟨ce, hce, hm⟩)
      obtain ⟨hlen, ce', hce', hm', hid', hdecode⟩ := (carried_chunk hc hactive).1 hv
      refine ⟨ce', hce', hm', hid', v, hdecode, hlen, ?_⟩
      rcases hvector hv with ⟨e, -, -, heq, -⟩ | ⟨c', hc', -, heq, htext⟩
      · exact absurd heq (episodeHnswId_ne_chunkHnswId _ _)
      · rwa [Store.chunk_rowid_inj hc' hc (chunkHnswId_injective heq)] at htext
  · intro hmig
    refine ⟨fun e he hactive hrow => ?_, fun c hc hactive hrow => ?_, fun id v _ hmem => ?_⟩
    · rw [hlive]
      by_cases hstale : s.Stale cfg e.memoryId
      · obtain ⟨v, hv, hlen⟩ := hmig.stale e he hactive hstale
        exact ⟨v, (carried_episode he hactive).2 ⟨hlen, .inl ⟨hstale, hv⟩⟩⟩
      · obtain ⟨em, hem, hm⟩ := hrow
        obtain ⟨v, hdecode, hlen, -⟩ := hmig.kept e he hactive hstale em hem hm
        have hid : em.embedderId = cfg.embedderId := by
          by_contra hne
          exact hstale ⟨em, hem, hm, hne⟩
        exact ⟨v, (carried_episode he hactive).2 ⟨hlen, .inr ⟨hstale, em, hem, hm, hid, hdecode⟩⟩⟩
    · rw [hlive]
      obtain ⟨ce, hce, hm⟩ := hrow
      obtain ⟨ce', hce', hm', hid', v, hdecode, hlen, -⟩ := hmig.chunks c hc hactive ce hce hm
      exact ⟨v, (carried_chunk hc hactive).2 ⟨hlen, ce', hce', hm', hid', hdecode⟩⟩
    · rcases (hpoints id v).1 hmem with
        ⟨e, he, hactive, rfl, -, ⟨-, hv⟩ | ⟨hstale, em, hem, hm, -, hdecode⟩⟩ |
        ⟨c, hc, hactive, rfl, -, ce, hce, hm, hid, hdecode⟩
      · exact .inl ⟨e, he, hactive, rfl, hv⟩
      · obtain ⟨v', hdecode', -, htext⟩ := hmig.kept e he hactive hstale em hem hm
        rw [hdecode] at hdecode'
        exact .inl ⟨e, he, hactive, rfl, htext.trans hdecode'.symm⟩
      · obtain ⟨ce', hce', hm', hid', v', hdecode', -, htext⟩ := hmig.chunks c hc hactive ce hce hm
        obtain rfl : ce = ce' :=
          Table.eq_of_clash hce hce' (by simp [Keyed.clash, hm, hm', hid, hid'])
        rw [hdecode] at hdecode'
        exact .inr ⟨c, hc, hactive, rfl, htext.trans hdecode'.symm⟩

theorem one_lt_dimEnd : 1 < 2 ^ 32 := by decide

/-- An embedder of dimension one that knows one vector, under the id 1. -/
def cfgNew : Config := ⟨1, 1, .f32, Nat.one_pos, one_lt_dimEnd⟩

def rowidOne : Rowid := ⟨1, Rowid.one_lt⟩

def envNew : ReembedEnv := ⟨fun _ => .ok ⟨.f32, 1, [0, 0, 128, 63]⟩, fun _ => none⟩

def textsNew : Texts := ⟨id, id⟩

/-- An episode with a vector and an outbox row of the embedder 0. -/
def oldEpisode : Store := { Store.empty with
  episodes := .single ⟨rowidOne, "a", 0, .hot, .active, none⟩
  embeddings := .single ⟨"a", 0, .f32, 1, [0, 0, 0, 64]⟩
  pendingIndex := .single ⟨.episode "a", [0, 0, 0, 64], 1, 0⟩ }

theorem oldEpisode_carriedOver :
    ∃ o, migrateEmbedder cfgNew envNew textsNew (fun _ => true) (fun _ => true)
    .calm .calm oldEpisode .empty =
      .ok o ∧ CarriedOver cfgNew envNew textsNew oldEpisode o := by
  cases h : migrateEmbedder cfgNew envNew textsNew (fun _ => true) (fun _ => true)
    .calm .calm oldEpisode .empty with
  | error e =>
    have hok :
        (migrateEmbedder cfgNew envNew textsNew (fun _ => true) (fun _ => true)
          .calm .calm oldEpisode
      .empty).toOption.isSome = true := by decide
    rw [h] at hok
    cases hok
  | ok o =>
    refine ⟨o, rfl, (carriedOver_iff (fun p _ => Store.drained_all oldEpisode p) h).2
      ⟨fun e he _ _ => ?_, fun e he _ hstale => ?_, fun c hc => ?_⟩⟩
    · exact ⟨[0x3F800000#32], rfl, rfl⟩
    · obtain rfl := List.mem_singleton.1 he
      exact absurd ⟨_, List.mem_singleton_self _, rfl, by decide⟩ hstale
    · exact absurd hc List.not_mem_nil

end Solo
