import Solo.Hnsw.IndexMap
import Solo.Query.DocSearch
import Solo.Query.Recall

/-!
# How far a search reaches (`HnswIndex::search`, `recall.rs`, `doc_search.rs`)

A search asks the index for four times its limit, and the index asks the graph for 32 more than
that, or twice as many; tombstoned points, points of the other kind and points of rows that are gone
are dropped afterwards. So the hits are as many as the rows that are left of what is reached, up to
the limit.
-/

namespace Solo

open Occurrences StableSort

/-- The index of a library, searched exactly as `knn` is. -/
def HnswIndex.toVectorIndex (knn : Knn ℚ) (ix : HnswIndex) : VectorIndex :=
  ⟨fun q k => (ix.search knn q k).mapError .vectorIndex, ix.len⟩

section Reach

variable (knn : Knn ℚ) (ix : HnswIndex) (q : Vector) (k : ℕ)

/-- The ids that have a point and no tombstone. -/
def liveIds : List I64 := (ix.points.map Prod.snd).filter fun id => id ∉ ix.tombstones

/-- The ids of the first `k` live points among the nearest `min (2 * k) (k + 32)`. -/
def reachedIds : List I64 :=
  (((knn ix.points q (min (k * 2) (k + 32)) (efForSearch k)).filter fun n =>
    n.1 ∉ ix.tombstones).take k).map Prod.fst

/-- One of the ids is that of the row. -/
def Names (kind : HnswIdKind) (ids : List I64) (rowid : I64) : Prop :=
  ∃ id ∈ ids, decodeHnswId id = (kind, rowid)

instance (kind : HnswIdKind) (ids : List I64) (rowid : I64) : Decidable (Names kind ids rowid) :=
  List.decidableBEx (fun id => decodeHnswId id = (kind, rowid)) ids

variable {knn ix q k}

/-- A live id is reached where fewer than `k` live points, and fewer than the index asks for at all,
are nearer. -/
theorem mem_reachedIds {id : I64} : id ∈ reachedIds knn ix q k ↔
    ∃ i n, (knn ix.points q (min (k * 2) (k + 32)) (efForSearch k))[i]? = some n ∧ n.1 = id ∧
    id ∉ ix.tombstones ∧
      (((knn ix.points q (min (k * 2) (k + 32)) (efForSearch k)).take i).filter fun n =>
        n.1 ∉ ix.tombstones).length < k := by
  unfold reachedIds
  rw [List.mem_map]
  constructor
  · rintro ⟨n, hn, rfl⟩
    obtain ⟨i, hi, hlive, hlt⟩ := mem_take_filter.1 hn
    exact ⟨i, n, hi, rfl, of_decide_eq_true hlive, hlt⟩
  · rintro ⟨i, n, hi, rfl, hlive, hlt⟩
    exact ⟨n, mem_take_filter.2 ⟨i, hi, decide_eq_true hlive, hlt⟩, rfl⟩

theorem names_perm {kind : HnswIdKind} {ids ids' : List I64} (h : ids.Perm ids') (rowid : I64) :
    Names kind ids rowid ↔ Names kind ids' rowid :=
  ⟨fun ⟨id, hid, hd⟩ => ⟨id, h.mem_iff.1 hid, hd⟩, fun ⟨id, hid, hd⟩ => ⟨id, h.mem_iff.2 hid, hd⟩⟩

/-- The decoded hits of a kind are those whose ids name a row of it. -/
theorem mem_decodeHits {kind : HnswIdKind} {hits : List (I64 × ℚ)} {rowid : I64} :
    rowid ∈ (decodeHits kind hits).map (·.1) ↔ Names kind (hits.map Prod.fst) rowid := by
  unfold Names decodeHits
  rw [List.mem_map]
  constructor
  · rintro ⟨hit, hhit, rfl⟩
    obtain ⟨x, hx, hsome⟩ := List.mem_filterMap.1 hhit
    split at hsome
    · next hk =>
      obtain rfl := Option.some.inj hsome
      have hget := List.mem_zipIdx_iff_getElem?.1 hx
      exact ⟨x.1.1, List.mem_map_of_mem (List.mem_of_getElem? hget), Prod.ext hk rfl⟩
    · cases hsome
  · rintro ⟨id, hid, hdecode⟩
    obtain ⟨h, hh, rfl⟩ := List.mem_map.1 hid
    obtain ⟨i, hi⟩ := List.mem_iff_getElem?.1 hh
    refine ⟨(rowid, h.2, i + 1),
      List.mem_filterMap.2 ⟨(h, i), List.mem_zipIdx_iff_getElem?.2 hi, ?_⟩, rfl⟩
    rw [hdecode, if_pos rfl]

/-- The candidates of a query that is embedded are what the index reaches. -/
theorem semanticCandidates_ids (knn : Knn ℚ) (hq : q.length = ix.dim) (hk : k ≠ 0) :
    ∃ hits, semanticCandidates (.embedded (some q)) (ix.toVectorIndex knn) k =
    .ok ⟨hits, .hybrid, none⟩ ∧
      (hits.map Prod.fst).Perm (reachedIds knn ix q k) := by
  obtain ⟨hits, hhits⟩ :
      ∃ hits, hits = (((knn ix.points q (min (k * 2) (k + 32)) (efForSearch k)).filter
      fun n => n.1 ∉ ix.tombstones).take k).mergeSort fun a b => decide (a.2 ≤ b.2) := ⟨_, rfl⟩
  have hsearch : ix.search knn q k = .ok hits := by
    rw [hhits]
    unfold HnswIndex.search
    rw [if_neg (not_not.2 hq), if_neg hk]
  refine ⟨hits, ?_, ?_⟩
  · exact congrArg
      (fun r => (r.mapError Error.vectorIndex).map fun hits =>
        (⟨hits, .hybrid, none⟩ : SemanticCandidates))
      hsearch
  · rw [hhits]
    exact (List.mergeSort_perm _ _).map _

/-- Hits are as many as the rows that either list names, up to the limit. -/
theorem length_take_sortByKey {Hit κ : Type} [LinearOrder κ] (key : Hit → κ) (hits : List Hit)
    (n : ℕ) : ((sortByKey key hits).take n).length = min n hits.length := by
  rw [List.length_take, sortByKey_perm.length_eq]

end Reach

section Starve

variable (knn : Knn ℚ) (ix : HnswIndex) (q : Vector) (lexical : List LexicalHit)

/-- The active episodes that have a live vector. -/
def liveEpisodes (db : Recall.EpisodeTable) : List Recall.EpisodeRow :=
  db.rows.filter fun row => row.status = "active" ∧ Names .episode (liveIds ix) row.rowid

/-- The active episodes that are reached, or found by their words. -/
def foundEpisodes (db : Recall.EpisodeTable) (k : ℕ) : List Recall.EpisodeRow :=
  db.rows.filter fun row =>
    row.status = "active" ∧
      (Names .episode (reachedIds knn ix q k) row.rowid ∨ row.rowid ∈ lexical.map (·.rowid))

/-- The chunks of active documents that have a live vector. -/
def liveChunks (db : DocSearch.DocumentTables) : List DocSearch.ChunkRow :=
  db.activeChunks.filter fun row => Names .chunk (liveIds ix) row.rowid

/-- The chunks of active documents that are reached, or found by their words. -/
def foundChunks (db : DocSearch.DocumentTables) (k : ℕ) : List DocSearch.ChunkRow :=
  db.activeChunks.filter fun row =>
    Names .chunk (reachedIds knn ix q k) row.rowid ∨ row.rowid ∈ lexical.map (·.rowid)

variable {knn ix q} {U : Unicode} {fts : List Char → ℕ → List (I64 × ℚ)} {query : List Char}

theorem candidateLimit_ne_zero (limit : ℕ) : candidateLimit (clamp limit 1 100) ≠ 0 := by
  have hlimit : 1 ≤ clamp limit 1 100 := by
    unfold clamp
    split
    · exact le_rfl
    split <;> omega
  generalize clamp limit 1 100 = n at hlimit
  unfold candidateLimit clamp
  split
  · omega
  split <;> omega

theorem recall_length (knn : Knn ℚ) (nowMs : ℤ) (db : Recall.EpisodeTable) (limit : ℕ)
    (hquery : (Text.trimList query).isEmpty = false) (hq : q.length = ix.dim) :
    ∃ result, Recall.runRecallInner U nowMs (.embedded (some q)) (ix.toVectorIndex knn)
    db fts query limit = .ok result ∧
      result.hits.length = min (clamp limit 1 100)
        (foundEpisodes knn ix q (fetchLexicalHits U fts query (candidateLimit (clamp limit 1 100)))
          db (candidateLimit (clamp limit 1 100))).length := by
  obtain ⟨hits, hsemantic, hperm⟩ := semanticCandidates_ids knn hq (candidateLimit_ne_zero limit)
  refine ⟨_, Recall.runRecallInner_eq U nowMs db fts limit hquery hsemantic, ?_⟩
  obtain ⟨rows, hrows, hhits⟩ := Recall.recallHits_perm U nowMs query db (decodeHits .episode hits)
    (fetchLexicalHits U fts query (candidateLimit (clamp limit 1 100)))
  dsimp only
  rw [length_take_sortByKey, hhits, List.length_map, hrows.length_eq]
  refine congrArg (min _) (congrArg List.length (List.filter_congr fun row _ => ?_))
  refine decide_eq_decide.2 (and_congr_right fun _ => ?_)
  rw [List.mem_append, mem_decodeHits, names_perm hperm]

theorem docSearch_length (knn : Knn ℚ) (db : DocSearch.DocumentTables) (limit : ℕ)
    (hquery : (Text.trimList query).isEmpty = false) (hq : q.length = ix.dim) :
    ∃ result, DocSearch.runDocSearchInner U (.embedded (some q)) (ix.toVectorIndex knn)
    db fts query limit = .ok result ∧
      result.hits.length = min (clamp limit 1 100)
        (foundChunks knn ix q (fetchLexicalHits U fts query (candidateLimit (clamp limit 1 100))) db
          (candidateLimit (clamp limit 1 100))).length := by
  obtain ⟨hits, hsemantic, hperm⟩ := semanticCandidates_ids knn hq (candidateLimit_ne_zero limit)
  refine ⟨_, DocSearch.runDocSearchInner_eq U db fts limit hquery hsemantic, ?_⟩
  obtain ⟨rows, hrows, hhits⟩ := DocSearch.docSearchHits_perm db (decodeHits .chunk hits)
    (fetchLexicalHits U fts query (candidateLimit (clamp limit 1 100)))
  dsimp only
  rw [length_take_sortByKey, hhits, List.length_map, hrows.length_eq]
  refine congrArg (min _) (congrArg List.length (List.filter_congr fun row _ => ?_))
  refine decide_eq_decide.2 ?_
  rw [true_and, List.mem_append, mem_decodeHits, names_perm hperm]

/-- A search returns its limit of live rows exactly where it reaches that many: among the points it
asks the graph for, or by the words of the query. -/
theorem searches_fill (knn : Knn ℚ) (nowMs : ℤ) (episodes : Recall.EpisodeTable)
    (documents : DocSearch.DocumentTables)
    (limit : ℕ) (hquery : (Text.trimList query).isEmpty = false) (hq : q.length = ix.dim) :
    (∃ result, Recall.runRecallInner U nowMs (.embedded (some q)) (ix.toVectorIndex knn)
      episodes fts query limit =
        .ok result ∧
      ((clamp limit 1 100 ≤ (liveEpisodes ix episodes).length →
        result.hits.length = clamp limit 1 100) ↔
        (clamp limit 1 100 ≤ (liveEpisodes ix episodes).length →
          clamp limit 1 100 ≤ (foundEpisodes knn ix q
            (fetchLexicalHits U fts query (candidateLimit (clamp limit 1 100))) episodes
            (candidateLimit (clamp limit 1 100))).length))) ∧
    ∃ result, DocSearch.runDocSearchInner U (.embedded (some q)) (ix.toVectorIndex knn)
    documents fts query limit =
        .ok result ∧
      ((clamp limit 1 100 ≤ (liveChunks ix documents).length →
        result.hits.length = clamp limit 1 100) ↔
        (clamp limit 1 100 ≤ (liveChunks ix documents).length →
          clamp limit 1 100 ≤ (foundChunks knn ix q
            (fetchLexicalHits U fts query (candidateLimit (clamp limit 1 100))) documents
            (candidateLimit (clamp limit 1 100))).length)) := by
  obtain ⟨recalled, hrecall, hrecalled⟩ := recall_length knn nowMs episodes limit hquery hq
  obtain ⟨searched, hsearch, hsearched⟩ := docSearch_length knn documents limit hquery hq
  refine ⟨⟨recalled, hrecall, ?_⟩, searched, hsearch, ?_⟩
  · rw [hrecalled, min_eq_left_iff]
  · rw [hsearched, min_eq_left_iff]

end Starve

/-! ### An index full of tombstones -/

/-- The distance along a line. -/
def lineDist (_ v : Vector) : ℚ := ((v.headD 0).toNat : ℚ)

/-- Eight forgotten points, and that of episode 1 behind them. -/
def buriedIndex : HnswIndex :=
  ⟨1, [([0], 10), ([1], 11), ([2], 12), ([3], 13), ([4], 14), ([5], 15), ([6], 16), ([7], 17),
    ([8], 1)], {10, 11, 12, 13, 14, 15, 16, 17}⟩

/-- A forgotten point, and behind it those of episode 1 and of chunk 1. -/
def shallowIndex : HnswIndex := ⟨1, [([0], 10), ([1], 1), ([2], chunkHnswId 1)], {10}⟩

def onlyChunk : DocSearch.StoredChunk := ⟨1, "c", "d", 0, "content", 0, 7⟩

theorem nodup_onlyChunk : ([onlyChunk].map (·.rowid)).Nodup := List.nodup_singleton _

def oneChunk : DocSearch.DocumentTables :=
  ⟨[⟨"d", none, none, none, "active"⟩], [onlyChunk], nodup_onlyChunk⟩

theorem shallowIndex_reaches :
    reachedIds (exhaustiveKnn lineDist) shallowIndex [0] (candidateLimit (clamp 1 1 100)) =
    [1, chunkHnswId 1] := by
  have hsorted : (shallowIndex.points.map fun p => (p.2, lineDist [0] p.1)).Pairwise
      fun a b => decide (a.2 ≤ b.2) = true := by decide +kernel
  unfold reachedIds exhaustiveKnn
  rw [List.mergeSort_of_pairwise hsorted]
  decide +kernel

/-- Both searches have a row to return, and return it. -/
theorem searches_fill_shallow :
    (∃ result, Recall.runRecallInner Recall.asciiTables 0 (.embedded (some [0]))
        (shallowIndex.toVectorIndex (exhaustiveKnn lineDist)) Recall.sampleDb (fun _ _ => [])
        "tea".toList 1 = .ok result ∧ result.hits.length = 1) ∧
    ∃ result, DocSearch.runDocSearchInner Recall.asciiTables (.embedded (some [0]))
        (shallowIndex.toVectorIndex (exhaustiveKnn lineDist)) oneChunk (fun _ _ => [])
        "tea".toList 1 = .ok result ∧
      result.hits.length = 1 := by
  obtain ⟨⟨recalled, hrecall, hepisodes⟩, searched, hsearch, hchunks⟩ :=
    @searches_fill shallowIndex [0] Recall.asciiTables (fun _ _ => [])
      "tea".toList (exhaustiveKnn lineDist) 0 Recall.sampleDb oneChunk 1 (by decide) (by decide)
  refine ⟨⟨recalled, hrecall, hepisodes.2 (fun _ => ?_) (by decide +kernel)⟩, searched, hsearch,
    hchunks.2 (fun _ => ?_) (by decide +kernel)⟩
  · unfold foundEpisodes
    rw [shallowIndex_reaches]
    decide +kernel
  · unfold foundChunks
    rw [shallowIndex_reaches]
    decide +kernel

theorem buriedIndex_reaches : reachedIds (exhaustiveKnn lineDist) buriedIndex [0] 4 = [] := by
  have hsorted : (buriedIndex.points.map fun p => (p.2, lineDist [0] p.1)).Pairwise
      fun a b => decide (a.2 ≤ b.2) = true := by decide +kernel
  unfold reachedIds exhaustiveKnn
  rw [List.mergeSort_of_pairwise hsorted]
  decide +kernel

/-- Recall with limit 1 asks the graph for eight points, all of them forgotten. -/
theorem recall_starves :
    ExactKnn lineDist (exhaustiveKnn lineDist) ∧ (liveEpisodes buriedIndex Recall.sampleDb).length =
    1 ∧ ¬ ∃ result, Recall.runRecallInner Recall.asciiTables 0 (.embedded (some [0]))
        (buriedIndex.toVectorIndex (exhaustiveKnn lineDist)) Recall.sampleDb (fun _ _ => [])
        "tea".toList 1 = .ok result ∧ result.hits.length = 1 := by
  refine ⟨exhaustiveKnn_exact lineDist, by decide +kernel, ?_⟩
  rintro ⟨result, hresult, hlength⟩
  have hreach : ∃ result, Recall.runRecallInner Recall.asciiTables 0 (.embedded (some [0]))
      (buriedIndex.toVectorIndex (exhaustiveKnn lineDist)) Recall.sampleDb (fun _ _ => [])
      "tea".toList 1 = .ok result ∧
      result.hits.length =
      min 1 (foundEpisodes (exhaustiveKnn lineDist) buriedIndex [0] [] Recall.sampleDb 4).length :=
    recall_length (exhaustiveKnn lineDist) 0 Recall.sampleDb 1 (by decide) (by decide)
  obtain ⟨result', hresult', hlength'⟩ := hreach
  obtain rfl := Except.ok.inj (hresult.symm.trans hresult')
  unfold foundEpisodes at hlength'
  rw [hlength, buriedIndex_reaches] at hlength'
  revert hlength'
  decide +kernel

end Solo
