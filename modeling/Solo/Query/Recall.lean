import Mathlib.Tactic.Linarith
import Mathlib.Tactic.Positivity
import Mathlib.Tactic.Ring
import Solo.Query.Retrieval

/-!
# Recall and its ranking (`recall.rs`)

`recall_inner` scores each active episode of either list and cuts the ranking at `limit`. It lists a
rowid by its first hit but keeps the rank and distance of its last one, so it ranks as meant exactly
where no episode that belongs among the first has a second vector hit (`recall_ranks`).
-/

namespace Solo

open Occurrences StableSort

namespace Recall

/-- A row of `episodes`, as recall selects it. -/
structure EpisodeRow where
  rowid : I64
  memoryId : String
  tsMs : ℤ
  content : String
  sourceType : String
  tier : String
  status : String
  strength : ℚ
  salience : ℚ
  encodingContextJson : String

structure EpisodeTable where
  rows : List EpisodeRow
  rowid_unique : (rows.map (·.rowid)).Nodup

structure RecallScoreComponents where
  rrfScore : ℚ
  salienceBoost : ℚ
  strengthBoost : ℚ
  tierBoost : ℚ
  recencyBoost : ℚ
  encodingContextBoost : ℚ

structure RecallHit where
  rowid : I64
  memoryId : String
  cosDistance : ℚ
  bm25Score : Option ℚ
  fusedScore : ℚ
  vectorRank : Option ℕ
  lexicalRank : Option ℕ
  scoreComponents : RecallScoreComponents
  content : String
  sourceType : String
  tier : String

structure RecallResult where
  hits : List RecallHit
  indexLen : ℕ
  candidatesConsidered : ℕ
  retrievalMode : RetrievalMode
  warning : Option String

/-! ### Scores -/

def RecallScoreComponents.total (s : RecallScoreComponents) : ℚ :=
  s.rrfScore + s.salienceBoost + s.strengthBoost + s.tierBoost + s.recencyBoost +
    s.encodingContextBoost

def saturatingI64 (x : ℤ) : ℤ := max (-2 ^ 63) (min x (2 ^ 63 - 1))

def recencyBoost (nowMs tsMs : ℤ) : ℚ :=
  let ageMs := saturatingI64 (nowMs - tsMs)
  let dayMs := 86400000
  if ageMs ≤ 7 * dayMs then 6 / 1000 else if ageMs ≤ 30 * dayMs then 3 / 1000 else 0

def encodingContextBoost (U : Unicode) (query : List Char) (encodingContextJson : String) : ℚ :=
  match searchTerms U query with
  | none => 0
  | some terms =>
    let context := U.toLowercase encodingContextJson.toList
    if terms.any fun term => Text.contains context (String.ofList term) then 6 / 1000 else 0

def scoreComponents (U : Unicode) (nowMs : ℤ) (row : EpisodeRow) (query : List Char)
    (vectorRank lexicalRank : Option ℕ) : RecallScoreComponents where
  rrfScore := reciprocalRankFusion vectorRank lexicalRank
  salienceBoost := max 0 (min row.salience 1) * (12 / 1000)
  strengthBoost := max 0 (min row.strength 1) * (8 / 1000)
  tierBoost := if row.tier = "hot" then 6 / 1000 else if row.tier = "warm" then 3 / 1000 else 0
  recencyBoost := recencyBoost nowMs row.tsMs
  encodingContextBoost := encodingContextBoost U query row.encodingContextJson

/-- The hit of a row with what the two lists have of it: distance or BM25 score, and rank. -/
def recallHit (U : Unicode) (nowMs : ℤ) (query : List Char) (row : EpisodeRow)
    (vector lexical : Option (ℚ × ℕ)) : RecallHit :=
  let vectorRank := vector.map (·.2)
  let lexicalRank := lexical.map (·.2)
  let components := scoreComponents U nowMs row query vectorRank lexicalRank
  { rowid := row.rowid
    memoryId := row.memoryId
    cosDistance := (vector.map (·.1)).getD 1
    bm25Score := lexical.map (·.1)
    fusedScore := components.total
    vectorRank := vectorRank
    lexicalRank := lexicalRank
    scoreComponents := components
    content := row.content
    sourceType := row.sourceType
    tier := row.tier }

/-- The order of hits: score downwards, then distance, then rowid. -/
def recallKey (h : RecallHit) : ℚ ×ₗ ℚ ×ₗ ℤ :=
  toLex (-h.fusedScore, toLex (h.cosDistance, h.rowid.toInt))

/-! ### The pipeline -/

def fetchEpisodesByRowid (db : EpisodeTable) (rowids : List I64) : List EpisodeRow :=
  db.rows.filter (·.rowid ∈ rowids)

/-- The hits before they are sorted. -/
def recallHits (U : Unicode) (nowMs : ℤ) (query : List Char) (db : EpisodeTable)
    (vector : List (I64 × ℚ × ℕ)) (lexical : List LexicalHit) : List RecallHit :=
  hybridHits (fetchEpisodesByRowid db) (·.rowid)
    (fun row v l => if row.status ≠ "active" then none else some (recallHit U nowMs query row v l))
    vector lexical

/-- `run_recall_inner` -/
def runRecallInner (U : Unicode) (nowMs : ℤ) (outcome : EmbedOutcome) (index : VectorIndex)
    (db : EpisodeTable)
    (fts : List Char → ℕ → List (I64 × ℚ)) (query : List Char) (limit : ℕ) :
    Except Error RecallResult :=
  if (Text.trimList query).isEmpty then .error (.invalidInput "recall query must not be empty")
  else
    let limit := clamp limit 1 100
    (semanticCandidates outcome index (candidateLimit limit)).map fun semantic =>
      let lexical := fetchLexicalHits U fts query (candidateLimit limit)
      let decoded := decodeHits .episode semantic.hits
      let hits :=
        if decoded.isEmpty && lexical.isEmpty then []
        else (sortByKey recallKey (recallHits U nowMs query db decoded lexical)).take limit
      ⟨hits, index.len, semantic.hits.length + lexical.length, semantic.mode, semantic.warning⟩

/-! ### What recall ranks -/

section Ranking

variable (U : Unicode) (nowMs : ℤ) (query : List Char) (db : EpisodeTable)
  (vector : List (I64 × ℚ × ℕ)) (lexical : List LexicalHit)

/-- The active episodes of either list. -/
def candidates : List EpisodeRow :=
  db.rows.filter fun row => row.status = "active" ∧ row.rowid ∈ vector.map (·.1) ++
    lexical.map (·.rowid)

/-- The hit of a row by the best rank it has in each list, which is its first one. -/
def bestHit (row : EpisodeRow) : RecallHit :=
  recallHit U nowMs query row (first vector row.rowid) (first (lexicalPairs lexical) row.rowid)

/-- The candidates in the order that is meant. -/
def ranking : List EpisodeRow :=
  sortByKey (fun row => recallKey (bestHit U nowMs query vector lexical row))
  (candidates db vector lexical)

/-- The hits are the first `limit` of the ranking, each with its best vector hit. -/
structure Ranks (limit : ℕ) (hits : List RecallHit) : Prop where
  distinct : (hits.map (·.rowid)).Nodup
  active : ∀ h ∈ hits, ∃ row ∈ db.rows, row.rowid = h.rowid ∧ row.status = "active"
  first : hits.map (·.rowid) = ((ranking U nowMs query db vector lexical).take limit).map (·.rowid)
  best : ∀ h ∈ hits, h.vectorRank = (Occurrences.first vector h.rowid).map (·.2) ∧
    h.cosDistance = ((Occurrences.first vector h.rowid).map (·.1)).getD 1

/-- The hit of a row as the maps have it. -/
def mappedHit (row : EpisodeRow) : RecallHit :=
  recallHit U nowMs query row (collect vector row.rowid) (collect (lexicalPairs lexical) row.rowid)

variable {U nowMs query db vector lexical}

theorem EpisodeTable.eq_of_rowid {row row' : EpisodeRow} (h : row ∈ db.rows) (h' : row' ∈ db.rows)
    (hid : row.rowid = row'.rowid) : row = row' := List.inj_on_of_nodup_map db.rowid_unique h h' hid

theorem recallHits_perm (U : Unicode) (nowMs : ℤ) (query : List Char) (db : EpisodeTable)
    (vector : List (I64 × ℚ × ℕ))
    (lexical : List LexicalHit) : ∃ rows :
    List EpisodeRow, rows.Perm (candidates db vector lexical) ∧
    recallHits U nowMs query db vector lexical =
    rows.map (mappedHit U nowMs query vector lexical) := by
  refine hybridHits_perm db.rowid_unique (fun _ => rfl) (fun row v l => ?_) vector lexical
  by_cases hstatus : row.status = "active"
  · rw [if_neg (not_not.2 hstatus), if_pos hstatus]
  · rw [if_pos hstatus, if_neg hstatus]

/-- What a hit is scored with besides the ranks. -/
def boosts (U : Unicode) (nowMs : ℤ) (query : List Char) (row : EpisodeRow) : ℚ :=
  (scoreComponents U nowMs row query none none).total -
    (scoreComponents U nowMs row query none none).rrfScore

theorem fusedScore_eq (row : EpisodeRow) (v l : Option (ℚ × ℕ)) :
    (recallHit U nowMs query row v l).fusedScore =
      reciprocalRankFusion (v.map (·.2)) (l.map (·.2)) + boosts U nowMs query row := by
  simp only [recallHit, boosts, scoreComponents, RecallScoreComponents.total]
  ring

/-- A later rank scores less. -/
theorem reciprocalRankFusion_lt {r r' : ℕ} (h : r < r') (l : Option ℕ) :
    reciprocalRankFusion (some r') l < reciprocalRankFusion (some r) l := by
  have hr : (0 : ℚ) < 60 + r := by positivity
  have hlt : (60 + r : ℚ) < 60 + r' := by
    have : (r : ℚ) < r' := by exact_mod_cast h
    linarith
  simp only [reciprocalRankFusion, Option.map_some, Option.getD_some]
  have := one_div_lt_one_div_of_lt hr hlt
  linarith

theorem collect_lexical (hlex : (lexical.map (·.rowid)).Nodup) (id : I64) :
    collect (lexicalPairs lexical) id = first (lexicalPairs lexical) id := by
  refine collect_eq_first (length_filter_le_one ?_ id)
  rwa [lexicalPairs, List.map_map]

/-- A row with one vector hit is mapped to it. -/
theorem mappedHit_eq (hlex : (lexical.map (·.rowid)).Nodup) {row : EpisodeRow}
    (hone : (vector.filter (·.1 = row.rowid)).length ≤ 1) :
    mappedHit U nowMs query vector lexical row = bestHit U nowMs query vector lexical row := by
  rw [mappedHit, bestHit, collect_eq_first hone, collect_lexical hlex]

/-- The last hit of an episode ranks it no higher than its best one. -/
theorem recallKey_le (hvector : vector.Pairwise fun a b => a.2.2 < b.2.2)
    (hlex : (lexical.map (·.rowid)).Nodup) (row : EpisodeRow) :
    recallKey (bestHit U nowMs query vector lexical row) ≤
    recallKey (mappedHit U nowMs query vector lexical row) := by
  rcases Nat.lt_or_ge 1 (vector.filter (·.1 = row.rowid)).length with htwo | hone
  · obtain ⟨v, w, hv, hw, hlt⟩ := first_lt_collect hvector htwo
    refine le_of_lt (Prod.Lex.toLex_lt_toLex.2 (.inl ?_))
    simp only [mappedHit, bestHit, fusedScore_eq, hv, hw, collect_lexical hlex, Option.map_some]
    have := reciprocalRankFusion_lt hlt ((first (lexicalPairs lexical) row.rowid).map (·.2))
    linarith
  · rw [mappedHit_eq hlex hone]

/-- No episode that belongs among the first `limit` has a second vector hit. -/
def FirstOnce (U : Unicode) (nowMs : ℤ) (query : List Char) (db : EpisodeTable)
    (vector : List (I64 × ℚ × ℕ)) (lexical : List LexicalHit) (limit : ℕ) : Prop :=
  ∀ row ∈ (ranking U nowMs query db vector lexical).take limit,
    (vector.filter (·.1 = row.rowid)).length ≤ 1

/-- The hits of recall rank as they should exactly where those that belong there have one vector hit
each. -/
theorem ranks_iff (hvector : vector.Pairwise fun a b => a.2.2 < b.2.2)
    (hlex : (lexical.map (·.rowid)).Nodup) (limit : ℕ) : Ranks U nowMs query db vector lexical limit
        ((sortByKey recallKey (recallHits U nowMs query db vector lexical)).take limit) ↔
      FirstOnce U nowMs query db vector lexical limit := by
  obtain ⟨rows, hperm, hrows⟩ := recallHits_perm U nowMs query db vector lexical
  have hmem {row : EpisodeRow} (h : row ∈ candidates db vector lexical) : row ∈ db.rows ∧
      row.status = "active" := by
    obtain ⟨hdb, hactive⟩ := List.mem_filter.1 h
    exact ⟨hdb, (of_decide_eq_true hactive).1⟩
  have hsub {row : EpisodeRow} (h : row ∈ (ranking U nowMs query db vector lexical).take limit) :
      row ∈ candidates db vector lexical := sortByKey_perm.mem_iff.1 (List.mem_of_mem_take h)
  rw [hrows, sortByKey_map, ← List.map_take]
  constructor
  · intro h row hrow
    by_contra htwo
    have hid : row.rowid ∈ ((ranking U nowMs query db vector lexical).take limit).map (·.rowid) :=
      List.mem_map_of_mem hrow
    rw [← h.first] at hid
    obtain ⟨hit, hhit, hsame⟩ := List.mem_map.1 hid
    obtain ⟨row', -, rfl⟩ := List.mem_map.1 hhit
    have hsame : row'.rowid = row.rowid := hsame
    obtain ⟨v, w, hv, hw, hlt⟩ := first_lt_collect hvector (not_le.1 htwo)
    have hbest := (h.best _ hhit).1
    change (collect vector row'.rowid).map (·.2) = (first vector row'.rowid).map (·.2) at hbest
    rw [hsame, hv, hw, Option.map_some, Option.map_some, Option.some.injEq] at hbest
    omega
  · intro honce
    have htake :
        (sortByKey (fun row => recallKey (mappedHit U nowMs query vector lexical row)) rows).take
        limit = (ranking U nowMs query db vector lexical).take limit := by
      refine take_sortByKey hperm.symm (fun a ha b hb hkey => ?_)
        (fun row _ => recallKey_le hvector hlex row) fun row hrow => ?_
      · have hrowid : a.rowid.toInt = b.rowid.toInt := (Prod.ext_iff.1 (Prod.ext_iff.1 hkey).2).2
        exact EpisodeTable.eq_of_rowid (hmem ha).1 (hmem hb).1 (BitVec.eq_of_toInt_eq hrowid)
      · rw [mappedHit_eq hlex (honce row hrow)]
    rw [htake]
    refine ⟨?_, fun h hh => ?_, ?_, fun h hh => ?_⟩
    · have hnodup : ((ranking U nowMs query db vector lexical).map (·.rowid)).Nodup := by
        rw [ranking, (sortByKey_perm.map _).nodup_iff]
        exact db.rowid_unique.sublist (List.filter_sublist.map _)
      rw [List.map_map]
      exact hnodup.sublist ((List.take_sublist _ _).map _)
    · obtain ⟨row, hrow, rfl⟩ := List.mem_map.1 hh
      obtain ⟨hdb, hactive⟩ := hmem (hsub hrow)
      exact ⟨row, hdb, rfl, hactive⟩
    · rw [List.map_map]
      rfl
    · obtain ⟨row, hrow, rfl⟩ := List.mem_map.1 hh
      rw [mappedHit_eq hlex (honce row hrow)]
      exact ⟨rfl, rfl⟩

theorem fetchLexicalHits_nodup (U : Unicode) {fts : List Char → ℕ → List (I64 × ℚ)}
    (hfts : ∀ q n, ((fts q n).map (·.1)).Nodup) (query : List Char) (limit : ℕ) :
    ((fetchLexicalHits U fts query limit).map (·.rowid)).Nodup := by
  unfold fetchLexicalHits
  cases buildFtsQuery U query with
  | none => exact List.nodup_nil
  | some q =>
    have hrowids :
        (((fts q limit).zipIdx.map fun x => (⟨x.1.1, x.1.2, x.2 + 1⟩ : LexicalHit)).map (·.rowid)) =
        (fts q limit).map (·.1) := by
      rw [List.map_map]
      conv => rhs; rw [← List.zipIdx_map_fst 0 (fts q limit), List.map_map]
      rfl
    dsimp only
    rw [hrowids]
    exact hfts q limit

theorem runRecallInner_eq (U : Unicode) (nowMs : ℤ) {outcome : EmbedOutcome} {index : VectorIndex}
    (db : EpisodeTable)
    (fts : List Char → ℕ → List (I64 × ℚ)) {query : List Char} (limit : ℕ)
    {semantic : SemanticCandidates} (hquery : (Text.trimList query).isEmpty = false)
    (hsemantic : semanticCandidates outcome index (candidateLimit (clamp limit 1 100)) =
      .ok semantic) :
    runRecallInner U nowMs outcome index db fts query limit = .ok
      { hits := (sortByKey recallKey (recallHits U nowMs query db (decodeHits .episode semantic.hits)
          (fetchLexicalHits U fts query (candidateLimit (clamp limit 1 100))))).take (clamp limit 1 100)
        indexLen := index.len
        candidatesConsidered :=
          semantic.hits.length + (fetchLexicalHits U fts query (candidateLimit (clamp limit 1 100))).length
        retrievalMode := semantic.mode
        warning := semantic.warning } := by
  unfold runRecallInner
  rw [hquery, if_neg Bool.false_ne_true]
  dsimp only
  rw [hsemantic, Except.map]
  congr 2
  split
  · next hempty =>
    rw [Bool.and_eq_true, List.isEmpty_iff, List.isEmpty_iff] at hempty
    have hnone : recallHits U nowMs query db [] [] = [] := rfl
    rw [hempty.1, hempty.2, hnone]
    exact List.take_nil.symm
  · rfl

/-- Recall answers a query that is not blank, and ranks as it should exactly where the vector hits
of the first episodes are one each. -/
theorem recall_ranks (U : Unicode) (nowMs : ℤ) {outcome : EmbedOutcome} {index : VectorIndex}
    (db : EpisodeTable)
    {fts : List Char → ℕ → List (I64 × ℚ)} {query : List Char} (limit : ℕ)
    {semantic : SemanticCandidates} (hquery : (Text.trimList query).isEmpty = false)
    (hfts : ∀ q n, ((fts q n).map (·.1)).Nodup)
    (hsemantic : semanticCandidates outcome index (candidateLimit (clamp limit 1 100)) =
      .ok semantic) :
    ∃ result, runRecallInner U nowMs outcome index db fts query limit = .ok result ∧
      (Ranks U nowMs query db (decodeHits .episode semantic.hits)
          (fetchLexicalHits U fts query (candidateLimit (clamp limit 1 100))) (clamp limit 1 100)
          result.hits ↔
        FirstOnce U nowMs query db (decodeHits .episode semantic.hits)
          (fetchLexicalHits U fts query (candidateLimit (clamp limit 1 100)))
            (clamp limit 1 100)) :=
  ⟨_, runRecallInner_eq U nowMs db fts limit hquery hsemantic,
    ranks_iff (decodeHits_ranks _ _) (fetchLexicalHits_nodup U hfts _ _) _⟩

end Ranking

/-! ### An episode that is indexed twice -/

def asciiTables : Unicode := ⟨Char.isAlphanum, Text.toAsciiLowercase⟩

def sampleRow (rowid : I64) : EpisodeRow :=
  ⟨rowid, "memory", 0, "content", "note", "cold", "active", 1, 0, "{}"⟩

def sampleDb : EpisodeTable := ⟨[sampleRow 1, sampleRow 2], by decide⟩

/-- An index that answers every search with the same hits. -/
def constIndex (hits : List (I64 × ℚ)) : VectorIndex := ⟨fun _ _ => .ok hits, hits.length⟩

/-- Episode 1 has been updated: its old vector is found behind that of episode 2. -/
def twiceIndexed : List (I64 × ℚ) := [(1, 1 / 10), (2, 2 / 10), (1, 3 / 10)]

theorem recall_ranks_once :
    ∃ result, runRecallInner asciiTables 0 (.embedded (some []))
    (constIndex [(1, 1 / 10), (2, 2 / 10)]) sampleDb
        (fun _ _ => [(2, -1)]) "tea".toList 5 = .ok result ∧
      (Ranks asciiTables 0 "tea".toList sampleDb (decodeHits .episode [(1, 1 / 10), (2, 2 / 10)])
          (fetchLexicalHits asciiTables (fun _ _ => [(2, -1)])
            "tea".toList (candidateLimit (clamp 5 1 100)))
          (clamp 5 1 100) result.hits ↔
        FirstOnce asciiTables 0 "tea".toList sampleDb
        (decodeHits .episode [(1, 1 / 10), (2, 2 / 10)])
          (fetchLexicalHits asciiTables (fun _ _ => [(2, -1)])
            "tea".toList (candidateLimit (clamp 5 1 100)))
          (clamp 5 1 100)) := by
  have hsemantic : semanticCandidates (.embedded (some [])) (constIndex [(1, 1 / 10), (2, 2 / 10)])
      (candidateLimit (clamp 5 1 100)) = .ok ⟨[(1, 1 / 10), (2, 2 / 10)], .hybrid, none⟩ := rfl
  exact recall_ranks asciiTables 0 sampleDb 5 (by decide) (fun _ _ => by decide) hsemantic

/-- With the old vector of episode 1 behind it, episode 2 comes first. -/
theorem recall_misranks :
    ¬ ∃ result, runRecallInner asciiTables 0 (.embedded (some [])) (constIndex twiceIndexed)
    sampleDb (fun _ _ => [])
        "tea".toList 2 = .ok result ∧
      Ranks asciiTables 0 "tea".toList sampleDb (decodeHits .episode twiceIndexed) []
      2 result.hits := by
  rintro ⟨result, hresult, hranks⟩
  have hquery : (Text.trimList "tea".toList).isEmpty = false := by decide
  have hsemantic : semanticCandidates (.embedded (some [])) (constIndex twiceIndexed)
      (candidateLimit (clamp 2 1 100)) = .ok ⟨twiceIndexed, .hybrid, none⟩ := rfl
  rw [runRecallInner_eq asciiTables 0 sampleDb _ 2 hquery hsemantic] at hresult
  obtain rfl := Except.ok.inj hresult
  have hfirst := hranks.first
  revert hfirst
  decide +kernel

end Recall

end Solo
