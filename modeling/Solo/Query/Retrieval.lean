import Mathlib.Algebra.Order.Ring.Rat
import Mathlib.Data.Prod.Lex
import Solo.Lib.Occurrences
import Solo.Lib.StableSort
import Solo.Lib.Text
import Solo.Store.Writer

/-!
# Hybrid retrieval (`retrieval.rs`, and what `recall.rs` and `doc_search.rs` share)

A query is answered from two ranked lists, the nearest vectors and the lexical matches. Both
searches decode the ids of one kind, list the rowids in the order of their first hit, look the rows
up, and join each row with its hit of either list through maps. Scores are exact rationals;
embedding, the index and the full-text search are parameters.
-/

namespace Solo

open Occurrences

def clamp (x lo hi : ℕ) : ℕ := if x < lo then lo else if hi < x then hi else x

/-! ### Candidates -/

/-- `dyn VectorIndex`, as a query uses it. -/
structure VectorIndex where
  search : Vector → ℕ → Except Error (List (I64 × ℚ))
  len : ℕ

inductive RetrievalMode
  | hybrid | lexicalOnly
  deriving DecidableEq

structure SemanticCandidates where
  hits : List (I64 × ℚ)
  mode : RetrievalMode
  warning : Option String

/-- What comes of embedding a query; `none` is an embedding that is not F32. -/
inductive EmbedOutcome
  | timedOut
  | failed
  | embedded (v : Option Vector)

def semanticCandidates (outcome : EmbedOutcome) (index : VectorIndex) (limit : ℕ) :
    Except Error SemanticCandidates :=
  match outcome with
  | .timedOut =>
    .ok ⟨[], .lexicalOnly, some "Semantic search timed out; results use keyword search only."⟩
  | .failed =>
    .ok ⟨[], .lexicalOnly, some "Semantic search is unavailable; results use keyword search only."⟩
  | .embedded none => .error (.embedder "embedder returned non-F32 vector; HNSW requires F32")
  | .embedded (some v) => (index.search v limit).map fun hits => ⟨hits, .hybrid, none⟩

/-- The tables of Unicode that the terms of a query depend on. -/
structure Unicode where
  isAlphanumeric : Char → Bool
  toLowercase : List Char → List Char

/-- `recall_terms`, `doc_search_terms` -/
def searchTerms (U : Unicode) (query : List Char) : Option (List (List Char)) :=
  let words :=
    ((query.splitOnP fun c => !U.isAlphanumeric c).map Text.trimList).filter fun w => !w.isEmpty
  let escape (w : List Char) := w.flatMap fun c => if c = '"' then ['"', '"'] else [c]
  -- the loop stops once it has eight terms
  let terms :=
    words.foldl (fun terms w => if 8 ≤ terms.length then terms else pushNew terms (escape w)) []
  if terms.isEmpty then none else some (terms.map U.toLowercase)

def buildFtsQuery (U : Unicode) (query : List Char) : Option (List Char) :=
  (searchTerms U query).map fun terms =>
    " OR ".toList.intercalate (terms.map fun t => '"' :: t ++ ['"'])

/-- A row of the full-text search; `rank` is its place. -/
structure LexicalHit where
  rowid : I64
  bm25Score : ℚ
  rank : ℕ

/-- `fetch_lexical_…_hits`; `fts` is the statement, with its `MATCH` and its `LIMIT`. -/
def fetchLexicalHits (U : Unicode) (fts : List Char → ℕ → List (I64 × ℚ)) (query : List Char)
    (limit : ℕ) : List LexicalHit :=
  match buildFtsQuery U query with
  | none => []
  | some q => (fts q limit).zipIdx.map fun x => ⟨x.1.1, x.1.2, x.2 + 1⟩

/-- The hits of one kind: rowid, distance, and rank among all hits. -/
def decodeHits (kind : HnswIdKind) (hits : List (I64 × ℚ)) : List (I64 × ℚ × ℕ) :=
  hits.zipIdx.filterMap fun x =>
    if (decodeHnswId x.1.1).1 = kind then some ((decodeHnswId x.1.1).2, x.1.2, x.2 + 1) else none

/-- `recall_candidate_limit`, `doc_search_candidate_limit` -/
def candidateLimit (limit : ℕ) : ℕ := clamp (limit * 4) limit 200

/-! ### The join -/

def reciprocalRankFusion (vectorRank lexicalRank : Option ℕ) : ℚ :=
  let vector := (vectorRank.map fun (rank : ℕ) => 1 / (60 + (rank : ℚ))).getD 0
  let lexical := (lexicalRank.map fun (rank : ℕ) => 1 / (60 + (rank : ℚ))).getD 0
  vector + lexical

section Join

variable {Row Hit : Type} (fetch : List I64 → List Row) (rowid : Row → I64)
  (hit : Row → Option (ℚ × ℕ) → Option (ℚ × ℕ) → Option Hit)

/-- The rowids of the hits, those of vectors first. -/
def hitRowids (vector : List (I64 × ℚ × ℕ)) (lexical : List LexicalHit) : List I64 :=
  distinct (vector.map (·.1) ++ lexical.map (·.rowid))

/-- `lexical_by_rowid` -/
def lexicalPairs (lexical : List LexicalHit) : List (I64 × ℚ × ℕ) :=
  lexical.map fun h => (h.rowid, h.bm25Score, h.rank)

/-- The loop that joins rows and hits. -/
def hybridHits (vector : List (I64 × ℚ × ℕ)) (lexical : List LexicalHit) : List Hit :=
  let rowids := hitRowids vector lexical
  let byRowid := (fetch rowids).map fun row => (rowid row, row)
  rowids.filterMap fun id => (collect byRowid id).bind fun row =>
    hit row (collect vector id) (collect (lexicalPairs lexical) id)

variable {fetch rowid hit} {rows : List Row}

/-- What the join yields of a table that is fetched by a unique rowid. -/
theorem hybridHits_eq (hunique : (rows.map rowid).Nodup)
    (hfetch : ∀ ids, fetch ids = rows.filter (rowid · ∈ ids))
    (vector : List (I64 × ℚ × ℕ)) (lexical : List LexicalHit) :
    hybridHits fetch rowid hit vector lexical = (hitRowids vector lexical).filterMap fun id =>
      (rows.find? (rowid · = id)).bind fun row => hit row (collect vector id)
        (collect (lexicalPairs lexical) id) := by
  unfold hybridHits
  dsimp only
  refine List.filterMap_congr fun id hid => ?_
  have hsub : ((fetch (hitRowids vector lexical)).map rowid).Nodup := by
    rw [hfetch]
    exact hunique.sublist (List.filter_sublist.map rowid)
  rw [collect_map hsub, hfetch, ← List.head?_filter, List.filter_filter, ← List.head?_filter]
  congr 2
  refine List.filter_congr fun row _ => ?_
  by_cases hrow : rowid row = id
  · simp [hrow, hid]
  · simp [hrow]

/-- The join yields one hit for each row to keep that either list names. -/
theorem hybridHits_perm (hunique : (rows.map rowid).Nodup)
    (hfetch : ∀ ids, fetch ids = rows.filter (rowid · ∈ ids))
    {keep : Row → Prop} [DecidablePred keep] {mk : Row → Option (ℚ × ℕ) → Option (ℚ × ℕ) → Hit}
    (hhit : ∀ row v l, hit row v l = if keep row then some (mk row v l) else none)
    (vector : List (I64 × ℚ × ℕ)) (lexical : List LexicalHit) : ∃ found : List Row,
      found.Perm (rows.filter fun row => keep row ∧ rowid row ∈ vector.map (·.1) ++
        lexical.map (·.rowid)) ∧
      hybridHits fetch rowid hit vector lexical =
        found.map fun row => mk row (collect vector (rowid row))
        (collect (lexicalPairs lexical) (rowid row)) := by
  have hkept (id : I64) (row : Row) :
      row ∈ (rows.find? (rowid · = id)).bind (fun row => if keep row then some row else none) ↔
        row ∈ rows ∧ rowid row = id ∧ keep row := by
    rw [Option.mem_def, Option.bind_eq_some_iff]
    constructor
    · rintro ⟨row', hfind, hrow⟩
      obtain ⟨hmem, hid⟩ := (find?_eq_some hunique).1 hfind
      split at hrow
      · next hkeep =>
        obtain rfl := Option.some.inj hrow
        exact ⟨hmem, hid, hkeep⟩
      · cases hrow
    · rintro ⟨hmem, hid, hkeep⟩
      exact ⟨row, (find?_eq_some hunique).2 ⟨hmem, hid⟩, if_pos hkeep⟩
  refine ⟨(hitRowids vector lexical).filterMap fun id =>
    (rows.find? (rowid · = id)).bind fun row => if keep row then some row else none, ?_, ?_⟩
  · refine (List.perm_ext_iff_of_nodup ?_ ?_).2 fun row => ?_
    · refine (nodup_distinct _).filterMap fun a b row ha hb => ?_
      exact ((hkept a row).1 ha).2.1.symm.trans ((hkept b row).1 hb).2.1
    · exact (List.Nodup.of_map _ hunique).filter _
    · rw [List.mem_filterMap, List.mem_filter, decide_eq_true_iff]
      constructor
      · rintro ⟨id, hid, hrow⟩
        obtain ⟨hmem, rfl, hkeep⟩ := (hkept id row).1 hrow
        exact ⟨hmem, hkeep, mem_distinct.1 hid⟩
      · rintro ⟨hmem, hkeep, hid⟩
        exact ⟨rowid row, mem_distinct.2 hid, (hkept _ _).2 ⟨hmem, rfl, hkeep⟩⟩
  · rw [hybridHits_eq hunique hfetch, List.map_filterMap]
    refine List.filterMap_congr fun id _ => ?_
    cases hfind : rows.find? (rowid · = id) with
    | none => rw [Option.bind_none, Option.bind_none, Option.map_none]
    | some row =>
      obtain ⟨-, rfl⟩ := (find?_eq_some hunique).1 hfind
      rw [Option.bind_some, Option.bind_some, hhit]
      by_cases hkeep : keep row
      · rw [if_pos hkeep, if_pos hkeep, Option.map_some]
      · rw [if_neg hkeep, if_neg hkeep, Option.map_none]

end Join

theorem decodeHits_ranks (kind : HnswIdKind) (hits : List (I64 × ℚ)) :
    (decodeHits kind hits).Pairwise fun a b => a.2.2 < b.2.2 := by
  unfold decodeHits
  rw [List.pairwise_filterMap]
  have hidx : hits.zipIdx.Pairwise fun x y => x.2 < y.2 := by
    rw [List.pairwise_iff_getElem]
    intro i j hi hj hij
    simpa using hij
  refine hidx.imp fun {x y} hlt a ha b hb => ?_
  split at ha
  · split at hb
    · obtain rfl := Option.some.inj ha
      obtain rfl := Option.some.inj hb
      exact Nat.succ_lt_succ hlt
    · cases hb
  · cases ha

end Solo
