import Mathlib.Data.Prod.Lex
import Mathlib.Data.String.Basic
import Solo.Derived.Schema
import Solo.Lib.Keyset

/-!
# The node catalog (`http.rs`, `graph_nodes_handler`)

Each kind of node is selected newest first, up to two rows more than the page holds; the merged rows
behind the cursor are sorted by time and id and cut to the page. The pages of a walk ascend whatever
happens between its requests (`nodesWalk_ascends`), and they list all nodes where no two rows of one
kind share their time, or where one request selects the kind (`nodesWalk_lists`): the `SELECT` stops
at the time of the cursor, so that rows which share it and were listed before take the place of
later ones.
-/

namespace Solo.Catalog

open Keyset StableSort

inductive NodeKind
  | episode | document | chunk | cluster | entity
  deriving DecidableEq

namespace NodeKind

def idPrefix : NodeKind → String
  | .episode => "ep:"
  | .document => "doc:"
  | .chunk => "chunk:"
  | .cluster => "cl:"
  | .entity => "ent:"

end NodeKind

/-- Columns of time that no command reads. -/
structure Times where
  ingestedAtMs : DocumentId → Int
  chunkCreatedAtMs : ChunkId → Int
  evidenceCreatedAtMs : String → Int
  /-- `COALESCE(first_seen_ms, created_at_ms, 0)` of an entity. -/
  entitySeenMs : EntityId → Int

/-- A node without its texts. -/
structure GraphNode where
  id : String
  kind : NodeKind
  tsMs : Int
  refCount : Option ℕ
  deriving DecidableEq

/-- `ts_ms DESC, id ASC`. -/
abbrev SortKey := Intᵒᵈ ×ₗ String

def sortKey (tsMs : Int) (id : String) : SortKey := toLex (OrderDual.toDual tsMs, id)

/-- `NodesCursor`: the place of the last node listed. -/
abbrev NodesCursor := SortKey

def nodeKey (n : GraphNode) : SortKey := sortKey n.tsMs n.id

/-- The query, with its kinds parsed and its cursor decoded. -/
structure NodesQuery where
  kinds : List NodeKind
  sinceMs : Option Int
  untilMs : Option Int
  limit : Option ℕ

/-- `unwrap_or(GRAPH_NODES_DEFAULT_LIMIT).clamp(1, GRAPH_NODES_MAX_LIMIT)`. -/
def NodesQuery.pageLimit (q : NodesQuery) : ℕ := max 1 (min (q.limit.getD 100) 1000)

def inWindow (q : NodesQuery) (tsMs : Int) : Bool :=
  q.sinceMs.all (· ≤ tsMs) && q.untilMs.all (tsMs ≤ ·)

def notNewer (cursor : Option NodesCursor) (tsMs : Int) : Bool :=
  cursor.all fun c => tsMs ≤ OrderDual.ofDual (ofLex c).1

/-- The id and the time of a selected row. -/
structure NodeRow where
  id : String
  tsMs : Int
  deriving DecidableEq

def NodeRow.key (r : NodeRow) : SortKey := sortKey r.tsMs r.id

/-- `WHERE ts >= ? AND ts <= ? AND ts <= ? ORDER BY ts DESC, id ASC LIMIT ?`. -/
def fetchRows (q : NodesQuery) (cursor : Option NodesCursor) (limit : ℕ) (rows : List NodeRow) :
    List NodeRow :=
  (sortByKey NodeRow.key (rows.filter fun r => inWindow q r.tsMs && notNewer cursor r.tsMs)).take
    limit

def episodeRows (s : Store) : List NodeRow :=
  (s.episodes.rows.filter (·.status = .active)).map fun e => ⟨e.memoryId, e.tsMs⟩

def documentRows (s : Store) (t : Times) : List NodeRow :=
  (s.documents.rows.filter (·.status = .active)).map fun d => ⟨d.docId, t.ingestedAtMs d.docId⟩

def chunkRows (s : Store) (t : Times) : List NodeRow :=
  (s.documentChunks.rows.filter s.chunkActive).map fun c =>
    ⟨c.chunkId, t.chunkCreatedAtMs c.chunkId⟩

/-- `clusters c LEFT JOIN semantic_abstractions sa`. -/
def clusterRows (d : Derived) : List NodeRow :=
  d.clusters.rows.flatMap fun c =>
    List.replicate (max 1 (d.semanticAbstractions.rows.countP (·.clusterId = c.clusterId)))
    ⟨c.clusterId, c.createdAtMs⟩

def fetchEpisodesForNodes (s : Store) (q : NodesQuery) (cursor : Option NodesCursor) (limit : ℕ) :
    List NodeRow :=
  fetchRows q cursor limit (episodeRows s)

def fetchDocumentsForNodes (s : Store) (t : Times) (q : NodesQuery) (cursor : Option NodesCursor)
    (limit : ℕ) : List NodeRow :=
  fetchRows q cursor limit (documentRows s t)

def fetchChunksForNodes (s : Store) (t : Times) (q : NodesQuery) (cursor : Option NodesCursor)
    (limit : ℕ) : List NodeRow :=
  fetchRows q cursor limit (chunkRows s t)

def fetchClustersForNodes (d : Derived) (q : NodesQuery) (cursor : Option NodesCursor) (limit : ℕ) :
    List NodeRow :=
  fetchRows q cursor limit (clusterRows d)

/-! ### Entities -/

/-- A row of `all_refs`. -/
structure EntityRef where
  value : EntityId
  tsMs : Int
  isReference : Bool

def relationshipRefs (d : Derived) : List EntityRef :=
  let active := d.relationshipEdges.rows.filter (·.status = .active)
  active.map (fun e => ⟨e.subjectEntityId, e.validFromMs, true⟩) ++
    active.filterMap fun e =>
      match e.object with
      | .entity id => some ⟨id, e.validFromMs, true⟩
      | .literal _ => none

/-- The active triples that the graph does not know. -/
def fallbackTriples (d : Derived) : List TripleRow :=
  d.triples.rows.filter fun t => t.status = .active &&
    !d.relationshipEvidence.rows.any (·.tripleId = t.tripleId) &&
    !d.relationshipEdges.rows.any (·.edgeId = t.tripleId)

def fallbackTripleRefs (d : Derived) : List EntityRef :=
  (fallbackTriples d).map (fun t => ⟨t.subjectId, t.validFromMs, true⟩) ++
    ((fallbackTriples d).filter (·.objectKind = .entity)).map fun t =>
    ⟨t.objectId, t.validFromMs, true⟩

def activeEntities (d : Derived) (t : Times) : List EntityRef :=
  (d.entities.rows.filter (·.status = .active)).map fun e =>
    ⟨e.entityId, t.entitySeenMs e.entityId, false⟩

def allRefs (d : Derived) (t : Times) : List EntityRef :=
  relationshipRefs d ++ fallbackTripleRefs d ++ activeEntities d t

structure EntityNodeRow where
  value : EntityId
  refCount : ℕ
  firstSeenMs : Int
  deriving DecidableEq

/-- `GROUP BY value` of the references in the window. -/
def entityRows (d : Derived) (t : Times) (q : NodesQuery) : List EntityNodeRow :=
  let refs := (allRefs d t).filter fun r => inWindow q r.tsMs
  (refs.map (·.value)).dedup.map fun v =>
    let group := refs.filter (·.value = v)
    ⟨v, group.countP (·.isReference), ((group.map (·.tsMs)).min?).getD 0⟩

def graphEntityCap : ℕ := 200

/-- `HAVING MIN(ts_ms) <= ? ORDER BY ref_count DESC, value ASC LIMIT ?`, and whether the cap was
reached. -/
def fetchEntitiesForNodes (d : Derived) (t : Times) (q : NodesQuery) (cursor : Option NodesCursor) :
    List EntityNodeRow × Bool :=
  let rows := (entityRows d t q).filter fun r => notNewer cursor r.firstSeenMs
  let sorted := sortByKey (fun r => toLex (OrderDual.toDual r.refCount, r.value)) rows
  let fetched := sorted.take (graphEntityCap + 1)
  (fetched.take graphEntityCap, fetched.length > graphEntityCap)

/-! ### A page -/

def stageRow (kind : NodeKind) (r : NodeRow) : GraphNode :=
  ⟨kind.idPrefix ++ r.id, kind, r.tsMs, none⟩

def stageEntity (r : EntityNodeRow) : GraphNode :=
  ⟨NodeKind.entity.idPrefix ++ r.value, .entity, r.firstSeenMs, some r.refCount⟩

/-- The rows of the kinds that the query asks for, merged. -/
def staged (s : Store) (d : Derived) (t : Times) (q : NodesQuery) (cursor : Option NodesCursor) :
    List GraphNode :=
  let limit := q.pageLimit + 2
  (if .episode ∈ q.kinds then (fetchEpisodesForNodes s q cursor limit).map (stageRow .episode)
    else []) ++
  (if .document ∈ q.kinds then (fetchDocumentsForNodes s t q cursor limit).map (stageRow .document)
    else []) ++
  (if .chunk ∈ q.kinds then (fetchChunksForNodes s t q cursor limit).map (stageRow .chunk)
    else []) ++
  (if .cluster ∈ q.kinds then (fetchClustersForNodes d q cursor limit).map (stageRow .cluster)
    else []) ++
  if .entity ∈ q.kinds then (fetchEntitiesForNodes d t q cursor).1.map stageEntity else []

def nodesPage (s : Store) (d : Derived) (t : Times) (q : NodesQuery) (cursor : Option NodesCursor) :
    Page GraphNode SortKey :=
  pageOf nodeKey q.pageLimit cursor (staged s d t q cursor)

/-- `graph_nodes_handler`: the page, and whether the entity cap was reached. -/
def graphNodesHandler (s : Store) (d : Derived) (t : Times) (q : NodesQuery)
    (cursor : Option NodesCursor) : Except String (Page GraphNode SortKey × Bool) :=
  if q.sinceMs.any fun since => q.untilMs.any fun til => decide (til < since) then
    .error s!"since_ms ({q.sinceMs.getD 0}) must be <= until_ms ({q.untilMs.getD 0})"
  else .ok (nodesPage s d t q cursor, NodeKind.entity ∈ q.kinds &&
    (fetchEntitiesForNodes d t q cursor).2)

/-! ### The whole catalog -/

/-- The rows of a kind; entities have rows of their own. -/
def catalogRows (s : Store) (d : Derived) (t : Times) : NodeKind → List NodeRow
  | .episode => episodeRows s
  | .document => documentRows s t
  | .chunk => chunkRows s t
  | .cluster => clusterRows d
  | .entity => []

def rowKinds : List NodeKind := [.episode, .document, .chunk, .cluster]

/-- All nodes that the query asks for. -/
def listed (s : Store) (d : Derived) (t : Times) (q : NodesQuery) : List GraphNode :=
  (rowKinds.flatMap fun k =>
    if k ∈ q.kinds then ((catalogRows s d t k).filter fun r => inWindow q r.tsMs).map (stageRow k)
      else []) ++
  if .entity ∈ q.kinds then (entityRows d t q).map stageEntity else []

section Keys

variable {k k' : NodeKind} {a b : String} {x y : Int}

theorem lt_of_append {p : String} : p ++ a < p ++ b ↔ a < b := by
  rw [String.lt_iff_toList_lt, String.lt_iff_toList_lt, String.toList_append, String.toList_append]
  induction p.toList with
  | nil => exact Iff.rfl
  | cons c cs ih => rw [List.cons_append, List.cons_append, List.cons_lt_cons_self, ih]

theorem idPrefix_inj (h : k.idPrefix ++ a = k'.idPrefix ++ b) : k = k' ∧ a = b := by
  have hlist := congrArg String.toList h
  rw [String.toList_append, String.toList_append] at hlist
  have hkind : k = k' := by
    cases k <;> cases k' <;> first | rfl | exact absurd hlist (by simp [NodeKind.idPrefix])
  subst hkind
  exact ⟨rfl, String.toList_injective (List.append_cancel_left hlist)⟩

theorem sortKey_inj (h : sortKey x a = sortKey y b) : x = y ∧ a = b := by
  have hpair := toLex.injective h
  exact ⟨OrderDual.toDual.injective (congrArg Prod.fst hpair), congrArg Prod.snd hpair⟩

theorem sortKey_lt : sortKey x a < sortKey y b ↔ y < x ∨ x = y ∧ a < b := by
  unfold sortKey
  rw [Prod.Lex.toLex_lt_toLex]
  exact or_congr OrderDual.toDual_lt_toDual (and_congr_left' OrderDual.toDual.injective.eq_iff)

theorem nodeKey_stageRow_lt {r r' : NodeRow} : nodeKey (stageRow k r) < nodeKey (stageRow k r') ↔
    r.key < r'.key := by
  rw [nodeKey, nodeKey, NodeRow.key, NodeRow.key, sortKey_lt, sortKey_lt]
  exact or_congr_right (and_congr_right' lt_of_append)

/-- What lies behind the cursor is not newer. -/
theorem notNewer_of_behind {cursor : Option NodesCursor} (h : Behind cursor (sortKey x a)) :
    notNewer cursor x = true := by
  unfold notNewer
  cases cursor with
  | none => rfl
  | some c =>
    have hlt : sortKey (OrderDual.ofDual (ofLex c).1) (ofLex c).2 < sortKey x a := behind_some.1 h
    refine decide_eq_true ?_
    rcases sortKey_lt.1 hlt with hlt | ⟨heq, -⟩
    · exact hlt.le
    · exact heq.ge

/-- Of what is not newer, only what shares the time of the cursor is not behind it. -/
theorem tsMs_eq_of_not_behind {c : NodesCursor} (hnew : notNewer (some c) x = true)
    (h : ¬ Behind (some c) (sortKey x a)) : x = OrderDual.ofDual (ofLex c).1 := by
  have hle : x ≤ OrderDual.ofDual (ofLex c).1 := of_decide_eq_true hnew
  refine le_antisymm hle (not_lt.1 fun hlt => h (behind_some.2 ?_))
  exact (sortKey_lt (a := (ofLex c).2)).2 (.inl hlt)

end Keys

section Fetch

variable {q : NodesQuery} {cursor : Option NodesCursor} {n : ℕ} {rows : List NodeRow}

theorem fetchRows_subperm :
    (fetchRows q cursor n rows).Subperm (rows.filter fun r => inWindow q r.tsMs) := by
  refine ((List.take_sublist _ _).subperm.trans sortByKey_perm.subperm).trans
    (List.Sublist.subperm ?_)
  refine List.monotone_filter_right rows fun r hr => ?_
  exact (Bool.and_eq_true_iff.1 hr).1

theorem fetchEntities_subperm {d : Derived} {t : Times} :
    (fetchEntitiesForNodes d t q cursor).1.Subperm (entityRows d t q) := by
  have htake {l : List EntityNodeRow} :
      ((l.take (graphEntityCap + 1)).take graphEntityCap).Subperm l :=
    ((List.take_sublist _ _).trans (List.take_sublist _ _)).subperm
  exact htake.trans (sortByKey_perm.subperm.trans List.filter_sublist.subperm)

end Fetch

section Staging

variable {s : Store} {d : Derived} {t : Times} {q : NodesQuery} {cursor : Option NodesCursor}

theorem staged_eq : staged s d t q cursor =
    (rowKinds.flatMap fun k => if k ∈ q.kinds then
      (fetchRows q cursor (q.pageLimit + 2) (catalogRows s d t k)).map (stageRow k) else []) ++
    if .entity ∈ q.kinds then (fetchEntitiesForNodes d t q cursor).1.map stageEntity else [] := by
  unfold staged
  simp only [rowKinds, List.flatMap_cons, List.flatMap_nil, List.append_nil, List.append_assoc]
  rfl

/-- The part of a kind is empty unless the kind is asked for. -/
theorem mem_requested {α β : Type} {p : Prop} [Decidable p] {l : List α} {f : α → β} {b : β} :
    b ∈ (if p then l.map f else []) ↔ p ∧ ∃ a ∈ l, f a = b := by
  rw [List.mem_ite_nil_right, List.mem_map]

theorem mem_staged {n : GraphNode} : n ∈ staged s d t q cursor ↔
    (∃ k ∈ rowKinds, k ∈ q.kinds ∧ ∃ r ∈ fetchRows q cursor (q.pageLimit + 2) (catalogRows s d t k),
      stageRow k r = n) ∨
      .entity ∈ q.kinds ∧ ∃ r ∈ (fetchEntitiesForNodes d t q cursor).1, stageEntity r = n := by
  rw [staged_eq, List.mem_append, List.mem_flatMap, mem_requested]
  exact or_congr_left (exists_congr fun k => and_congr_right fun _ => mem_requested)

theorem mem_listed {n : GraphNode} : n ∈ listed s d t q ↔
    (∃ k ∈ rowKinds, k ∈ q.kinds ∧ ∃ r ∈ catalogRows s d t k, inWindow q r.tsMs = true ∧
      stageRow k r = n) ∨ .entity ∈ q.kinds ∧ ∃ r ∈ entityRows d t q, stageEntity r = n := by
  unfold listed
  rw [List.mem_append, List.mem_flatMap, mem_requested]
  refine or_congr_left (exists_congr fun k => and_congr_right fun _ => ?_)
  rw [mem_requested]
  refine and_congr_right fun _ => exists_congr fun r => ?_
  rw [List.mem_filter, and_assoc]

theorem staged_subperm : (staged s d t q cursor).Subperm (listed s d t q) := by
  have hmap {α : Type} {f : α → GraphNode} {l l' : List α} (h : l.Subperm l') :
      (l.map f).Subperm (l'.map f) := by
    obtain ⟨m, hperm, hsub⟩ := h
    exact ⟨m.map f, hperm.map f, hsub.map f⟩
  have hkinds (ks : List NodeKind) : (ks.flatMap fun k => if k ∈ q.kinds then
      (fetchRows q cursor (q.pageLimit + 2) (catalogRows s d t k)).map (stageRow k) else []).Subperm
      (ks.flatMap fun k => if k ∈ q.kinds then
        ((catalogRows s d t k).filter fun r => inWindow q r.tsMs).map (stageRow k) else []) := by
    induction ks with
    | nil => exact List.Subperm.refl _
    | cons k ks ih =>
      rw [List.flatMap_cons, List.flatMap_cons]
      refine List.Subperm.append ?_ ih
      by_cases hk : k ∈ q.kinds
      · rw [if_pos hk, if_pos hk]
        exact hmap fetchRows_subperm
      · rw [if_neg hk, if_neg hk]
  rw [staged_eq]
  refine List.Subperm.append (hkinds rowKinds) ?_
  by_cases hk : .entity ∈ q.kinds
  · rw [if_pos hk, if_pos hk]
    exact hmap fetchEntities_subperm
  · rw [if_neg hk, if_neg hk]

/-- The key of a node tells its kind and the key of its row. -/
theorem stageRow_inj {k k' : NodeKind} {r r' : NodeRow}
    (h : nodeKey (stageRow k r) = nodeKey (stageRow k' r')) : k = k' ∧ r.key = r'.key := by
  obtain ⟨hts, hid⟩ := sortKey_inj h
  obtain ⟨hkind, hid⟩ := idPrefix_inj hid
  have hts : r.tsMs = r'.tsMs := hts
  exact ⟨hkind, by rw [NodeRow.key, NodeRow.key, hts, hid]⟩

theorem stageRow_eq_stageEntity {k : NodeKind} {r : NodeRow} {r' : EntityNodeRow}
    (h : nodeKey (stageRow k r) = nodeKey (stageEntity r')) : k = .entity :=
  (idPrefix_inj (sortKey_inj h).2).1

theorem nodup_entityKeys : (((entityRows d t q).map stageEntity).map nodeKey).Nodup := by
  unfold entityRows
  dsimp only
  rw [List.map_map, List.map_map]
  exact (List.nodup_dedup _).map fun v v' heq => (idPrefix_inj (sortKey_inj heq).2).2

/-- Within a kind rows have ids of their own, so nodes have keys of their own. -/
theorem nodup_listed
    (hids : ∀ k ∈ rowKinds, k ∈ q.kinds → ((catalogRows s d t k).map NodeRow.key).Nodup) :
    ((listed s d t q).map nodeKey).Nodup := by
  have hpart {k : NodeKind} (hk : k ∈ rowKinds) : ((if k ∈ q.kinds then
      ((catalogRows s d t k).filter fun r => inWindow q r.tsMs).map (stageRow k) else []).map
        nodeKey).Nodup := by
    by_cases hkinds : k ∈ q.kinds
    · rw [if_pos hkinds, List.map_map]
      refine List.pairwise_map.2
        ((List.pairwise_map.1 (hids k hk hkinds)).filter _ |>.imp fun {r r'} hne heq => ?_)
      exact hne (stageRow_inj heq).2
    · rw [if_neg hkinds]
      exact List.nodup_nil
  have hmem {k : NodeKind} {x : SortKey} (hx : x ∈ (if k ∈ q.kinds then
      ((catalogRows s d t k).filter fun r => inWindow q r.tsMs).map (stageRow k) else []).map
        nodeKey) :
      ∃ r, nodeKey (stageRow k r) = x := by
    obtain ⟨n, hn, rfl⟩ := List.mem_map.1 hx
    obtain ⟨-, r, -, rfl⟩ := mem_requested.1 hn
    exact ⟨r, rfl⟩
  unfold listed
  rw [List.map_append, List.map_flatMap, List.nodup_append]
  refine ⟨List.nodup_flatMap.2 ⟨fun _ hk => hpart hk, ?_⟩, ?_, ?_⟩
  · have hdistinct : rowKinds.Pairwise (· ≠ ·) := by decide
    refine hdistinct.imp fun {k k'} hne => ?_
    rintro x hx hx'
    obtain ⟨r, rfl⟩ := hmem hx
    obtain ⟨r', heq⟩ := hmem hx'
    exact hne (stageRow_inj heq.symm).1
  · by_cases hk : .entity ∈ q.kinds
    · rw [if_pos hk]
      exact nodup_entityKeys
    · rw [if_neg hk]
      exact List.nodup_nil
  · rintro x hx y hy rfl
    obtain ⟨k, hk, hx⟩ := List.mem_flatMap.1 hx
    obtain ⟨r, rfl⟩ := hmem hx
    obtain ⟨n, hn, hkey⟩ := List.mem_map.1 hy
    obtain ⟨-, r', -, rfl⟩ := mem_requested.1 hn
    obtain rfl := stageRow_eq_stageEntity hkey.symm
    exact absurd hk (by decide)

end Staging

/-! ### Walks -/

section Walks

variable {s : Store} {d : Derived} {t : Times} {q : NodesQuery} {cursor : Option NodesCursor}

/-- Rows of tables have ids of their own; a cluster is joined with its abstractions. -/
def OneAbstraction (d : Derived) : Prop :=
  ∀ c ∈ d.clusters, d.semanticAbstractions.rows.countP (·.clusterId = c.clusterId) ≤ 1

theorem nodup_map_key {rows : List NodeRow} (h : (rows.map (·.id)).Nodup) :
    (rows.map NodeRow.key).Nodup := by
  refine List.pairwise_map.2 ((List.pairwise_map.1 h).imp fun hne heq => hne ?_)
  exact (sortKey_inj heq).2

theorem nodup_catalogRows (hone : OneAbstraction d) (k : NodeKind) :
    ((catalogRows s d t k).map NodeRow.key).Nodup := by
  refine nodup_map_key ?_
  cases k with
  | episode =>
    simp only [catalogRows, episodeRows, List.map_map]
    refine List.pairwise_map.2 ((s.episodes.unique.filter _).imp fun {e e'} hfresh heq => ?_)
    have heq : e.memoryId = e'.memoryId := heq
    simp [Keyed.clash, heq] at hfresh
  | document =>
    simp only [catalogRows, documentRows, List.map_map]
    refine List.pairwise_map.2 ((s.documents.unique.filter _).imp fun {e e'} hfresh heq => ?_)
    have heq : e.docId = e'.docId := heq
    simp [Keyed.clash, heq] at hfresh
  | chunk =>
    simp only [catalogRows, chunkRows, List.map_map]
    refine List.pairwise_map.2 ((s.documentChunks.unique.filter _).imp fun {e e'} hfresh heq => ?_)
    have heq : e.chunkId = e'.chunkId := heq
    simp [Keyed.clash, heq] at hfresh
  | cluster =>
    have hsingle : clusterRows d = d.clusters.rows.map fun c => ⟨c.clusterId, c.createdAtMs⟩ := by
      unfold clusterRows
      rw [List.map_eq_flatMap]
      refine List.flatMap_congr fun c hc => ?_
      have hmax : max 1 (d.semanticAbstractions.rows.countP (·.clusterId = c.clusterId)) = 1 :=
        max_eq_left (hone c hc)
      rw [hmax]
      rfl
    simp only [catalogRows, hsingle, List.map_map]
    refine List.pairwise_map.2 (d.clusters.unique.imp fun {e e'} hfresh heq => ?_)
    have heq : e.clusterId = e'.clusterId := heq
    simp [Keyed.clash, heq] at hfresh
  | entity => exact List.nodup_nil

theorem nodup_staged
    (hids : ∀ k ∈ rowKinds, k ∈ q.kinds → ((catalogRows s d t k).map NodeRow.key).Nodup) :
    ((staged s d t q cursor).map nodeKey).Nodup := by
  have hsubperm : (staged s d t q cursor).Subperm (listed s d t q) := staged_subperm
  obtain ⟨l, hperm, hsub⟩ := hsubperm
  exact (hperm.map nodeKey).nodup_iff.1 ((hsub.map nodeKey).nodup (nodup_listed hids))

/-- What a request may be answered with while the tables change. -/
def NodesAnswer (q : NodesQuery) (cursor : Option NodesCursor) (p : Page GraphNode SortKey) :
    Prop :=
  ∃ s d t capped, OneAbstraction d ∧ graphNodesHandler s d t q cursor = .ok (p, capped)

theorem graphNodesHandler_eq_ok {p : Page GraphNode SortKey} {capped : Bool}
    (h : graphNodesHandler s d t q cursor = .ok (p, capped)) : p = nodesPage s d t q cursor := by
  unfold graphNodesHandler at h
  split at h
  · cases h
  · exact (congrArg Prod.fst (Except.ok.inj h)).symm

/-- The nodes of a walk ascend even if rows come and go between its requests. An entity to which an
older reference is added may be listed again, at the place that its new time gives it; nothing is
listed again at a time it had. -/
theorem nodesWalk_ascends {pages : List (List GraphNode)}
    (hwalk : Walk (NodesAnswer q) cursor pages) :
    (pages.flatten.Pairwise fun a b => nodeKey a < nodeKey b) ∧
    (∀ n ∈ pages.flatten, Behind cursor (nodeKey n)) ∧
      pages.flatten.Pairwise fun a b => a.id = b.id → b.tsMs < a.tsMs := by
  have hanswers (c : Option NodesCursor) (p : Page GraphNode SortKey) (hp : NodesAnswer q c p) :
      ∃ l, (l.map nodeKey).Nodup ∧ p = pageOf nodeKey q.pageLimit c l := by
    obtain ⟨s, d, t, capped, hone, hp⟩ := hp
    exact ⟨staged s d t q c, nodup_staged fun k _ _ => nodup_catalogRows hone k,
      graphNodesHandler_eq_ok hp⟩
  obtain ⟨hascends, hbehind⟩ := hwalk.pairwise_lt hanswers
  refine ⟨hascends, hbehind, hascends.imp fun {a b} hlt hid => ?_⟩
  rcases sortKey_lt.1 hlt with hlater | ⟨-, hless⟩
  · exact hlater
  · exact absurd (hid ▸ hless) (lt_irrefl _)

/-- The rows that share the time of the cursor and have been listed before it: the `SELECT` returns
them again. -/
def listedBefore (s : Store) (d : Derived) (t : Times) (q : NodesQuery)
    (cursor : Option NodesCursor) (k : NodeKind) : List NodeRow :=
  (catalogRows s d t k).filter fun r =>
    (inWindow q r.tsMs && notNewer cursor r.tsMs) &&
      !decide (Behind cursor (nodeKey (stageRow k r)))

/-- If times tell the rows apart, that is the cursor's own row at most. -/
theorem length_listedBefore_le {k : NodeKind}
    (hapart : ((catalogRows s d t k).map (·.tsMs)).Nodup) :
    (listedBefore s d t q cursor k).length ≤ 1 := by
  have hshared {r : NodeRow} (hr : r ∈ listedBefore s d t q cursor k) :
      notNewer cursor r.tsMs = true ∧ ¬ Behind cursor (nodeKey (stageRow k r)) := by
    have hboth := Bool.and_eq_true_iff.1 (List.mem_filter.1 hr).2
    exact ⟨(Bool.and_eq_true_iff.1 hboth.1).2, of_decide_eq_false (Bool.not_eq_true' _ ▸ hboth.2)⟩
  have htimes : ((listedBefore s d t q cursor k).map (·.tsMs)).Nodup :=
    hapart.sublist (List.filter_sublist.map _)
  cases cursor with
  | none =>
    cases h : listedBefore s d t q none k with
    | nil => exact Nat.zero_le 1
    | cons r rows => exact absurd behind_none (hshared (h ▸ List.mem_cons_self)).2
  | some c =>
    have hsame : (listedBefore s d t q (some c) k).map (·.tsMs) =
        List.replicate (listedBefore s d t q (some c) k).length (OrderDual.ofDual (ofLex c).1) := by
      refine (List.eq_replicate_of_mem fun x hx => ?_).trans (by rw [List.length_map])
      obtain ⟨r, hr, rfl⟩ := List.mem_map.1 hx
      exact tsMs_eq_of_not_behind (hshared hr).1 (hshared hr).2
    rw [hsame] at htimes
    exact List.nodup_replicate.1 htimes

theorem nodeRow_key_inj {a b : NodeRow} (h : a.key = b.key) : a = b := by
  obtain ⟨hts, hid⟩ := sortKey_inj h
  cases a
  cases b
  exact congrArg₂ NodeRow.mk hid hts

/-- Of the rows that a page needs the `SELECT` returns all, if one row at most takes the second of
the two places beyond the page, or if there are no more rows than places. -/
theorem mem_fetchRows {k : NodeKind} {r : NodeRow} (hk : k ∈ rowKinds) (hkinds : k ∈ q.kinds)
    (hroom : (listedBefore s d t q cursor k).length ≤ 1 ∨
      (catalogRows s d t k).length ≤ q.pageLimit + 2)
    (hr : r ∈ catalogRows s d t k) (hwindow : inWindow q r.tsMs = true)
    (hwithin :
      Within nodeKey (q.pageLimit + 1) ((listed s d t q).filter fun n => Behind cursor (nodeKey n))
      (stageRow k r)) :
    r ∈ fetchRows q cursor (q.pageLimit + 2) (catalogRows s d t k) := by
  obtain ⟨hmem, hfew⟩ := hwithin
  have hbehind : Behind cursor (nodeKey (stageRow k r)) :=
    of_decide_eq_true (List.mem_filter.1 hmem).2
  have hselect : (inWindow q r.tsMs && notNewer cursor r.tsMs) = true := by
    rw [hwindow, Bool.true_and]
    exact notNewer_of_behind hbehind
  rcases hroom with hone | hfits
  rotate_left
  · unfold fetchRows
    rw [List.take_of_length_le
      ((sortByKey_perm.length_eq.trans_le (List.length_filter_le _ _)).trans hfits)]
    exact sortByKey_perm.mem_iff.2 (List.mem_filter.2 ⟨hr, hselect⟩)
  refine (mem_take_sortByKey fun a _ b _ hab => ?_).2 ⟨List.mem_filter.2 ⟨hr, hselect⟩, ?_⟩
  · exact nodeRow_key_inj hab
  · let selected :=
      (catalogRows s d t k).filter fun r => inWindow q r.tsMs && notNewer cursor r.tsMs
    let behind? (r' : NodeRow) : Bool := Behind cursor (nodeKey (stageRow k r'))
    let earlier := selected.filter (·.key < r.key)
    have hsplit : earlier.length = (earlier.filter fun r' => !behind? r').length +
        (earlier.filter behind?).length := by
      rw [Nat.add_comm]
      exact List.length_eq_length_filter_add _
    have hlisted : (earlier.filter behind?).length ≤ ((((catalogRows s d t k).filter fun r =>
        inWindow q r.tsMs).map (stageRow k)).filter fun n => Behind cursor (nodeKey n)).countP
          (nodeKey · < nodeKey (stageRow k r)) := by
      rw [List.filter_map, List.countP_map, List.countP_filter, List.countP_filter,
        List.filter_filter, List.filter_filter, ← List.countP_eq_length_filter]
      refine List.countP_mono_left fun r' _ hr' => ?_
      simp only [Bool.and_eq_true, decide_eq_true_eq, Function.comp_apply, behind?] at hr' ⊢
      exact ⟨⟨nodeKey_stageRow_lt.2 hr'.1.2, hr'.1.1⟩, hr'.2.1⟩
    have hsub : (((catalogRows s d t k).filter fun r => inWindow q r.tsMs).map (stageRow k)).Sublist
        (listed s d t q) := by
      refine List.Sublist.trans ?_ (List.sublist_append_left _ _)
      have hpart :=
        List.sublist_flatten_of_mem (List.mem_map_of_mem (f := fun k => if k ∈ q.kinds then
        ((catalogRows s d t k).filter fun r => inWindow q r.tsMs).map (stageRow k) else []) hk)
      rwa [if_pos hkinds] at hpart
    have hcount := (hsub.filter fun n => Behind cursor (nodeKey n)).countP_le
      (p := (nodeKey · < nodeKey (stageRow k r)))
    have hagain : (earlier.filter fun r' => !behind? r').length ≤ 1 := by
      refine le_trans ?_ hone
      have hselected : (selected.filter fun r' => !behind? r') = listedBefore s d t q cursor k := by
        rw [List.filter_filter]
        exact List.filter_congr fun r' _ => Bool.and_comm _ _
      rw [← hselected]
      exact (List.filter_sublist.filter _).length_le
    rw [List.countP_eq_length_filter (l := List.filter _ (listed s d t q))] at hcount
    change earlier.length < _
    omega

theorem mem_fetchEntities {r : EntityNodeRow} (hcap : (entityRows d t q).length ≤ graphEntityCap)
    (hr : r ∈ entityRows d t q) (hbehind : Behind cursor (nodeKey (stageEntity r))) :
    r ∈ (fetchEntitiesForNodes d t q cursor).1 := by
  have hfilter : ((entityRows d t q).filter fun r => notNewer cursor r.firstSeenMs).length ≤
      graphEntityCap :=
    (List.length_filter_le _ _).trans hcap
  unfold fetchEntitiesForNodes
  dsimp only
  rw [List.take_take, List.take_of_length_le, sortByKey_perm.mem_iff]
  · exact List.mem_filter.2 ⟨hr, notNewer_of_behind hbehind⟩
  · rw [sortByKey_perm.length_eq]
    omega

theorem NodesQuery.pageLimit_pos : 0 < q.pageLimit := by
  unfold NodesQuery.pageLimit
  omega

/-- Rows that walks list: their times tell them apart, or a request for `n` of them selects them
all. -/
def Listable (n : ℕ) (rows : List NodeRow) : Prop :=
  (rows.map (·.tsMs)).Nodup ∨ (rows.map NodeRow.key).Nodup ∧ rows.length ≤ n

theorem Listable.nodup {n : ℕ} {rows : List NodeRow} (h : Listable n rows) :
    (rows.map NodeRow.key).Nodup := by
  rcases h with hapart | ⟨hids, -⟩
  · exact List.pairwise_map.2
      ((List.pairwise_map.1 hapart).imp fun hne heq => hne (sortKey_inj heq).1)
  · exact hids

theorem nodesPage_eq_pageOf
    (hrows : ∀ k ∈ rowKinds, k ∈ q.kinds → Listable (q.pageLimit + 2) (catalogRows s d t k))
    (hcap : .entity ∈ q.kinds → (entityRows d t q).length ≤ graphEntityCap) :
    nodesPage s d t q cursor = pageOf nodeKey q.pageLimit cursor (listed s d t q) := by
  have hids (k : NodeKind) (hk : k ∈ rowKinds) (hkinds : k ∈ q.kinds) :
      ((catalogRows s d t k).map NodeRow.key).Nodup := (hrows k hk hkinds).nodup
  have hroom (k : NodeKind) (hk : k ∈ rowKinds) (hkinds : k ∈ q.kinds) :
      (listedBefore s d t q cursor k).length ≤ 1 ∨ (catalogRows s d t k).length ≤ q.pageLimit + 2 :=
    (hrows k hk hkinds).imp length_listedBefore_le fun h => h.2
  have hdistinct := nodup_listed hids
  refine pageOf_eq_of_kept q.pageLimit_pos ?_ (List.Nodup.of_map _ hdistinct)
    (List.Nodup.of_map _ (nodup_staged hids)) (fun n hn _ => staged_subperm.subset hn)
    fun n hwithin => ?_
  · exact fun a ha b hb hab => List.inj_on_of_nodup_map hdistinct ha hb hab
  · obtain ⟨hn, hbehind⟩ := List.mem_filter.1 hwithin.1
    rcases mem_listed.1 hn with ⟨k, hk, hkinds, r, hr, hwindow, rfl⟩ | ⟨hkinds, r, hr, rfl⟩
    · exact mem_staged.2
        (.inl ⟨k, hk, hkinds, r, mem_fetchRows hk hkinds (hroom k hk hkinds) hr hwindow hwithin,
          rfl⟩)
    · exact mem_staged.2
        (.inr ⟨hkinds, r, mem_fetchEntities (hcap hkinds) hr (of_decide_eq_true hbehind), rfl⟩)

/-- Where times tell the rows of a kind apart, or one request selects them all, walks from the start
end, and list all nodes, newest first. -/
theorem nodesWalk_lists
    (hrows : ∀ k ∈ rowKinds, k ∈ q.kinds → Listable (q.pageLimit + 2) (catalogRows s d t k))
    (hcap : .entity ∈ q.kinds → (entityRows d t q).length ≤ graphEntityCap) :
    (∃ pages, Walk (fun c p => p = nodesPage s d t q c) none pages) ∧
      ∀ pages, Walk (fun c p => p = nodesPage s d t q c) none pages →
        pages.flatten = sortByKey nodeKey (listed s d t q) := by
  have hpage (c : Option NodesCursor) :
      nodesPage s d t q c = pageOf nodeKey q.pageLimit c (listed s d t q) :=
    nodesPage_eq_pageOf hrows hcap
  simp only [hpage]
  exact walk_pageOf (nodup_listed fun k hk hkinds => (hrows k hk hkinds).nodup) q.pageLimit_pos

def episodeAt (n : Fin 8) (m : MemoryId) (ts : Int) : EpisodeRow :=
  ⟨⟨n, by omega⟩, m, ts, .hot, .active, none⟩

/-- Four episodes, the second of which is as old as the first where `ts` is 5. -/
def fourEpisodes (ts : Int) : Store :=
  { Store.empty with
    episodes := ⟨[episodeAt 1 "a" 5, episodeAt 2 "b" ts, episodeAt 3 "c" 3, episodeAt 4 "d" 2],
      by simp [Keyed.clash, episodeAt, Rowid.ext_iff]⟩ }

def onePerPage : NodesQuery := ⟨[.episode], none, none, some 1⟩

def noTimes : Times := ⟨fun _ => 0, fun _ => 0, fun _ => 0, fun _ => 0⟩

theorem oneAbstraction_empty : OneAbstraction .empty := fun _ hc => absurd hc List.not_mem_nil

theorem listable_fourEpisodes (k : NodeKind) (hk : k ∈ rowKinds) :
    Listable (onePerPage.pageLimit + 2) (catalogRows (fourEpisodes 4) .empty noTimes k) := by
  refine .inl ?_
  simp only [rowKinds, List.mem_cons, List.not_mem_nil, or_false] at hk
  rcases hk with rfl | rfl | rfl | rfl <;> decide

theorem nodesWalk_lists_fourEpisodes :
    (∃ pages, Walk (fun c p => p = nodesPage (fourEpisodes 4) .empty noTimes onePerPage c)
      none pages) ∧
      ∀ pages, Walk (fun c p => p = nodesPage (fourEpisodes 4) .empty noTimes onePerPage c)
      none pages →
        pages.flatten = sortByKey nodeKey (listed (fourEpisodes 4) .empty noTimes onePerPage) :=
  nodesWalk_lists (fun k hk _ => listable_fourEpisodes k hk) fun h => absurd h (by decide)

theorem nodesWalk_ascends_fourEpisodes : ∃ pages : List (List GraphNode),
    Walk (NodesAnswer onePerPage) none pages ∧
    pages.flatten.Pairwise fun a b => nodeKey a < nodeKey b := by
  have hwalks : ∃ pages, Walk (fun c p => p = pageOf nodeKey onePerPage.pageLimit c
      (listed (fourEpisodes 4) .empty noTimes onePerPage)) none pages :=
    (walk_pageOf (nodup_listed fun k hk _ => (listable_fourEpisodes k hk).nodup)
      onePerPage.pageLimit_pos).1
  obtain ⟨pages, hwalk⟩ := hwalks
  have hanswers : Walk (NodesAnswer onePerPage) none pages := hwalk.imp fun c p hp => by
    refine ⟨fourEpisodes 4, .empty, noTimes, false, oneAbstraction_empty, ?_⟩
    rw [hp, ← nodesPage_eq_pageOf (fun k hk _ => listable_fourEpisodes k hk) fun h =>
      absurd h (by decide)]
    rfl
  exact ⟨pages, hanswers, (nodesWalk_ascends hanswers).1⟩

end Walks

/-! ### Queries of one kind of row -/

section OneKind

variable {s : Store} {d : Derived} {t : Times} {q : NodesQuery} {cursor : Option NodesCursor}
  {k : NodeKind}

/-- The rows that the catalog still has to list. -/
def toList (s : Store) (d : Derived) (t : Times) (q : NodesQuery) (cursor : Option NodesCursor)
    (k : NodeKind) : List NodeRow :=
  (catalogRows s d t k).filter fun r => inWindow q r.tsMs &&
    decide (Behind cursor (nodeKey (stageRow k r)))

theorem listed_of_single (hk : k ∈ rowKinds) (hq : q.kinds = [k]) :
    listed s d t q = ((catalogRows s d t k).filter fun r => inWindow q r.tsMs).map
    (stageRow k) := by
  unfold listed
  rw [hq]
  cases k <;> simp [rowKinds] at hk ⊢

theorem staged_of_single (hk : k ∈ rowKinds) (hq : q.kinds = [k]) :
    staged s d t q cursor = (fetchRows q cursor (q.pageLimit + 2) (catalogRows s d t k)).map
    (stageRow k) := by
  rw [staged_eq, hq]
  cases k <;> simp [rowKinds] at hk ⊢

/-- The `SELECT` returns the rows listed before, then those to list. -/
theorem fetchRows_eq {n : ℕ} : fetchRows q cursor n (catalogRows s d t k) =
    (sortByKey NodeRow.key (listedBefore s d t q cursor k) ++
      sortByKey NodeRow.key (toList s d t q cursor k)).take n := by
  unfold fetchRows
  refine congrArg _ (eq_sortByKey ?_ ?_ fun a _ b _ => nodeRow_key_inj).symm
  · have hpart := List.filter_append_perm (fun r => decide (Behind cursor (nodeKey (stageRow k r))))
      ((catalogRows s d t k).filter fun r => inWindow q r.tsMs && notNewer cursor r.tsMs)
    rw [List.filter_filter, List.filter_filter] at hpart
    refine (List.Perm.append sortByKey_perm sortByKey_perm).trans
      (List.perm_append_comm.trans (.trans (.of_eq ?_) hpart))
    refine congrArg₂ _ (List.filter_congr fun r _ => ?_)
      (List.filter_congr fun r _ => Bool.and_comm _ _)
    by_cases hbehind : Behind cursor (nodeKey (stageRow k r))
    · have hnew : notNewer cursor r.tsMs = true := notNewer_of_behind hbehind
      rw [hnew, Bool.and_true, Bool.and_comm]
    · rw [decide_eq_false hbehind, Bool.and_false, Bool.false_and]
  · refine List.pairwise_append.2 ⟨pairwise_sortByKey, pairwise_sortByKey, fun a ha b hb => ?_⟩
    have hbefore := (List.mem_filter.1 (sortByKey_perm.mem_iff.1 ha)).2
    have hbehind := (List.mem_filter.1 (sortByKey_perm.mem_iff.1 hb)).2
    simp only [Bool.and_eq_true, Bool.not_eq_true', decide_eq_false_iff_not, decide_eq_true_eq]
      at hbefore hbehind
    refine le_of_not_gt fun hlt => hbefore.2 fun c hc => ?_
    exact (hbehind.2 c hc).trans (nodeKey_stageRow_lt.2 hlt)

theorem sortByKey_stageRow {rows : List NodeRow} :
    sortByKey nodeKey (rows.map (stageRow k)) = (sortByKey NodeRow.key rows).map (stageRow k) := by
  rw [sortByKey_map]
  refine congrArg _
    (eq_sortByKey sortByKey_perm (pairwise_sortByKey.imp fun hle => ?_) fun a _ b _ =>
      nodeRow_key_inj)
  exact not_lt.1 fun hlt => hle.not_gt (nodeKey_stageRow_lt.2 hlt)

theorem pageOf_of_single (hk : k ∈ rowKinds) (hq : q.kinds = [k]) :
    pageOf nodeKey q.pageLimit cursor (listed s d t q) =
      cut nodeKey q.pageLimit
      ((sortByKey NodeRow.key (toList s d t q cursor k)).map (stageRow k)) := by
  have htoList :
      toList s d t q cursor k = ((catalogRows s d t k).filter fun r => inWindow q r.tsMs).filter
      fun r => decide (Behind cursor (nodeKey (stageRow k r))) := by
    rw [List.filter_filter]
    exact List.filter_congr fun r _ => Bool.and_comm _ _
  unfold pageOf
  rw [listed_of_single hk hq, List.filter_map, sortByKey_stageRow, htoList]
  rfl

/-- A page shows the first rows to list, less those that the rows listed before have displaced. -/
theorem nodesPage_of_single (hk : k ∈ rowKinds) (hq : q.kinds = [k]) : nodesPage s d t q cursor =
    cut nodeKey q.pageLimit
    (((sortByKey NodeRow.key (toList s d t q cursor k)).map (stageRow k)).take
      (q.pageLimit + 2 - (listedBefore s d t q cursor k).length)) := by
  unfold nodesPage pageOf
  rw [staged_of_single hk hq, fetchRows_eq, List.take_append, sortByKey_perm.length_eq,
    List.filter_map, List.filter_append, ← List.map_take]
  have hbefore :
      ((sortByKey NodeRow.key (listedBefore s d t q cursor k)).take (q.pageLimit + 2)).filter
      ((fun n => decide (Behind cursor (nodeKey n))) ∘ stageRow k) = [] := by
    refine List.filter_eq_nil_iff.2 fun r hr => ?_
    have hmem := (List.mem_filter.1 (sortByKey_perm.mem_iff.1 (List.mem_of_mem_take hr))).2
    rw [Bool.and_eq_true, Bool.not_eq_true', decide_eq_false_iff_not] at hmem
    exact fun hbehind => hmem.2 (of_decide_eq_true hbehind)
  have hrest : ((sortByKey NodeRow.key (toList s d t q cursor k)).take
      (q.pageLimit + 2 - (listedBefore s d t q cursor k).length)).filter
        ((fun n => decide (Behind cursor (nodeKey n))) ∘ stageRow k) =
      (sortByKey NodeRow.key (toList s d t q cursor k)).take
        (q.pageLimit + 2 - (listedBefore s d t q cursor k).length) := by
    refine List.filter_eq_self.2 fun r hr => ?_
    exact (Bool.and_eq_true_iff.1
      (List.mem_filter.1 (sortByKey_perm.mem_iff.1 (List.mem_of_mem_take hr))).2).2
  rw [hbefore, hrest, List.nil_append, sortByKey_stageRow]
  have hsorted : (sortByKey NodeRow.key (toList s d t q cursor k)).Pairwise fun a b =>
      a.key ≤ b.key :=
    pairwise_sortByKey
  refine congrArg (fun l : List NodeRow => cut nodeKey q.pageLimit (l.map (stageRow k))) ?_
  exact (eq_sortByKey (.refl _) (hsorted.sublist (List.take_sublist _ _)) fun a _ b _ =>
    nodeRow_key_inj).symm

/-- A page is right exactly if it has room for what is to list beside what was listed before, of
which one row does no harm. If not, it is short, and yet the last one. -/
theorem nodesPage_eq_iff (cursor : Option NodesCursor) (hk : k ∈ rowKinds) (hq : q.kinds = [k]) :
    (nodesPage s d t q cursor = pageOf nodeKey q.pageLimit cursor (listed s d t q) ↔
      (listedBefore s d t q cursor k).length ≤ 1 ∨
        (toList s d t q cursor k).length ≤ q.pageLimit + 2 -
          (listedBefore s d t q cursor k).length) ∧
    (nodesPage s d t q cursor ≠ pageOf nodeKey q.pageLimit cursor (listed s d t q) →
      (nodesPage s d t q cursor).next = none ∧
        (nodesPage s d t q cursor).items.length < (toList s d t q cursor k).length) := by
  have hlength : ((sortByKey NodeRow.key (toList s d t q cursor k)).map (stageRow k)).length =
      (toList s d t q cursor k).length := by rw [List.length_map, sortByKey_perm.length_eq]
  have hroom : q.pageLimit < q.pageLimit + 2 - (listedBefore s d t q cursor k).length ↔
      (listedBefore s d t q cursor k).length ≤ 1 := by omega
  have hiff : nodesPage s d t q cursor = pageOf nodeKey q.pageLimit cursor (listed s d t q) ↔
      (listedBefore s d t q cursor k).length ≤ 1 ∨
        (toList s d t q cursor k).length ≤ q.pageLimit + 2 -
        (listedBefore s d t q cursor k).length := by
    rw [nodesPage_of_single hk hq, pageOf_of_single hk hq, cut_take_eq_iff q.pageLimit_pos, hroom,
      hlength]
  refine ⟨hiff, fun hne => ?_⟩
  rw [Ne, hiff, not_or, not_le, not_le] at hne
  rw [nodesPage_of_single hk hq]
  have hfull : q.pageLimit + 2 - (listedBefore s d t q cursor k).length ≤ q.pageLimit := by omega
  have hrest : q.pageLimit + 2 - (listedBefore s d t q cursor k).length ≤
      ((sortByKey NodeRow.key (toList s d t q cursor k)).map (stageRow k)).length := by
    rw [hlength]
    exact hne.2.le
  refine ⟨(cut_take_of_le hfull hrest).1, ?_⟩
  rw [(cut_take_of_le hfull hrest).2]
  exact hne.2

/-- The first two episodes share their time. A page behind the second lists the third and ends the
walk. -/
theorem nodesPage_fourEpisodes :
    nodesPage (fourEpisodes 5) .empty noTimes onePerPage (some (sortKey 5 "ep:b")) ≠
        pageOf nodeKey 1 (some (sortKey 5 "ep:b"))
        (listed (fourEpisodes 5) .empty noTimes onePerPage) ∧
      (nodesPage (fourEpisodes 5) .empty noTimes onePerPage (some (sortKey 5 "ep:b"))).next =
      none := by
  have hiff := nodesPage_eq_iff (s := fourEpisodes 5) (d := .empty) (t := noTimes) (q := onePerPage)
    (k := .episode) (some (sortKey 5 "ep:b")) (by decide) rfl
  have hne := mt hiff.1.1 (by decide)
  exact ⟨hne, (hiff.2 hne).1⟩

end OneKind

end Solo.Catalog
