import Solo.Api.GraphNodes
import Solo.Lib.Slug

/-!
# The edge catalog (`http.rs`, `graph_edges_handler`)

Relationship edges between entities, with the triples that the graph does not know in their place;
chunks of documents; members of clusters. Up to `safetyCap` rows of each are selected whatever the
cursor, filtered by the focus, sorted by kind and row and cut to the page. So walks list each
selected edge once (`edgesWalk_lists`). Walks over the nodes list both ends of every edge, where
they list all nodes (`endpoints_listed`).
-/

namespace Solo.Catalog

open Keyset StableSort

inductive EdgeKind
  | triple | documentChunk | clusterMember
  deriving DecidableEq

namespace EdgeKind

def orderIdx : EdgeKind → ℕ
  | .triple => 0
  | .documentChunk => 1
  | .clusterMember => 2

def asStr : EdgeKind → String
  | .triple => "triple"
  | .documentChunk => "document_chunk"
  | .clusterMember => "cluster_member"

end EdgeKind

structure EdgeRowRelationship where
  edgeId : TripleId
  evidenceMemoryId : Option MemoryId
  subjectId : EntityId
  objectId : EntityId
  predicate : String
  confidence : Float32
  strength : Float32
  evidenceCount : ℕ
  validFromMs : Int
  validToMs : Option Int

/-- An edge; `edgeMeta` is the row of a relationship. -/
structure GraphEdge where
  id : String
  source : String
  target : String
  kind : EdgeKind
  weight : Option Float32
  edgeMeta : Option EdgeRowRelationship

structure StagingEdge where
  edge : GraphEdge
  kindIdx : ℕ
  subId : String

/-- `kind_idx ASC, sub_id ASC`. -/
abbrev EdgeSortKey := ℕ ×ₗ String

def edgeKey (e : StagingEdge) : EdgeSortKey := toLex (e.kindIdx, e.subId)

/-- The query, with its kinds, its focus and its cursor parsed. -/
structure EdgesQuery where
  kinds : List EdgeKind
  focus : Option (NodeKind × String)
  asOfMs : Option Int
  limit : Option ℕ

def EdgesQuery.pageLimit (q : EdgesQuery) : ℕ := max 1 (min (q.limit.getD 200) 2000)

def edgeId (source kind target : String) : String := source ++ "--" ++ kind ++ "--" ++ target

/-- `edge_touches_focus`. -/
def edgeTouchesFocus (kind : EdgeKind) (focusKind : NodeKind)
    (focusValue srcValue tgtValue : String) (extraValue : Option String) : Bool :=
  match kind, focusKind with
  | .triple, .episode => srcValue = focusValue
  | .triple, .entity => tgtValue = focusValue || extraValue = some focusValue ||
    srcValue = focusValue
  | .documentChunk, .document => srcValue = focusValue
  | .documentChunk, .chunk => tgtValue = focusValue
  | .clusterMember, .cluster => srcValue = focusValue
  | .clusterMember, .episode => tgtValue = focusValue
  | _, _ => false

/-! ### The rows -/

def safetyCap : ℕ := 2000 * 4

def validAt (asOfMs : Option Int) (validFromMs : Int) (validToMs : Option Int) : Bool :=
  asOfMs.all fun t => validFromMs ≤ t && validToMs.all (t < ·)

/-- `extraction_confidence DESC, created_at_ms DESC, evidence_id ASC`. -/
def evidenceBefore (t : Times) (a b : EvidenceRow) : Bool :=
  b.extractionConfidence < a.extractionConfidence ||
    a.extractionConfidence == b.extractionConfidence &&
    (t.evidenceCreatedAtMs b.evidenceId < t.evidenceCreatedAtMs a.evidenceId ||
      t.evidenceCreatedAtMs a.evidenceId = t.evidenceCreatedAtMs b.evidenceId &&
        a.evidenceId < b.evidenceId)

def bestEvidence (d : Derived) (t : Times) (edgeId : TripleId) : Option EvidenceRow :=
  let rows := d.relationshipEvidence.rows.filter (·.edgeId = edgeId)
  rows.find? fun a => !rows.any fun b => evidenceBefore t b a

def episodeOfRow (s : Store) (rowid : Option Rowid) : Option MemoryId :=
  rowid.bind fun r => (s.episodes.rows.find? (·.rowid = r)).map (·.memoryId)

/-- Some evidence of the edge is of the episode. -/
def evidencedBy (s : Store) (d : Derived) (edgeId : TripleId) (m : MemoryId) : Bool :=
  d.relationshipEvidence.rows.any fun ev =>
    ev.edgeId = edgeId && (ev.memoryId = some m || episodeOfRow s ev.sourceEpisodeId = some m)

/-- A row of `relationship_rows`, from that of `relationship_edges`. -/
def relationshipRow? (s : Store) (d : Derived) (t : Times) (asOfMs : Option Int)
    (focusEpisodeId : Option MemoryId) (e : EdgeRow) : Option EdgeRowRelationship :=
  match e.object with
  | .entity objectId =>
    if e.status = .active && validAt asOfMs e.validFromMs e.validToMs &&
      focusEpisodeId.all (evidencedBy s d e.edgeId) then
      some ⟨e.edgeId, (bestEvidence d t e.edgeId).bind (·.memoryId), e.subjectEntityId, objectId,
        e.predicate, e.confidence, e.strength, e.evidenceCount, e.validFromMs, e.validToMs⟩
    else none
  | .literal _ => none

def relationshipRows (s : Store) (d : Derived) (t : Times) (asOfMs : Option Int)
    (focusEpisodeId : Option MemoryId) : List EdgeRowRelationship :=
  d.relationshipEdges.rows.filterMap (relationshipRow? s d t asOfMs focusEpisodeId)

def fallbackTripleRows (s : Store) (d : Derived) (asOfMs : Option Int)
    (focusEpisodeId : Option MemoryId) : List EdgeRowRelationship :=
  let rows := (fallbackTriples d).filter fun t => t.objectKind = .entity &&
    validAt asOfMs t.validFromMs t.validToMs &&
    focusEpisodeId.all fun m => decide (episodeOfRow s t.sourceEpisodeId = some m)
  rows.map fun t =>
  ⟨t.tripleId, episodeOfRow s t.sourceEpisodeId, t.subjectId, t.objectId, t.predicate, t.confidence,
    t.confidence, 1, t.validFromMs, t.validToMs⟩

def tripleEdgeRows (s : Store) (d : Derived) (t : Times) (asOfMs : Option Int)
    (focusEpisodeId : Option MemoryId) : List EdgeRowRelationship :=
  relationshipRows s d t asOfMs focusEpisodeId ++ fallbackTripleRows s d asOfMs focusEpisodeId

def fetchTripleEdges (s : Store) (d : Derived) (t : Times) (asOfMs : Option Int)
    (focusEpisodeId : Option MemoryId) : List EdgeRowRelationship :=
  (sortByKey (·.edgeId) (tripleEdgeRows s d t asOfMs focusEpisodeId)).take safetyCap

def fetchDocumentChunkEdges (s : Store) : List ChunkRow :=
  (sortByKey (·.chunkId) (s.documentChunks.rows.filter s.chunkActive)).take safetyCap

def memberRows (s : Store) (d : Derived) : List ClusterEpisodeRow :=
  d.clusterEpisodes.rows.filter fun ce => s.episodes.rows.any fun e => e.memoryId = ce.memoryId &&
    e.status = .active

def fetchClusterMemberEdges (s : Store) (d : Derived) : List ClusterEpisodeRow :=
  (sortByKey (fun ce => toLex (ce.clusterId, ce.memoryId)) (memberRows s d)).take safetyCap

/-! ### A page -/

def graphEdge (kind : EdgeKind) (source target : String) (weight : Option Float32)
    (row : Option EdgeRowRelationship) :
    GraphEdge :=
  ⟨edgeId source kind.asStr target, source, target, kind, weight, row⟩

def stageTriple (t : EdgeRowRelationship) : StagingEdge :=
  ⟨graphEdge .triple ("ent:" ++ t.subjectId) ("ent:" ++ t.objectId) (some t.confidence) (some t),
    EdgeKind.triple.orderIdx, t.edgeId⟩

def stageChunk (c : ChunkRow) : StagingEdge :=
  ⟨graphEdge .documentChunk ("doc:" ++ c.docId) ("chunk:" ++ c.chunkId) none none,
    EdgeKind.documentChunk.orderIdx, c.chunkId⟩

def stageMember (m : ClusterEpisodeRow) : StagingEdge :=
  ⟨graphEdge .clusterMember ("cl:" ++ m.clusterId) ("ep:" ++ m.memoryId) none none,
    EdgeKind.clusterMember.orderIdx, m.clusterId ++ "\u001f" ++ m.memoryId⟩

/-- The episode of the focus, if it is one. -/
def EdgesQuery.focusEpisodeId (q : EdgesQuery) : Option MemoryId :=
  q.focus.bind fun (kind, value) => if kind = .episode then some value else none

def tripleInFocus (q : EdgesQuery) (t : EdgeRowRelationship) : Bool :=
  q.focus.all fun (fk, fv) =>
    let source := if fk = .episode then fv else t.evidenceMemoryId.getD ""
    edgeTouchesFocus .triple fk fv source t.objectId (some t.subjectId)

def chunkInFocus (q : EdgesQuery) (c : ChunkRow) : Bool :=
  q.focus.all fun (fk, fv) => edgeTouchesFocus .documentChunk fk fv c.docId c.chunkId none

def memberInFocus (q : EdgesQuery) (m : ClusterEpisodeRow) : Bool :=
  q.focus.all fun (fk, fv) => edgeTouchesFocus .clusterMember fk fv m.clusterId m.memoryId none

def stagedEdges (s : Store) (d : Derived) (t : Times) (q : EdgesQuery) : List StagingEdge :=
  (if .triple ∈ q.kinds then
    ((fetchTripleEdges s d t q.asOfMs q.focusEpisodeId).filter (tripleInFocus q)).map stageTriple
      else []) ++
  (if .documentChunk ∈ q.kinds then ((fetchDocumentChunkEdges s).filter (chunkInFocus q)).map
    stageChunk else []) ++
  if .clusterMember ∈ q.kinds then ((fetchClusterMemberEdges s d).filter (memberInFocus q)).map
    stageMember else []

def edgesPage (s : Store) (d : Derived) (t : Times) (q : EdgesQuery) (cursor : Option EdgeSortKey) :
    Page StagingEdge EdgeSortKey :=
  pageOf edgeKey q.pageLimit cursor (stagedEdges s d t q)

/-- `graph_edges_handler`. -/
def graphEdgesHandler (s : Store) (d : Derived) (t : Times) (q : EdgesQuery)
    (cursor : Option EdgeSortKey) : Except String (Page StagingEdge EdgeSortKey) :=
  if q.asOfMs.any (· < 0) then .error "as_of_ms must be >= 0" else .ok (edgesPage s d t q cursor)

/-! ### Keys -/

section Keys

variable {s : Store} {d : Derived} {t : Times} {q : EdgesQuery}

theorem edgeKey_inj {e e' : StagingEdge} (h : edgeKey e = edgeKey e') : e.kindIdx = e'.kindIdx ∧
    e.subId = e'.subId :=
  Prod.mk.inj (toLex.injective h)

/-- Ids of clusters do not contain the separator of `sub_id`. -/
def PlainClusterIds (d : Derived) : Prop := ∀ m ∈ d.clusterEpisodes, '\u001f' ∉ m.clusterId.toList

theorem relationshipRow?_eq_some {asOfMs : Option Int} {focus : Option MemoryId} {e : EdgeRow}
    {r : EdgeRowRelationship} (h : relationshipRow? s d t asOfMs focus e = some r) :
    r.edgeId = e.edgeId ∧ e.status = .active ∧ r.subjectId = e.subjectEntityId ∧
    e.object = .entity r.objectId := by
  unfold relationshipRow? at h
  cases hobject : e.object with
  | literal text =>
    rw [hobject] at h
    cases h
  | entity id =>
    rw [hobject, Option.ite_none_right_eq_some] at h
    obtain ⟨hwhen, hr⟩ := h
    rw [Bool.and_eq_true, Bool.and_eq_true, decide_eq_true_eq] at hwhen
    rw [← Option.some.inj hr]
    exact ⟨rfl, hwhen.1.1, rfl, rfl⟩

theorem mem_fallbackTripleRows {asOfMs : Option Int} {focus : Option MemoryId}
    {r : EdgeRowRelationship} (h : r ∈ fallbackTripleRows s d asOfMs focus) :
    ∃ tr ∈ fallbackTriples d, tr.tripleId = r.edgeId ∧ tr.subjectId = r.subjectId ∧
    tr.objectId = r.objectId ∧
      tr.objectKind = .entity := by
  obtain ⟨tr, htr, rfl⟩ := List.mem_map.1 h
  obtain ⟨htr, hwhen⟩ := List.mem_filter.1 htr
  rw [Bool.and_eq_true, Bool.and_eq_true, decide_eq_true_eq] at hwhen
  exact ⟨tr, htr, rfl, rfl, rfl, hwhen.1.1⟩

/-- A triple stands for itself only if no edge of the graph has its id. -/
theorem nodup_tripleEdgeRows {asOfMs : Option Int} {focus : Option MemoryId} :
    ((tripleEdgeRows s d t asOfMs focus).map (·.edgeId)).Nodup := by
  unfold tripleEdgeRows
  rw [List.map_append, List.nodup_append]
  refine ⟨?_, ?_, ?_⟩
  · refine List.pairwise_map.2 (List.pairwise_filterMap.2 (d.relationshipEdges.unique.imp ?_))
    intro a b hfresh r hr r' hr' heq
    rw [(relationshipRow?_eq_some hr).1, (relationshipRow?_eq_some hr').1] at heq
    simp [Keyed.clash, heq] at hfresh
  · unfold fallbackTripleRows fallbackTriples
    simp only [List.map_map]
    refine List.pairwise_map.2 (((d.triples.unique.filter _).filter _).imp fun {a b} hfresh heq =>
      ?_)
    have heq : a.tripleId = b.tripleId := heq
    simp [Keyed.clash, heq] at hfresh
  · rintro x hx y hy rfl
    obtain ⟨r, hr, rfl⟩ := List.mem_map.1 hx
    obtain ⟨e, he, hrow⟩ := List.mem_filterMap.1 hr
    obtain ⟨r', hr', hsame⟩ := List.mem_map.1 hy
    obtain ⟨tr, htr, hid, -, -, -⟩ := mem_fallbackTripleRows hr'
    have hknown := (List.mem_filter.1 htr).2
    simp only [Bool.and_eq_true, Bool.not_eq_true', List.any_eq_false, decide_eq_true_eq] at hknown
    exact hknown.2 e he ((relationshipRow?_eq_some hrow).1.symm.trans (hsame.symm.trans hid.symm))

/-- Where ids of clusters are plain, `sub_id` tells the members apart. -/
theorem stageMember_inj {m m' : ClusterEpisodeRow} (hm : '\u001f' ∉ m.clusterId.toList)
    (hm' : '\u001f' ∉ m'.clusterId.toList)
    (h : edgeKey (stageMember m) = edgeKey (stageMember m')) : m = m' := by
  have hid := congrArg String.toList (edgeKey_inj h).2
  have hsep (c : ClusterId) (e : MemoryId) :
      (c ++ "\u001f" ++ e).toList = c.toList ++ '\u001f' :: e.toList := by
    rw [String.toList_append, String.toList_append, List.append_assoc]
    rfl
  have hid : (m.clusterId ++ "\u001f" ++ m.memoryId).toList =
      (m'.clusterId ++ "\u001f" ++ m'.memoryId).toList := hid
  rw [hsep, hsep] at hid
  have hcluster := Text.eq_of_append_cons hm hm' hid
  rw [hcluster] at hid
  have hmemory := (List.cons.inj (List.append_cancel_left hid)).2
  cases m
  cases m'
  exact congrArg₂ ClusterEpisodeRow.mk (String.toList_injective hcluster)
    (String.toList_injective hmemory)

theorem nodup_ite {α : Type} {on : Prop} [Decidable on] {rows : List α} {stage : α → StagingEdge}
    (h : (rows.map fun r => edgeKey (stage r)).Nodup) :
    ((if on then rows.map stage else []).map edgeKey).Nodup := by
  by_cases hon : on
  · rwa [if_pos hon, List.map_map]
  · rw [if_neg hon]
    exact List.nodup_nil

theorem kindIdx_of_mem {α : Type} {on : Prop} [Decidable on] {rows : List α}
    {stage : α → StagingEdge}
    {x : EdgeSortKey} (kind : EdgeKind) (hstage : ∀ r, (stage r).kindIdx = kind.orderIdx)
    (hx : x ∈ (if on then rows.map stage else []).map edgeKey) : (ofLex x).1 = kind.orderIdx := by
  obtain ⟨e, he, rfl⟩ := List.mem_map.1 hx
  by_cases hon : on
  · rw [if_pos hon] at he
    obtain ⟨r, -, rfl⟩ := List.mem_map.1 he
    exact hstage r
  · rw [if_neg hon] at he
    cases he

/-- Edges of two kinds have different keys. -/
theorem kinds_apart {α β : Type} {on on' : Prop} [Decidable on] [Decidable on'] {rows : List α}
    {rows' : List β} {stage : α → StagingEdge} {stage' : β → StagingEdge} (kind kind' : EdgeKind)
    (hne : kind.orderIdx ≠ kind'.orderIdx) (hstage : ∀ r, (stage r).kindIdx = kind.orderIdx)
    (hstage' : ∀ r, (stage' r).kindIdx = kind'.orderIdx) :
    ∀ x ∈ (if on then rows.map stage else []).map edgeKey,
      ∀ y ∈ (if on' then rows'.map stage' else []).map edgeKey, x ≠ y := by
  rintro x hx y hy rfl
  exact hne ((kindIdx_of_mem kind hstage hx).symm.trans (kindIdx_of_mem kind' hstage' hy))

/-- What a capped fetch leaves in the focus has keys of its own, if the rows have ids of their
own. -/
theorem nodup_fetched {α : Type} {id : α → String} {rows : List α} {focus : α → Bool}
    {stage : α → StagingEdge} (hids : (rows.map id).Nodup)
    (hkey : ∀ r r', edgeKey (stage r) = edgeKey (stage r') → id r = id r') :
    ((((sortByKey id rows).take safetyCap).filter focus).map fun r => edgeKey (stage r)).Nodup := by
  have hsorted : ((sortByKey id rows).map id).Nodup := (sortByKey_perm.map _).nodup_iff.2 hids
  have hsub := (List.filter_sublist (p := focus)).trans
    (List.take_sublist safetyCap (sortByKey id rows))
  refine List.pairwise_map.2
    ((List.pairwise_map.1 (hsorted.sublist (hsub.map _))).imp fun hne heq => ?_)
  exact hne (hkey _ _ heq)

theorem nodup_chunkRows : ((s.documentChunks.rows.filter s.chunkActive).map (·.chunkId)).Nodup := by
  refine List.pairwise_map.2 ((s.documentChunks.unique.filter _).imp ?_)
  intro a b hfresh heq
  simp [Keyed.clash, heq] at hfresh

theorem nodup_memberKeys (hplain : PlainClusterIds d) :
    (((fetchClusterMemberEdges s d).filter (memberInFocus q)).map fun m =>
      edgeKey (stageMember m)).Nodup := by
  have hall : d.clusterEpisodes.rows.Nodup :=
    d.clusterEpisodes.unique.imp fun hfresh => of_decide_eq_false hfresh
  have hnodup : (fetchClusterMemberEdges s d).Nodup :=
    (sortByKey_perm.nodup_iff.2 (hall.filter _)).sublist (List.take_sublist _ _)
  have hrows : fetchClusterMemberEdges s d ⊆ d.clusterEpisodes.rows := fun m hm =>
    List.mem_of_mem_filter (sortByKey_perm.mem_iff.1 (List.mem_of_mem_take hm))
  refine (List.nodup_map_iff_inj_on (hnodup.filter _)).2 fun m hm m' hm' heq => ?_
  exact stageMember_inj (hplain m (hrows (List.mem_of_mem_filter hm)))
    (hplain m' (hrows (List.mem_of_mem_filter hm'))) heq

theorem nodup_stagedEdges (hplain : PlainClusterIds d) :
    ((stagedEdges s d t q).map edgeKey).Nodup := by
  have htriples : (((fetchTripleEdges s d t q.asOfMs q.focusEpisodeId).filter (tripleInFocus q)).map
      fun r => edgeKey (stageTriple r)).Nodup :=
    nodup_fetched nodup_tripleEdgeRows fun _ _ heq => (edgeKey_inj heq).2
  have hchunks : (((fetchDocumentChunkEdges s).filter (chunkInFocus q)).map fun c =>
      edgeKey (stageChunk c)).Nodup :=
    nodup_fetched nodup_chunkRows fun _ _ heq => (edgeKey_inj heq).2
  have hmembers := nodup_memberKeys (s := s) (q := q) hplain
  unfold stagedEdges
  rw [List.map_append, List.map_append, List.append_assoc, List.nodup_append, List.nodup_append]
  refine ⟨nodup_ite htriples, ⟨nodup_ite hchunks, nodup_ite hmembers, ?_⟩, fun x hx y hy => ?_⟩
  · exact kinds_apart .documentChunk .clusterMember (by decide) (fun _ => rfl) fun _ => rfl
  · rcases List.mem_append.1 hy with hy | hy
    · exact kinds_apart .triple .documentChunk (by decide) (fun _ => rfl) (fun _ => rfl) x hx y hy
    · exact kinds_apart .triple .clusterMember (by decide) (fun _ => rfl) (fun _ => rfl) x hx y hy

end Keys

/-! ### Walks -/

section Walks

variable {s : Store} {d : Derived} {t : Times} {q : EdgesQuery} {cursor : Option EdgeSortKey}

theorem EdgesQuery.pageLimit_pos : 0 < q.pageLimit := by
  unfold EdgesQuery.pageLimit
  omega

theorem graphEdgesHandler_eq_ok {p : Page StagingEdge EdgeSortKey}
    (h : graphEdgesHandler s d t q cursor = .ok p) : p = edgesPage s d t q cursor := by
  unfold graphEdgesHandler at h
  split at h
  · cases h
  · exact (Except.ok.inj h).symm

/-- Walks from the start end, and list all edges selected. -/
theorem edgesWalk_lists (hplain : PlainClusterIds d) :
    (∃ pages, Walk (fun c p => p = edgesPage s d t q c) none pages) ∧
      ∀ pages, Walk (fun c p => p = edgesPage s d t q c) none pages →
        pages.flatten = sortByKey edgeKey (stagedEdges s d t q) :=
  walk_pageOf (nodup_stagedEdges hplain) q.pageLimit_pos

/-- A cluster of three of the episodes. -/
def threeMembers : Derived :=
  { Derived.empty with
    clusters := .single ⟨"k", none, 1, 0⟩
    clusterEpisodes := ((Table.single ⟨"k", "c"⟩).insertOrIgnore ⟨"k", "a"⟩).insertOrIgnore ⟨"k", "b"⟩ }

def membersByOne : EdgesQuery := ⟨[.clusterMember], none, none, some 1⟩

theorem plainClusterIds_threeMembers : PlainClusterIds threeMembers := by
  have hplain : ∀ m ∈ threeMembers.clusterEpisodes.rows, '\u001f' ∉ m.clusterId.toList := by decide
  exact hplain

/-- One edge a page, by the id of the episode. -/
theorem edgesWalk_lists_threeMembers :
    (∃ pages, Walk (fun c p => p = edgesPage (fourEpisodes 4) threeMembers noTimes membersByOne c)
      none pages) ∧
      ∀ pages, Walk (fun c p => p = edgesPage (fourEpisodes 4) threeMembers noTimes membersByOne c)
      none pages →
        pages.flatten.map (·.edge.target) = ["ep:a", "ep:b", "ep:c"] := by
  obtain ⟨hends, hlists⟩ := edgesWalk_lists (s := fourEpisodes 4) (t := noTimes) (q := membersByOne)
    plainClusterIds_threeMembers
  refine ⟨hends, fun pages hwalk => ?_⟩
  rw [hlists pages hwalk]
  decide +kernel

end Walks

/-! ### Ends -/

section Ends

variable {s : Store} {d : Derived} {t : Times}

/-- A request for all nodes. -/
def allNodes (limit : Option ℕ) : NodesQuery :=
  ⟨[.episode, .document, .chunk, .cluster, .entity], none, none, limit⟩

variable {limit : Option ℕ}

theorem row_listed {k : NodeKind} {r : NodeRow} (hk : k ∈ rowKinds) (hr : r ∈ catalogRows s d t k) :
    stageRow k r ∈ listed s d t (allNodes limit) := by
  refine mem_listed.2 (.inl ⟨k, hk, ?_, r, hr, rfl, rfl⟩)
  cases k <;> simp [allNodes]

theorem entity_listed {r : EntityRef} (hr : r ∈ allRefs d t) :
    ∃ n ∈ listed s d t (allNodes limit), n.id = "ent:" ++ r.value := by
  have hvalue : ∃ row ∈ entityRows d t (allNodes limit), row.value = r.value := by
    unfold entityRows
    refine ⟨_,
      List.mem_map_of_mem (List.mem_dedup.2 (List.mem_map_of_mem (List.mem_filter.2 ⟨hr, rfl⟩))),
        rfl⟩
  obtain ⟨row, hrow, hvalue⟩ := hvalue
  refine ⟨stageEntity row, mem_listed.2 (.inr ⟨?_, row, hrow, rfl⟩), ?_⟩
  · simp [allNodes]
  · rw [← hvalue]
    rfl

/-- The subject and the object of a row are references to entities. -/
theorem tripleEdgeRow_refs {asOfMs : Option Int} {focus : Option MemoryId}
    {row : EdgeRowRelationship} (h : row ∈ tripleEdgeRows s d t asOfMs focus) :
    (∃ r ∈ allRefs d t, r.value = row.subjectId) ∧ ∃ r ∈ allRefs d t, r.value = row.objectId := by
  unfold allRefs
  rcases List.mem_append.1 h with h | h
  · obtain ⟨e, he, hrow⟩ := List.mem_filterMap.1 h
    obtain ⟨-, hactive, hsubject, hobject⟩ := relationshipRow?_eq_some hrow
    have he : e ∈ d.relationshipEdges.rows.filter (·.status = .active) :=
      List.mem_filter.2 ⟨he, decide_eq_true hactive⟩
    have hin {r : EntityRef} (hr : r ∈ relationshipRefs d) :
        r ∈ relationshipRefs d ++ fallbackTripleRefs d ++ activeEntities d t :=
      List.mem_append_left _ (List.mem_append_left _ hr)
    refine ⟨⟨_, hin (List.mem_append_left _ (List.mem_map_of_mem he)), hsubject.symm⟩, ?_⟩
    refine ⟨⟨row.objectId, e.validFromMs, true⟩,
      hin (List.mem_append_right _ (List.mem_filterMap.2 ⟨e, he, ?_⟩)), rfl⟩
    rw [hobject]
  · obtain ⟨tr, htr, -, hsubject, hobject, hkind⟩ := mem_fallbackTripleRows h
    have hin {r : EntityRef} (hr : r ∈ fallbackTripleRefs d) :
        r ∈ relationshipRefs d ++ fallbackTripleRefs d ++ activeEntities d t :=
      List.mem_append_left _ (List.mem_append_right _ hr)
    refine ⟨⟨_, hin (List.mem_append_left _ (List.mem_map_of_mem htr)), hsubject⟩, ?_⟩
    refine ⟨_, hin (List.mem_append_right _ (List.mem_map_of_mem (List.mem_filter.2 ⟨htr, ?_⟩))),
      hobject⟩
    exact decide_eq_true hkind

theorem mem_stagedEdges {q : EdgesQuery} {e : StagingEdge} (h : e ∈ stagedEdges s d t q) :
    (∃ row ∈ tripleEdgeRows s d t q.asOfMs q.focusEpisodeId, stageTriple row = e) ∨
      (∃ c ∈ s.documentChunks, s.chunkActive c = true ∧ stageChunk c = e) ∨
      ∃ m ∈ memberRows s d, stageMember m = e := by
  unfold stagedEdges at h
  rw [List.mem_append, List.mem_append] at h
  rcases h with (h | h) | h
  · rw [List.mem_ite_nil_right] at h
    obtain ⟨row, hrow, rfl⟩ := List.mem_map.1 h.2
    exact .inl ⟨row, sortByKey_perm.mem_iff.1 (List.mem_of_mem_take (List.mem_of_mem_filter hrow)),
      rfl⟩
  · rw [List.mem_ite_nil_right] at h
    obtain ⟨c, hc, rfl⟩ := List.mem_map.1 h.2
    have hc :=
      List.mem_filter.1
      (sortByKey_perm.mem_iff.1 (List.mem_of_mem_take (List.mem_of_mem_filter hc)))
    exact .inr (.inl ⟨c, hc.1, hc.2, rfl⟩)
  · rw [List.mem_ite_nil_right] at h
    obtain ⟨m, hm, rfl⟩ := List.mem_map.1 h.2
    exact .inr
      (.inr ⟨m, sortByKey_perm.mem_iff.1 (List.mem_of_mem_take (List.mem_of_mem_filter hm)), rfl⟩)

theorem endpoints_selected {q : EdgesQuery} {e : StagingEdge}
    (hforeign : ∀ m ∈ d.clusterEpisodes, ∃ c ∈ d.clusters, c.clusterId = m.clusterId)
    (he : e ∈ stagedEdges s d t q) : (∃ n ∈ listed s d t (allNodes limit), n.id = e.edge.source) ∧
      ∃ n ∈ listed s d t (allNodes limit), n.id = e.edge.target := by
  rcases mem_stagedEdges he with ⟨row, hrow, rfl⟩ | ⟨c, hc, hactive, rfl⟩ | ⟨m, hm, rfl⟩
  · obtain ⟨⟨r, hr, hsubject⟩, r', hr', hobject⟩ := tripleEdgeRow_refs hrow
    obtain ⟨n, hn, hid⟩ := entity_listed (s := s) hr
    obtain ⟨n', hn', hid'⟩ := entity_listed (s := s) hr'
    refine ⟨⟨n, hn, ?_⟩, n', hn', ?_⟩
    · rw [hid, hsubject]
      rfl
    · rw [hid', hobject]
      rfl
  · have hdocument := hactive
    unfold Store.chunkActive at hdocument
    rw [Option.any_eq_true] at hdocument
    obtain ⟨doc, hdoc, hstatus⟩ := hdocument
    obtain ⟨hdoc, hid⟩ := Store.document?_eq_some.1 hdoc
    refine ⟨⟨_, row_listed (k := .document) (by decide)
      (List.mem_map_of_mem (List.mem_filter.2 ⟨hdoc, hstatus⟩)), ?_⟩,
      _, row_listed (k := .chunk) (by decide)
        (List.mem_map_of_mem (List.mem_filter.2 ⟨hc, hactive⟩)), rfl⟩
    exact congrArg ("doc:" ++ ·) hid
  · obtain ⟨hm, hepisode⟩ := List.mem_filter.1 hm
    obtain ⟨c, hc, hcluster⟩ := hforeign m hm
    obtain ⟨ep, hep, hboth⟩ := List.any_eq_true.1 hepisode
    rw [Bool.and_eq_true, decide_eq_true_eq] at hboth
    refine ⟨⟨_, row_listed (k := .cluster) (by decide)
      (List.mem_flatMap.2 ⟨c, hc, List.mem_replicate.2 ⟨?_, rfl⟩⟩), ?_⟩,
      _, row_listed (k := .episode) (by decide)
        (List.mem_map_of_mem (List.mem_filter.2 ⟨hep, hboth.2⟩)), ?_⟩
    · omega
    · exact congrArg ("cl:" ++ ·) hcluster
    · exact congrArg ("ep:" ++ ·) hboth.1

/-- Walks over all nodes list both ends of every edge that any request for edges is answered with,
if they list the rows of each kind and there are not too many entities. -/
theorem endpoints_listed {q : EdgesQuery} {cursor : Option EdgeSortKey}
    {page : Page StagingEdge EdgeSortKey} {e : StagingEdge} {pages : List (List GraphNode)}
    (hforeign : ∀ m ∈ d.clusterEpisodes, ∃ c ∈ d.clusters, c.clusterId = m.clusterId)
    (hrows : ∀ k ∈ rowKinds, Listable ((allNodes limit).pageLimit + 2) (catalogRows s d t k))
    (hcap : (entityRows d t (allNodes limit)).length ≤ graphEntityCap)
    (hpage : graphEdgesHandler s d t q cursor = .ok page) (he : e ∈ page.items)
    (hwalk : Walk (fun c p => p = nodesPage s d t (allNodes limit) c) none pages) :
    (∃ n ∈ pages.flatten, n.id = e.edge.source) ∧ ∃ n ∈ pages.flatten, n.id = e.edge.target := by
  have hnodes (c : Option NodesCursor) : nodesPage s d t (allNodes limit) c =
      pageOf nodeKey (allNodes limit).pageLimit c (listed s d t (allNodes limit)) :=
    nodesPage_eq_pageOf (fun k hk _ => hrows k hk) fun _ => hcap
  simp only [hnodes] at hwalk
  have hdistinct : ((listed s d t (allNodes limit)).map nodeKey).Nodup :=
    nodup_listed fun k hk _ => (hrows k hk).nodup
  have hall := (walk_pageOf hdistinct (allNodes limit).pageLimit_pos).2 pages hwalk
  have hmem {n : GraphNode} (hn : n ∈ listed s d t (allNodes limit)) : n ∈ pages.flatten := by
    rw [hall]
    exact sortByKey_perm.mem_iff.2 hn
  rw [graphEdgesHandler_eq_ok hpage] at he
  have hstaged : e ∈ stagedEdges s d t q := (pageOf_spec.2.1 e he).1
  obtain ⟨⟨n, hn, hsource⟩, n', hn', htarget⟩ := endpoints_selected hforeign hstaged
  exact ⟨⟨n, hmem hn, hsource⟩, n', hmem hn', htarget⟩

/-- The members of the cluster, and a triple that the graph does not know. -/
def likesTea : Derived :=
  { threeMembers with
    triples := .single ⟨"t", "alice", "likes", "tea", .entity, 7, none, 1, ⟨["a"], "", "", 7⟩, .active, 7,
      some "k", none⟩ }

/-- A document with two chunks of one time. -/
def withDocument : Store :=
  { fourEpisodes 4 with
    documents := .single ⟨"doc", .active, none⟩
    documentChunks := (Table.single ⟨⟨1, Rowid.one_lt⟩, "x", "doc", 0, none⟩).insertOrIgnore
      ⟨⟨2, Rowid.two_lt⟩, "y", "doc", 1, none⟩ }

def byTwo : NodesQuery := allNodes (some 2)

def allEdges : EdgesQuery := ⟨[.triple, .documentChunk, .clusterMember], none, none, none⟩

theorem listable_withDocument (k : NodeKind) (hk : k ∈ rowKinds) :
    Listable (byTwo.pageLimit + 2) (catalogRows withDocument likesTea noTimes k) := by
  simp only [rowKinds, List.mem_cons, List.not_mem_nil, or_false] at hk
  rcases hk with rfl | rfl | rfl | rfl
  · exact .inl (by decide)
  · exact .inl (by decide)
  · exact .inr (by decide)
  · exact .inl (by decide)

theorem clusters_likesTea : ∀ m ∈ likesTea.clusterEpisodes, ∃ c ∈ likesTea.clusters, c.clusterId =
    m.clusterId := by
  have hmembers : ∀ m ∈ likesTea.clusterEpisodes.rows, ∃ c ∈ likesTea.clusters.rows, c.clusterId =
      m.clusterId := by
    decide
  exact hmembers

/-- Two nodes a page. -/
theorem endpoints_listed_likesTea :
    (edgesPage withDocument likesTea noTimes allEdges none).items.map
    (fun e => (e.edge.source, e.edge.target)) =
        [("ent:alice", "ent:tea"), ("doc:doc", "chunk:x"), ("doc:doc", "chunk:y"), ("cl:k", "ep:a"),
          ("cl:k", "ep:b"), ("cl:k", "ep:c")] ∧
      ∃ pages : List (List GraphNode),
      Walk (fun c p => p = nodesPage withDocument likesTea noTimes byTwo c) none pages ∧
        ∀ e ∈ (edgesPage withDocument likesTea noTimes allEdges none).items,
          (∃ n ∈ pages.flatten, n.id = e.edge.source) ∧
          ∃ n ∈ pages.flatten, n.id = e.edge.target := by
  have hcap : (entityRows likesTea noTimes byTwo).length ≤ graphEntityCap := by decide
  have hpage (c : Option NodesCursor) : nodesPage withDocument likesTea noTimes byTwo c =
      pageOf nodeKey byTwo.pageLimit c (listed withDocument likesTea noTimes byTwo) :=
    nodesPage_eq_pageOf (fun k hk _ => listable_withDocument k hk) fun _ => hcap
  have hwalks :=
    (walk_pageOf (nodup_listed (s := withDocument) (d := likesTea) (t := noTimes) (q := byTwo)
    fun k hk _ => (listable_withDocument k hk).nodup) byTwo.pageLimit_pos).1
  simp only [← hpage] at hwalks
  obtain ⟨pages, hwalk⟩ := hwalks
  refine ⟨by decide +kernel, pages, hwalk, fun e he => ?_⟩
  exact endpoints_listed clusters_likesTea listable_withDocument hcap (if_neg (by decide)) he hwalk

end Ends

end Solo.Catalog
