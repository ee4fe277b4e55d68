import Solo.Query.Graph

/-!
# The paths of the memory context graph (`context.rs`)

`fetch_graph_relationship_paths` selects the edges out of the seeds and the pairs of edges that lead
out of them, each by strength and confidence up to `limit`, looks the edges up again as steps, and
sorts the paths by their score. A path repeats a node only by an edge from an entity to itself,
which neither query excludes.
-/

namespace Solo.Graph

open StableSort Occurrences

structure MemoryGraphPathStep (K : Type) where
  edgeId : String
  sourceId : EntityId
  targetId : EntityId
  predicate : String
  confidence : K
  strength : K
  evidenceCount : ℤ
  validFromMs : ℤ
  validToMs : Option ℤ
  evidenceMemoryId : Option String

structure MemoryGraphPath (K : Type) where
  nodes : List EntityId
  edges : List (MemoryGraphPathStep K)
  hops : ℕ
  score : K
  reasonCodes : List String
  pathText : String

variable {K : Type} [Field K] [LinearOrder K]

def graphItemScore (F : Powers K) (confidence strength : K) (evidenceCount : ℤ) : K :=
  let evidenceBoost :=
    if 0 < evidenceCount then 1 + F.ln1p ((min evidenceCount 10 : ℤ) : K) * (5 / 100) else 1
  max confidence 0 * max strength 0 * evidenceBoost

def graphPathText (steps : List (MemoryGraphPathStep K)) : String :=
  match steps with
  | [] => ""
  | first :: _ =>
    steps.foldl (fun text step => text ++ " -[" ++ step.predicate ++ "]-> " ++ step.targetId)
    first.sourceId

def graphPathReasonCodes (hops : ℕ) (evidenceBacked : Bool) : List String :=
  ["query_entity", if hops = 1 then "direct_relationship" else "two_hop_relationship_path",
    "graph_neighbor"] ++
    if evidenceBacked then ["evidence_backed"] else []

def buildMemoryGraphPath (F : Powers K) (steps : List (MemoryGraphPathStep K)) :
    MemoryGraphPath K where
  nodes := (steps.head?.map (·.sourceId)).toList ++ steps.map (·.targetId)
  edges := steps
  hops := steps.length
  score :=
    if steps.isEmpty then 0
    else
      let product :=
        (steps.map fun s => graphItemScore F s.confidence s.strength s.evidenceCount).foldl (· * ·)
        1
      F.powf product (1 / (steps.length : K))
  reasonCodes := graphPathReasonCodes steps.length (steps.all fun s => 0 < s.evidenceCount)
  pathText := graphPathText steps

namespace Tables

/-- The memory of the best evidence of an edge, if it belongs to an active episode. -/
def activeEvidenceMemory (t : Tables K) (edgeId : String) : Option String :=
  (t.evidenceOf edgeId).bind fun ev =>
    let belongs (ep : EpisodeRow) : Bool :=
      ep.status = "active" &&
        match ev.sourceEpisodeId with
        | some rowid => ep.rowid = rowid
        | none => some ep.memoryId = ev.memoryId
    if t.episodes.any belongs then ev.memoryId else none

def step (t : Tables K) (e : EntityEdge K) : MemoryGraphPathStep K :=
  ⟨e.edgeId, e.source, e.target, e.predicate, e.confidence, e.strength, e.evidenceCount,
    e.validFromMs, e.validToMs, t.activeEvidenceMemory e.edgeId⟩

section Queries

variable (t : Tables K) (seeds : List EntityId) (limit : ℕ)

/-- The rows of the query for direct paths. -/
def directEdges : List (EntityEdge K) := t.entityEdges.filter (·.source ∈ seeds)

/-- The rows of the query for paths of two edges. -/
def twoHopEdges : List (EntityEdge K × EntityEdge K) :=
  t.joined fun a b => b.source = a.target && a.source ∈ seeds && b.target ∉ seeds &&
    b.target ≠ a.source

def directKey (e : EntityEdge K) : Kᵒᵈ ×ₗ ℤᵒᵈ ×ₗ String :=
  toLex (OrderDual.toDual (e.strength * e.confidence),
    toLex (OrderDual.toDual e.updatedAtMs, e.edgeId))

def twoHopKey (ab : EntityEdge K × EntityEdge K) : Kᵒᵈ ×ₗ String ×ₗ String :=
  toLex (OrderDual.toDual (ab.1.strength * ab.1.confidence * (ab.2.strength * ab.2.confidence)),
    toLex (ab.1.edgeId, ab.2.edgeId))

def fetchDirectGraphPathEdgeIds : List String :=
  ((sortByKey directKey (t.directEdges seeds)).take limit).map (·.edgeId)

def fetchTwoHopGraphPathEdgeIds : List (String × String) :=
  ((sortByKey twoHopKey (t.twoHopEdges seeds)).take limit).map fun ab => (ab.1.edgeId, ab.2.edgeId)

def fetchGraphPathSteps (edgeIds : List String) : String → Option (MemoryGraphPathStep K) :=
  collect ((t.entityEdges.filter (·.edgeId ∈ edgeIds)).map fun e => (e.edgeId, t.step e))

end Queries

end Tables

/-- The order of the paths. -/
def pathKey (p : MemoryGraphPath K) : Kᵒᵈ ×ₗ ℕ ×ₗ String :=
  toLex (OrderDual.toDual p.score, toLex (p.hops, p.pathText))

def fetchGraphRelationshipPaths (F : Powers K) (t : Tables K) (seeds : List EntityId) (limit : ℕ) :
    List (MemoryGraphPath K) :=
  let directEdgeIds := t.fetchDirectGraphPathEdgeIds seeds limit
  let twoHopEdgeIds := t.fetchTwoHopGraphPathEdgeIds seeds limit
  let stepEdgeIds :=
    twoHopEdgeIds.foldl (fun ids ab => pushNew (pushNew ids ab.1) ab.2) directEdgeIds
  let steps := t.fetchGraphPathSteps stepEdgeIds
  let direct := directEdgeIds.filterMap fun id => (steps id).map fun s => buildMemoryGraphPath F [s]
  let twoHop := twoHopEdgeIds.filterMap fun ab =>
    (steps ab.1).bind fun first => (steps ab.2).map fun second =>
      buildMemoryGraphPath F [first, second]
  (sortByKey pathKey (direct ++ twoHop)).take limit

/-! ### The rows behind the paths -/

section Rows

variable (F : Powers K) (t : Tables K) (seeds : List EntityId)

def directPath (e : EntityEdge K) : MemoryGraphPath K := buildMemoryGraphPath F [t.step e]

def twoHopPath (ab : EntityEdge K × EntityEdge K) : MemoryGraphPath K :=
  buildMemoryGraphPath F [t.step ab.1, t.step ab.2]

/-- The paths of all rows of the two queries. -/
def allPaths : List (MemoryGraphPath K) :=
  (t.directEdges seeds).map (directPath F t) ++ (t.twoHopEdges seeds).map (twoHopPath F t)

/-- The paths of the rows that are left when each query is cut at `limit`. -/
def cutPaths (limit : ℕ) : List (MemoryGraphPath K) :=
  ((sortByKey Tables.directKey (t.directEdges seeds)).take limit).map (directPath F t) ++
    ((sortByKey Tables.twoHopKey (t.twoHopEdges seeds)).take limit).map (twoHopPath F t)

variable {F t seeds}

omit [Field K] in
theorem mem_foldl_pushNew {pairs : List (String × String)} {ids : List String} {id : String} :
    id ∈ pairs.foldl (fun ids ab => pushNew (pushNew ids ab.1) ab.2) ids ↔
      id ∈ ids ∨ ∃ ab ∈ pairs, id = ab.1 ∨ id = ab.2 := by
  induction pairs generalizing ids with
  | nil => simp
  | cons ab pairs ih =>
    have hpush (k : String) (keys : List String) : id ∈ pushNew keys k ↔ id ∈ keys ∨ id = k := by
      have h := (foldl_pushNew [k] keys).1 id
      rwa [List.foldl_cons, List.foldl_nil, List.mem_singleton] at h
    rw [List.foldl_cons, ih, hpush, hpush]
    simp only [List.mem_cons, exists_eq_or_imp, or_assoc]

omit [Field K] in
theorem fetchGraphPathSteps_eq {ids : List String} {e : EntityEdge K} (he : e ∈ t.entityEdges)
    (hid : e.edgeId ∈ ids) : t.fetchGraphPathSteps ids e.edgeId = some (t.step e) := by
  unfold Tables.fetchGraphPathSteps
  rw [collect_eq_getLast?]
  have hone := length_filter_le_one t.entityEdges_unique e.edgeId
  have hmem : e ∈ t.entityEdges.filter (·.edgeId = e.edgeId) :=
    List.mem_filter.2 ⟨he, decide_eq_true rfl⟩
  have hsingle : t.entityEdges.filter (·.edgeId = e.edgeId) = [e] := by
    generalize t.entityEdges.filter (·.edgeId = e.edgeId) = m at hone hmem
    rcases m with - | ⟨a, - | ⟨b, rest⟩⟩
    · cases hmem
    · rw [List.mem_singleton.1 hmem]
    · simp only [List.length_cons] at hone
      omega
  have hsame : (t.entityEdges.filter (·.edgeId ∈ ids)).filter (·.edgeId = e.edgeId) = [e] := by
    rw [List.filter_filter, ← hsingle]
    refine List.filter_congr fun b _ => ?_
    by_cases hb : b.edgeId = e.edgeId
    · simp [hb, hid]
    · simp [hb]
  have hpairs : ((t.entityEdges.filter (·.edgeId ∈ ids)).map fun e => (e.edgeId, t.step e)).filter
      (·.1 = e.edgeId) = [(e.edgeId, t.step e)] := by
    rw [List.filter_map]
    exact congrArg _ hsame
  rw [hpairs]
  rfl

/-- The paths that are sorted are those of the rows within the limits. -/
theorem fetchGraphRelationshipPaths_eq (F : Powers K) (t : Tables K) (seeds : List EntityId)
    (limit : ℕ) :
    fetchGraphRelationshipPaths F t seeds limit =
    (sortByKey pathKey (cutPaths F t seeds limit)).take limit := by
  unfold fetchGraphRelationshipPaths cutPaths
  dsimp only
  congr 2
  refine congrArg₂ _ ?_ ?_
  · unfold Tables.fetchDirectGraphPathEdgeIds
    rw [List.filterMap_map]
    refine List.filterMap_eq_map_iff_forall_eq_some.2 fun e he => ?_
    have hmem : e ∈ t.entityEdges :=
      (List.mem_filter.1 (sortByKey_perm.mem_iff.1 (List.mem_of_mem_take he))).1
    rw [Function.comp_apply, fetchGraphPathSteps_eq hmem]
    · rfl
    · exact mem_foldl_pushNew.2 (.inl (List.mem_map_of_mem he))
  · unfold Tables.fetchTwoHopGraphPathEdgeIds
    rw [List.filterMap_map]
    refine List.filterMap_eq_map_iff_forall_eq_some.2 fun ab hab => ?_
    obtain ⟨ha, hb, -⟩ := Tables.mem_joined.1 (sortByKey_perm.mem_iff.1 (List.mem_of_mem_take hab))
    have hpair :
        (ab.1.edgeId, ab.2.edgeId) ∈
        ((sortByKey Tables.twoHopKey (t.twoHopEdges seeds)).take limit).map
        fun ab => (ab.1.edgeId, ab.2.edgeId) := List.mem_map_of_mem hab
    rw [Function.comp_apply, fetchGraphPathSteps_eq ha, fetchGraphPathSteps_eq hb]
    · rfl
    · exact mem_foldl_pushNew.2 (.inr ⟨_, hpair, .inr rfl⟩)
    · exact mem_foldl_pushNew.2 (.inr ⟨_, hpair, .inl rfl⟩)

end Rows

/-! ### What a path is -/

section Law

variable {F : Powers K} {t : Tables K} {seeds : List EntityId}

/-- A path along active edges from a seed, over distinct nodes, and out of the seeds if it has two
edges. -/
structure Simple (t : Tables K) (seeds : List EntityId) (p : MemoryGraphPath K) : Prop where
  start : ∃ seed ∈ seeds, p.nodes.head? = some seed
  nodes : p.nodes = (p.edges.head?.map (·.sourceId)).toList ++ p.edges.map (·.targetId)
  connects : p.edges.IsChain fun a b => a.targetId = b.sourceId
  distinct : p.nodes.Nodup
  active : ∀ s ∈ p.edges, ∃ r ∈ t.edges, r.edgeId = s.edgeId ∧ r.status = .active ∧
    r.subjectEntityId = s.sourceId ∧ r.object = .entity s.targetId
  outside : p.edges.length = 2 → ∀ last ∈ p.nodes.getLast?, last ∉ seeds

structure Lawful (t : Tables K) (seeds : List EntityId) (paths : List (MemoryGraphPath K)) :
    Prop where
  simple : ∀ p ∈ paths, Simple t seeds p
  sorted : paths.Pairwise fun a b => b.score ≤ a.score
  distinct : (paths.map fun p => p.edges.map (·.edgeId)).Nodup

/-- No active edge leads from an entity to itself, at a seed or at a neighbour of one. -/
def NoLoops (t : Tables K) (seeds : List EntityId) : Prop :=
  ∀ e ∈ t.entityEdges, e.source = e.target →
    e.source ∉ seeds ∧ ∀ a ∈ t.entityEdges, a.source ∈ seeds → a.target ≠ e.source

omit [Field K] [LinearOrder K] in
theorem mem_directEdges {e : EntityEdge K} : e ∈ t.directEdges seeds ↔ e ∈ t.entityEdges ∧
    e.source ∈ seeds := by
  rw [Tables.directEdges, List.mem_filter, decide_eq_true_eq]

omit [Field K] [LinearOrder K] in
theorem mem_twoHopEdges {ab : EntityEdge K × EntityEdge K} :
    ab ∈ t.twoHopEdges seeds ↔ ab.1 ∈ t.entityEdges ∧ ab.2 ∈ t.entityEdges ∧
    ab.2.source = ab.1.target ∧
      ab.1.source ∈ seeds ∧ ab.2.target ∉ seeds ∧ ab.2.target ≠ ab.1.source := by
  rw [Tables.twoHopEdges, Tables.mem_joined]
  simp only [Bool.and_eq_true, decide_eq_true_eq, and_assoc]

omit [Field K] in
theorem step_backed {e : EntityEdge K} (he : e ∈ t.entityEdges) :
    ∃ r ∈ t.edges, r.edgeId = (t.step e).edgeId ∧ r.status = .active ∧
    r.subjectEntityId = (t.step e).sourceId ∧
      r.object = .entity (t.step e).targetId := by
  obtain ⟨r, hr, hid, hactive, hsource, hobject, -⟩ := (Tables.mem_entityEdges he).row
  exact ⟨r, hr, hid, hactive, hsource, hobject⟩

theorem simple_directPath {e : EntityEdge K} (he : e ∈ t.directEdges seeds)
    (hne : e.source ≠ e.target) : Simple t seeds (directPath F t e) := by
  obtain ⟨hmem, hseed⟩ := mem_directEdges.1 he
  refine ⟨⟨e.source, hseed, rfl⟩, rfl, List.isChain_singleton _, ?_, fun s hs => ?_, fun h => ?_⟩
  · have hnodup : [e.source, e.target].Nodup := by simp [hne]
    exact hnodup
  · obtain rfl := List.mem_singleton.1 hs
    exact step_backed hmem
  · have hone : (1 : ℕ) = 2 := h
    omega

theorem simple_twoHopPath {ab : EntityEdge K × EntityEdge K} (hab : ab ∈ t.twoHopEdges seeds)
    (ha : ab.1.source ≠ ab.1.target) (hb : ab.2.source ≠ ab.2.target) :
    Simple t seeds (twoHopPath F t ab) := by
  obtain ⟨hmem, hmem', hjoin, hseed, hout, hback⟩ := mem_twoHopEdges.1 hab
  refine ⟨⟨ab.1.source, hseed, rfl⟩, rfl, ?_, ?_, fun s hs => ?_, fun _ last hlast => ?_⟩
  · exact List.isChain_cons_cons.2 ⟨hjoin.symm, List.isChain_singleton _⟩
  · have hnodup : [ab.1.source, ab.1.target, ab.2.target].Nodup := by
      have hmiddle : ab.1.target ≠ ab.2.target := fun h => hb (hjoin.trans h)
      simp [ha, hmiddle, hback.symm]
    exact hnodup
  · rcases List.mem_cons.1 hs with rfl | hs
    · exact step_backed hmem
    · obtain rfl := List.mem_singleton.1 hs
      exact step_backed hmem'
  · obtain rfl : ab.2.target = last := Option.some.inj hlast
    exact hout

theorem mem_cutPaths {limit : ℕ} {p : MemoryGraphPath K} (hp : p ∈ cutPaths F t seeds limit) :
    (∃ e ∈ t.directEdges seeds, p = directPath F t e) ∨
    ∃ ab ∈ t.twoHopEdges seeds, p = twoHopPath F t ab := by
  rcases List.mem_append.1 hp with hp | hp
  · obtain ⟨e, he, rfl⟩ := List.mem_map.1 hp
    exact .inl ⟨e, sortByKey_perm.mem_iff.1 (List.mem_of_mem_take he), rfl⟩
  · obtain ⟨ab, hab, rfl⟩ := List.mem_map.1 hp
    exact .inr ⟨ab, sortByKey_perm.mem_iff.1 (List.mem_of_mem_take hab), rfl⟩

/-- The paths of distinct rows have distinct edges. -/
theorem nodup_edgeIds {direct : List (EntityEdge K)} {twoHop : List (EntityEdge K × EntityEdge K)}
    (hdirect : direct.Nodup) (htwoHop : twoHop.Nodup) (hmem : ∀ e ∈ direct, e ∈ t.entityEdges)
    (hmem' : ∀ ab ∈ twoHop, ab.1 ∈ t.entityEdges ∧ ab.2 ∈ t.entityEdges) :
    ((direct.map (directPath F t) ++ twoHop.map (twoHopPath F t)).map fun p =>
      p.edges.map (·.edgeId)).Nodup := by
  rw [List.map_append, List.map_map, List.map_map, List.nodup_append]
  refine ⟨hdirect.map_on fun e he e' he' h => ?_, htwoHop.map_on fun ab hab ab' hab' h => ?_, ?_⟩
  · exact Tables.eq_of_edgeId (hmem e he) (hmem e' he') (List.cons.inj h).1
  · obtain ⟨hfirst, hrest⟩ := List.cons.inj h
    exact Prod.ext (Tables.eq_of_edgeId (hmem' ab hab).1 (hmem' ab' hab').1 hfirst)
      (Tables.eq_of_edgeId (hmem' ab hab).2 (hmem' ab' hab').2 (List.cons.inj hrest).1)
  · intro ids hids ids' hids' heq
    obtain ⟨e, -, rfl⟩ := List.mem_map.1 hids
    obtain ⟨ab, -, rfl⟩ := List.mem_map.1 hids'
    have hlength : (1 : ℕ) = 2 := congrArg List.length heq
    omega

theorem nodup_cutPaths (limit : ℕ) :
    ((cutPaths F t seeds limit).map fun p => p.edges.map (·.edgeId)).Nodup := by
  refine nodup_edgeIds ?_ ?_ (fun e he => ?_) fun ab hab => ?_
  · exact (sortByKey_perm.nodup_iff.2 (t.nodup_entityEdges.filter _)).sublist
      (List.take_sublist _ _)
  · exact (sortByKey_perm.nodup_iff.2 (t.nodup_joined _)).sublist (List.take_sublist _ _)
  · exact (mem_directEdges.1 (sortByKey_perm.mem_iff.1 (List.mem_of_mem_take he))).1
  · obtain ⟨ha, hb, -⟩ := mem_twoHopEdges.1 (sortByKey_perm.mem_iff.1 (List.mem_of_mem_take hab))
    exact ⟨ha, hb⟩

/-- A limit that no query reaches keeps every path. -/
theorem fetchGraphRelationshipPaths_perm {limit : ℕ} (h : (allPaths F t seeds).length ≤ limit) :
    (fetchGraphRelationshipPaths F t seeds limit).Perm (allPaths F t seeds) := by
  have hlength : (allPaths F t seeds).length = (t.directEdges seeds).length +
      (t.twoHopEdges seeds).length := by
    rw [allPaths, List.length_append, List.length_map, List.length_map]
  have hdirect : (t.directEdges seeds).length ≤ limit := by omega
  have htwoHop : (t.twoHopEdges seeds).length ≤ limit := by omega
  have hcut : (cutPaths F t seeds limit).Perm (allPaths F t seeds) := by
    unfold cutPaths
    rw [List.take_of_length_le (sortByKey_perm.length_eq.trans_le hdirect),
      List.take_of_length_le (sortByKey_perm.length_eq.trans_le htwoHop)]
    exact (sortByKey_perm.map _).append (sortByKey_perm.map _)
  rw [fetchGraphRelationshipPaths_eq, List.take_of_length_le]
  · exact sortByKey_perm.trans hcut
  · rw [sortByKey_perm.length_eq, hcut.length_eq]
    exact h

/-- Without loops, the paths within any limit are lawful. -/
theorem lawful_of_noLoops (h : NoLoops t seeds) (limit : ℕ) :
    Lawful t seeds (fetchGraphRelationshipPaths F t seeds limit) := by
  rw [fetchGraphRelationshipPaths_eq]
  refine ⟨fun p hp => ?_, ?_, ?_⟩
  · rcases mem_cutPaths (sortByKey_perm.mem_iff.1 (List.mem_of_mem_take hp))
      with ⟨e, he, rfl⟩ | ⟨ab, hab, rfl⟩
    · obtain ⟨hmem, hseed⟩ := mem_directEdges.1 he
      exact simple_directPath he fun hloop => (h e hmem hloop).1 hseed
    · obtain ⟨ha, hb, hjoin, hseed, -, -⟩ := mem_twoHopEdges.1 hab
      refine simple_twoHopPath hab (fun hloop => (h _ ha hloop).1 hseed) fun hloop => ?_
      exact (h _ hb hloop).2 _ ha hseed hjoin.symm
  · refine (pairwise_sortByKey.sublist (List.take_sublist _ _)).imp fun {a b} hab => ?_
    rcases Prod.Lex.toLex_le_toLex.1 hab with hlt | ⟨heq, -⟩
    · exact (OrderDual.toDual_lt_toDual.1 hlt).le
    · exact (OrderDual.toDual_inj.1 heq).ge
  · exact ((sortByKey_perm.map _).nodup_iff.2 (nodup_cutPaths limit)).sublist
      ((List.take_sublist _ _).map _)

/-- The paths are lawful within every limit exactly where there are no loops. -/
theorem lawful_iff (F : Powers K) (t : Tables K) (seeds : List EntityId) :
    (∀ limit, Lawful t seeds (fetchGraphRelationshipPaths F t seeds limit)) ↔ NoLoops t seeds := by
  refine ⟨fun h e he hloop => ?_, fun h limit => lawful_of_noLoops h limit⟩
  have hperm := fetchGraphRelationshipPaths_perm (le_refl (allPaths F t seeds).length)
  have hsimple {p : MemoryGraphPath K} (hp : p ∈ allPaths F t seeds) : p.nodes.Nodup :=
    ((h _).simple p (hperm.mem_iff.2 hp)).distinct
  have hseed : e.source ∉ seeds := by
    intro hseed
    have hnodup : [e.source, e.target].Nodup :=
      hsimple (List.mem_append_left _ (List.mem_map_of_mem (mem_directEdges.2 ⟨he, hseed⟩)))
    simp [hloop] at hnodup
  refine ⟨hseed, fun a ha hstart htarget => ?_⟩
  have hpair : (a, e) ∈ t.twoHopEdges seeds :=
    mem_twoHopEdges.2 ⟨ha, he, htarget.symm, hstart, hloop ▸ hseed,
      fun hback => hseed (hloop ▸ hback ▸ hstart)⟩
  have hnodup : [a.source, a.target, e.target].Nodup :=
    hsimple (List.mem_append_right _ (List.mem_map_of_mem hpair))
  simp [htarget, hloop] at hnodup

end Law

end Solo.Graph
