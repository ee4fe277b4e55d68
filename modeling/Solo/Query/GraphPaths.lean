import Mathlib.Algebra.Field.Rat
import Mathlib.Algebra.Order.Ring.Rat
import Solo.Lib.Result
import Solo.Lib.Text
import Solo.Query.ContextPaths
import Solo.Query.Retrieval

/-!
# The graph path endpoint (`graph_paths.rs`, `graph_paths_handler`)

`GET /v1/graph/paths` searches the same edges for the paths between two given entities. The handler
wants these to differ, and the query for two edges excludes both from the middle, so its paths
repeat no node; those of the memory context do, where an edge leads from an entity to itself
(`contextPaths_simple`).
-/

namespace Solo.Graph

open StableSort Result

structure GraphPathStep (K : Type) where
  edgeId : String
  source : String
  target : String
  predicate : String
  confidence : K
  strength : K
  evidenceCount : ℤ
  validFromMs : ℤ
  validToMs : Option ℤ
  status : EdgeStatus
  evidenceMemoryId : Option String

structure GraphPath (K : Type) where
  nodes : List String
  edges : List (GraphPathStep K)
  hops : ℕ
  score : K
  reasonCodes : List String

structure GraphPathsQuery where
  fromNode : String
  toNode : String
  maxHops : Option ℕ
  asOfMs : Option ℤ
  limit : Option ℕ

structure GraphPathsResponse (K : Type) where
  fromNode : String
  toNode : String
  maxHops : ℕ
  paths : List (GraphPath K)

def graphPathsDefaultLimit : ℕ := 25
def graphPathsMaxLimit : ℕ := 100
def graphPathsDefaultMaxHops : ℕ := 2
def graphPathsMaxHops : ℕ := 2

def parseGraphPathEntityParam (name raw : String) : Except String EntityId :=
  let message := name ++ " must be an entity node id (`ent:<value>`); got " ++ Text.debug raw
  let trimmed := Text.trimList raw.toList
  match trimmed.dropWhile (· ≠ ':') with
  | [] => .error message
  | _ :: value =>
    if trimmed.takeWhile (· ≠ ':') ≠ "ent".toList ||
      value.isEmpty then .error message else .ok (String.ofList value)

variable {K : Type} [Field K] [LinearOrder K]

def buildGraphPath (F : Powers K) (steps : List (GraphPathStep K)) (temporal : Bool) :
    GraphPath K where
  nodes := (steps.head?.map (·.source)).toList ++ steps.map (·.target)
  edges := steps
  hops := steps.length
  score :=
    if steps.isEmpty then 0
    else
      let product := (steps.map fun s => max s.confidence 0 * max s.strength 0).foldl (· * ·) 1
      F.powf product (1 / (steps.length : K))
  reasonCodes :=
    [if steps.length = 1 then "direct_relationship" else "two_hop_relationship_path",
      "evidence_backed"] ++
      if temporal then ["temporal_match"] else []

/-- `valid_from_ms <= ?3 AND (valid_to_ms IS NULL OR valid_to_ms > ?3)`, if there is a `?3`. -/
def EntityEdge.validAt (e : EntityEdge K) (asOfMs : Option ℤ) : Bool :=
  asOfMs.all fun ms => e.validFromMs ≤ ms && e.validToMs.all (ms < ·)

namespace Tables

def graphPathStep (t : Tables K) (e : EntityEdge K) : GraphPathStep K :=
  ⟨e.edgeId, "ent:" ++ e.source, "ent:" ++ e.target, e.predicate, e.confidence, e.strength,
    e.evidenceCount, e.validFromMs, e.validToMs, .active, (t.evidenceOf e.edgeId).bind (·.memoryId)⟩

def fetchGraphPathStep (t : Tables K) (edgeId : String) : Option (GraphPathStep K) :=
  (t.entityEdges.find? (·.edgeId = edgeId)).map t.graphPathStep

section Between

variable (t : Tables K) (source target : EntityId) (asOfMs : Option ℤ) (limit : ℕ)

def edgesBetween : List (EntityEdge K) :=
  t.entityEdges.filter fun e => e.source = source && e.target = target && e.validAt asOfMs

def edgePairsBetween : List (EntityEdge K × EntityEdge K) :=
  t.joined fun a b => b.source = a.target && a.source = source && b.target = target &&
    a.target ≠ source && a.target ≠ target && a.validAt asOfMs && b.validAt asOfMs

def edgeIdsBetween : List String :=
  ((sortByKey (fun e : EntityEdge K =>
      (toLex (OrderDual.toDual (e.strength * e.confidence), e.edgeId) : Kᵒᵈ ×ₗ String))
    (t.edgesBetween source target asOfMs)).take limit).map (·.edgeId)

def edgeIdPairsBetween : List (String × String) :=
  ((sortByKey twoHopKey (t.edgePairsBetween source target asOfMs)).take limit).map fun ab =>
    (ab.1.edgeId, ab.2.edgeId)

end Between

end Tables

/-- The order of the paths; `partial_cmp` is total on the scores of an ordered field. -/
def graphPathKey (p : GraphPath K) : Kᵒᵈ ×ₗ ℕ ×ₗ String :=
  toLex (OrderDual.toDual p.score, toLex (p.hops, "\x1f".intercalate (p.edges.map (·.edgeId))))

def fetchPathsBetween (F : Powers K) (t : Tables K) (source target : EntityId) (maxHops : ℕ)
    (asOfMs : Option ℤ) (limit : ℕ) : List (GraphPath K) :=
  let direct := (t.edgeIdsBetween source target asOfMs limit).filterMap fun id =>
    (t.fetchGraphPathStep id).map fun s => buildGraphPath F [s] asOfMs.isSome
  let twoHop :=
    if 2 ≤ maxHops then
      (t.edgeIdPairsBetween source target asOfMs limit).filterMap fun ab =>
        (t.fetchGraphPathStep ab.1).bind fun first =>
          (t.fetchGraphPathStep ab.2).map fun second => buildGraphPath F [first, second]
            asOfMs.isSome
    else []
  (sortByKey graphPathKey (direct ++ twoHop)).take limit

def graphPathsHandler (F : Powers K) (t : Tables K) (q : GraphPathsQuery) :
    Except String (GraphPathsResponse K) := do
  let source ← parseGraphPathEntityParam "from" q.fromNode
  let target ← parseGraphPathEntityParam "to" q.toNode
  rejectIf (source = target) "from and to must be different entities"
  let maxHops := q.maxHops.getD graphPathsDefaultMaxHops
  rejectIf (¬(1 ≤ maxHops ∧ maxHops ≤ graphPathsMaxHops))
    s!"max_hops must be between 1 and {graphPathsMaxHops}"
  rejectIf (q.asOfMs.any (· < 0) = true) "as_of_ms must be >= 0"
  let limit := clamp (q.limit.getD graphPathsDefaultLimit) 1 graphPathsMaxLimit
  return ⟨"ent:" ++ source, "ent:" ++ target, maxHops,
    fetchPathsBetween F t source target maxHops q.asOfMs limit⟩

section Between

variable {F : Powers K} {t : Tables K} {source target : EntityId} {asOfMs : Option ℤ}
  {limit maxHops : ℕ}

omit [Field K] in
theorem fetchGraphPathStep_eq {e : EntityEdge K} (he : e ∈ t.entityEdges) :
    t.fetchGraphPathStep e.edgeId = some (t.graphPathStep e) :=
  congrArg _ ((Occurrences.find?_eq_some t.entityEdges_unique).2 ⟨he, rfl⟩)

theorem mem_edgeIdsBetween {id : String} (h : id ∈ t.edgeIdsBetween source target asOfMs limit) :
    ∃ e ∈ t.entityEdges, e.edgeId = id ∧ e.source = source ∧ e.target = target := by
  obtain ⟨e, he, rfl⟩ := List.mem_map.1 h
  obtain ⟨hmem, hends⟩ := List.mem_filter.1 (sortByKey_perm.mem_iff.1 (List.mem_of_mem_take he))
  simp only [Bool.and_eq_true, decide_eq_true_eq] at hends
  exact ⟨e, hmem, rfl, hends.1.1, hends.1.2⟩

theorem mem_edgeIdPairsBetween {ids : String × String}
    (h : ids ∈ t.edgeIdPairsBetween source target asOfMs limit) :
    ∃ a ∈ t.entityEdges, ∃ b ∈ t.entityEdges, ids = (a.edgeId, b.edgeId) ∧ a.source = source ∧
    b.target = target ∧
      a.target ≠ source ∧ a.target ≠ target := by
  obtain ⟨ab, hab, rfl⟩ := List.mem_map.1 h
  obtain ⟨ha, hb, hjoin⟩ :=
    Tables.mem_joined.1 (sortByKey_perm.mem_iff.1 (List.mem_of_mem_take hab))
  simp only [Bool.and_eq_true, decide_eq_true_eq] at hjoin
  obtain ⟨⟨⟨⟨⟨⟨-, hsource⟩, htarget⟩, hne⟩, hne'⟩, -⟩, -⟩ := hjoin
  exact ⟨ab.1, ha, ab.2, hb, rfl, hsource, htarget, hne, hne'⟩

/-- Between two entities that differ, no path repeats a node. -/
theorem fetchPathsBetween_distinct (hne : source ≠ target) {p : GraphPath K}
    (hp : p ∈ fetchPathsBetween F t source target maxHops asOfMs limit) : p.nodes.Nodup := by
  rcases List.mem_append.1 (sortByKey_perm.mem_iff.1 (List.mem_of_mem_take hp)) with hp | hp
  · obtain ⟨id, hid, hsome⟩ := List.mem_filterMap.1 hp
    obtain ⟨e, he, rfl, rfl, rfl⟩ := mem_edgeIdsBetween hid
    rw [fetchGraphPathStep_eq he] at hsome
    obtain rfl := Option.some.inj hsome
    have hnodup : ["ent:" ++ e.source, "ent:" ++ e.target].Nodup := by simp [hne]
    exact hnodup
  · split at hp
    · obtain ⟨ids, hids, hsome⟩ := List.mem_filterMap.1 hp
      obtain ⟨a, ha, b, hb, rfl, rfl, rfl, hsource, htarget⟩ := mem_edgeIdPairsBetween hids
      rw [fetchGraphPathStep_eq ha, fetchGraphPathStep_eq hb] at hsome
      obtain rfl := Option.some.inj hsome
      have hnodup : ["ent:" ++ a.source, "ent:" ++ a.target, "ent:" ++ b.target].Nodup := by
        simp [hne, hsource.symm, htarget]
      exact hnodup
    · cases hp

/-- What the handler answers with, if it does. -/
theorem graphPathsHandler_eq_ok {q : GraphPathsQuery} {response : GraphPathsResponse K}
    (h : graphPathsHandler F t q = .ok response) :
    ∃ source target maxHops limit, source ≠ target ∧
      response.paths = fetchPathsBetween F t source target maxHops q.asOfMs limit := by
  unfold graphPathsHandler at h
  obtain ⟨source, -, h⟩ := bind_eq_ok.1 h
  obtain ⟨target, -, h⟩ := bind_eq_ok.1 h
  obtain ⟨_, hne, h⟩ := bind_eq_ok.1 h
  obtain ⟨_, -, h⟩ := bind_eq_ok.1 h
  obtain ⟨_, -, h⟩ := bind_eq_ok.1 h
  obtain rfl := pure_eq_ok.1 h
  exact ⟨source, target, _, _, rejectIf_eq_ok.1 hne, rfl⟩

/-- The paths of the memory context are lawful exactly where no loop is at hand; those of the
endpoint never repeat a node. -/
theorem contextPaths_simple (F : Powers K) (t : Tables K) (seeds : List EntityId) :
    ((∀ limit, Lawful t seeds (fetchGraphRelationshipPaths F t seeds limit)) ↔ NoLoops t seeds) ∧
    ∀ q response, graphPathsHandler F t q = .ok response → ∀ p ∈ response.paths, p.nodes.Nodup := by
  refine ⟨lawful_iff F t seeds, fun q response hresponse p hp => ?_⟩
  obtain ⟨source, target, maxHops, limit, hne, hpaths⟩ := graphPathsHandler_eq_ok hresponse
  rw [hpaths] at hp
  exact fetchPathsBetween_distinct hne hp

end Between

/-! ### An entity that relates to itself -/

/-- The powers of one, which are all that a sure edge without evidence needs. -/
def onePowers : Powers ℚ := ⟨fun x => x, fun x _ => x⟩

def loopTables : Tables ℚ where
  edges := [⟨"e1", "solo", "uses", .entity "solo", 0, none, 1, 1, 0, .active, 0⟩]
  evidence := []
  episodes := []
  edge_unique := List.nodup_singleton _

/-- The direct path of the loop visits its node twice. -/
theorem contextPaths_repeat :
    ¬ ((∀ limit, Lawful loopTables ["solo"]
      (fetchGraphRelationshipPaths onePowers loopTables ["solo"] limit)) ∧
      ∀ q response, graphPathsHandler onePowers loopTables q = .ok response →
        ∀ p ∈ response.paths, p.nodes.Nodup) := by
  rintro ⟨hlawful, -⟩
  have hnodes : (fetchGraphRelationshipPaths onePowers loopTables ["solo"] 1).map (·.nodes) =
      [["solo", "solo"]] := by
    decide +kernel
  have hall : ∀ nodes ∈ (fetchGraphRelationshipPaths onePowers loopTables ["solo"] 1).map (·.nodes),
      nodes.Nodup := by
    intro nodes hmem
    obtain ⟨p, hp, rfl⟩ := List.mem_map.1 hmem
    exact ((hlawful 1).simple p hp).distinct
  rw [hnodes] at hall
  revert hall
  decide

end Solo.Graph
