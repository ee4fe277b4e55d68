import Mathlib.Analysis.Complex.ExponentialBounds
import Mathlib.Analysis.SpecialFunctions.Pow.Real
import Solo.Lib.Selection
import Solo.Query.ContextPaths

/-!
# Which paths the context graph returns

The queries order their rows by strength and confidence, the paths are ordered by a score that
evidence raises as well. So the paths returned are the best ones exactly where the best ones, or as
good ones, are within the limit of their own query too.
-/

namespace Solo.Graph

open StableSort

section Ranking

variable {K : Type} [Field K] [LinearOrder K] {F : Powers K} {t : Tables K} {seeds : List EntityId}
  {limit : ℕ}

/-- The path of a row with fewer than `limit` rows before it in its query. -/
def InReach (F : Powers K) (t : Tables K) (seeds : List EntityId) (limit : ℕ)
    (p : MemoryGraphPath K) : Prop :=
  (∃ e, Within Tables.directKey limit (t.directEdges seeds) e ∧ p = directPath F t e) ∨
    ∃ ab, Within Tables.twoHopKey limit (t.twoHopEdges seeds) ab ∧ p = twoHopPath F t ab

theorem mem_cutPaths_iff {p : MemoryGraphPath K} : p ∈ cutPaths F t seeds limit ↔
    InReach F t seeds limit p := by
  have hdirect : ∀ a ∈ t.directEdges seeds, ∀ b ∈ t.directEdges seeds,
      Tables.directKey a = Tables.directKey b → a = b := by
    intro a ha b hb h
    have hid : a.edgeId = b.edgeId := (Prod.ext_iff.1 (Prod.ext_iff.1 h).2).2
    exact Tables.eq_of_edgeId (mem_directEdges.1 ha).1 (mem_directEdges.1 hb).1 hid
  have htwoHop : ∀ a ∈ t.twoHopEdges seeds, ∀ b ∈ t.twoHopEdges seeds,
      Tables.twoHopKey a = Tables.twoHopKey b → a = b := by
    intro a ha b hb h
    obtain ⟨hfirst, hsecond⟩ := Prod.ext_iff.1 (Prod.ext_iff.1 h).2
    obtain ⟨ha₁, ha₂, -⟩ := mem_twoHopEdges.1 ha
    obtain ⟨hb₁, hb₂, -⟩ := mem_twoHopEdges.1 hb
    exact Prod.ext (Tables.eq_of_edgeId ha₁ hb₁ hfirst) (Tables.eq_of_edgeId ha₂ hb₂ hsecond)
  unfold cutPaths InReach
  rw [List.mem_append, List.mem_map, List.mem_map]
  refine or_congr (exists_congr fun e => ?_) (exists_congr fun ab => ?_)
  · rw [mem_take_sortByKey hdirect, eq_comm]
  · rw [mem_take_sortByKey htwoHop, eq_comm]

theorem nodup_allPaths : (allPaths F t seeds).Nodup := by
  have hids : ((allPaths F t seeds).map fun p => p.edges.map (·.edgeId)).Nodup := by
    refine nodup_edgeIds (t.nodup_entityEdges.filter _) (t.nodup_joined _) (fun e he => ?_)
      fun ab hab => ?_
    · exact (mem_directEdges.1 he).1
    · obtain ⟨ha, hb, -⟩ := mem_twoHopEdges.1 hab
      exact ⟨ha, hb⟩
  exact hids.of_map _

/-- The paths of the rows beyond the limits. -/
def lostPaths (F : Powers K) (t : Tables K) (seeds : List EntityId) (limit : ℕ) :
    List (MemoryGraphPath K) :=
  ((sortByKey Tables.directKey (t.directEdges seeds)).drop limit).map (directPath F t) ++
    ((sortByKey Tables.twoHopKey (t.twoHopEdges seeds)).drop limit).map (twoHopPath F t)

/-- They make up the rest. -/
theorem cutPaths_perm (F : Powers K) (t : Tables K) (seeds : List EntityId) (limit : ℕ) :
    (cutPaths F t seeds limit ++ lostPaths F t seeds limit).Perm (allPaths F t seeds) := by
  have hsplit {α κ β : Type} [LinearOrder κ] (key : α → κ) (f : α → β) (l : List α) :
      (((sortByKey key l).take limit).map f ++ ((sortByKey key l).drop limit).map f).Perm
      (l.map f) := by
    rw [← List.map_append, List.take_append_drop]
    exact sortByKey_perm.map f
  refine List.Perm.trans ?_ ((hsplit Tables.directKey (directPath F t) _).append
    (hsplit Tables.twoHopKey (twoHopPath F t) _))
  unfold cutPaths lostPaths
  rw [List.append_assoc, List.append_assoc]
  refine List.Perm.append_left _ ?_
  rw [← List.append_assoc, ← List.append_assoc]
  exact List.Perm.append_right _ List.perm_append_comm

/-- The paths returned are the first of all exactly where a choice of the first of all is in
reach. -/
theorem contextPaths_first (F : Powers K) (t : Tables K) (seeds : List EntityId) (limit : ℕ) :
    IsFirst pathKey limit (allPaths F t seeds) (fetchGraphRelationshipPaths F t seeds limit) ↔
      ∃ best, IsFirst pathKey limit (allPaths F t seeds) best ∧
      ∀ p ∈ best, InReach F t seeds limit p := by
  rw [fetchGraphRelationshipPaths_eq]
  constructor
  · intro h
    exact ⟨_, h,
      fun p hp => mem_cutPaths_iff.1 (sortByKey_perm.mem_iff.1 (List.mem_of_mem_take hp))⟩
  · rintro ⟨best, hbest, hreach⟩
    exact isFirst_of_kept nodup_allPaths (cutPaths_perm F t seeds limit)
      (isFirst_take_sortByKey pathKey limit _) hbest fun p hp => mem_cutPaths_iff.2 (hreach p hp)

/-- In terms of the edges: each edge, and each pair of them, that its query cuts off has `limit`
paths left that are at least as good. -/
theorem contextPaths_first_iff_edges (F : Powers K) (t : Tables K) (seeds : List EntityId)
    (limit : ℕ) :
    IsFirst pathKey limit (allPaths F t seeds) (fetchGraphRelationshipPaths F t seeds limit) ↔
      (∀ e ∈ (sortByKey Tables.directKey (t.directEdges seeds)).drop limit,
        limit ≤ (cutPaths F t seeds limit).countP (pathKey · ≤ pathKey (directPath F t e))) ∧
      ∀ ab ∈ (sortByKey Tables.twoHopKey (t.twoHopEdges seeds)).drop limit,
        limit ≤ (cutPaths F t seeds limit).countP (pathKey · ≤ pathKey (twoHopPath F t ab)) := by
  rw [fetchGraphRelationshipPaths_eq, isFirst_take_kept_iff (cutPaths_perm F t seeds limit)]
  unfold lostPaths
  rw [List.forall_mem_append, List.forall_mem_map, List.forall_mem_map]

end Ranking

/-! ### An edge with evidence -/

noncomputable def realPowers : Powers ℝ := ⟨fun x => Real.log (1 + x), fun x y => x ^ y⟩

/-- An edge without evidence, and a weaker one with ten pieces of it. -/
noncomputable def boostedTables : Tables ℝ where
  edges :=
    [⟨"e1", "solo", "uses", .entity "ollama", 0, none, 1, (1 / 2 : ℚ), 0, .active, 0⟩,
      ⟨"e2", "solo", "uses", .entity "nomic", 0, none, 1, (12 / 25 : ℚ), 10, .active, 0⟩]
  evidence := []
  episodes := []
  edge_unique := by decide

noncomputable def plainEdge : EntityEdge ℝ :=
  ⟨"e1", "solo", "ollama", "uses", 1, (1 / 2 : ℚ), 0, 0, none, 0⟩

noncomputable def boostedEdge : EntityEdge ℝ :=
  ⟨"e2", "solo", "nomic", "uses", 1, (12 / 25 : ℚ), 10, 0, none, 0⟩

theorem entityEdges_boosted : boostedTables.entityEdges = [plainEdge, boostedEdge] := rfl

theorem directEdges_boosted : boostedTables.directEdges ["solo"] = [plainEdge, boostedEdge] := by
  rw [Tables.directEdges, entityEdges_boosted]
  rfl

theorem score_lt : (directPath realPowers boostedTables plainEdge).score <
    (directPath realPowers boostedTables boostedEdge).score := by
  have hlog : (1 : ℝ) < Real.log 11 := by
    rw [Real.lt_log_iff_exp_lt (by norm_num)]
    exact Real.exp_one_lt_d9.trans (by norm_num)
  have hplain : (directPath realPowers boostedTables plainEdge).score = 1 / 2 := by
    simp [directPath, buildMemoryGraphPath, graphItemScore, Tables.step, realPowers, plainEdge]
  have hboosted : (directPath realPowers boostedTables boostedEdge).score = 12 / 25 *
      (1 + Real.log 11 * (5 / 100)) := by
    simp [directPath, buildMemoryGraphPath, graphItemScore, Tables.step, realPowers, boostedEdge]
    norm_num
  rw [hplain, hboosted]
  linarith

theorem twoHopEdges_boosted : boostedTables.twoHopEdges ["solo"] = [] := by
  refine List.eq_nil_iff_forall_not_mem.2 fun ab hab => ?_
  obtain ⟨ha, hb, hjoin, -⟩ := mem_twoHopEdges.1 hab
  rw [entityEdges_boosted, List.mem_pair] at ha hb
  rcases ha with ha | ha <;> rcases hb with hb | hb <;> rw [ha, hb] at hjoin <;>
    simp [plainEdge, boostedEdge] at hjoin

/-- Only the stronger edge is in reach. -/
theorem inReach_boosted {p : MemoryGraphPath ℝ}
    (h : InReach realPowers boostedTables ["solo"] 1 p) :
    p = directPath realPowers boostedTables plainEdge := by
  rcases h with ⟨e, ⟨he, hbefore⟩, rfl⟩ | ⟨ab, ⟨hab, -⟩, -⟩
  · rw [directEdges_boosted] at he hbefore
    rcases List.mem_pair.1 he with rfl | rfl
    · rfl
    · have hplain : plainEdge ∈ [plainEdge, boostedEdge].filter
          fun e => Tables.directKey e < Tables.directKey boostedEdge := by
        refine List.mem_filter.2
          ⟨List.mem_cons_self, decide_eq_true (Prod.Lex.toLex_lt_toLex.2 (.inl ?_))⟩
        rw [OrderDual.toDual_lt_toDual]
        norm_num [plainEdge, boostedEdge]
      have hpos := List.length_pos_of_mem hplain
      omega
  · rw [twoHopEdges_boosted] at hab
    cases hab

/-- With limit 1, the stronger edge is selected and the better path lost. -/
theorem contextPaths_lost :
    (∀ e ∈ boostedTables.edges, 0 ≤ e.confidence ∧ 0 ≤ e.strength) ∧
    ¬ IsFirst pathKey 1 (allPaths realPowers boostedTables ["solo"])
      (fetchGraphRelationshipPaths realPowers boostedTables ["solo"] 1) := by
  constructor
  · intro e he
    rcases List.mem_pair.1 he with rfl | rfl <;> norm_num
  · rintro ⟨rest, hperm, hlength, -, hcross⟩
    have hplain {p : MemoryGraphPath ℝ}
        (hp : p ∈ fetchGraphRelationshipPaths realPowers boostedTables ["solo"] 1) :
        p = directPath realPowers boostedTables plainEdge := by
      rw [fetchGraphRelationshipPaths_eq] at hp
      exact inReach_boosted
        (mem_cutPaths_iff.1 (sortByKey_perm.mem_iff.1 (List.mem_of_mem_take hp)))
    have hboosted : directPath realPowers boostedTables boostedEdge ∈
        allPaths realPowers boostedTables ["solo"] := by
      refine List.mem_append_left _ (List.mem_map_of_mem ?_)
      rw [directEdges_boosted]
      exact List.mem_cons_of_mem _ List.mem_cons_self
    have hpos := List.length_pos_of_mem hboosted
    obtain ⟨p, hp⟩ : ∃ p, p ∈ fetchGraphRelationshipPaths realPowers boostedTables ["solo"] 1 :=
      List.exists_mem_of_length_pos (by omega)
    have hscore := score_lt
    rcases List.mem_append.1 (hperm.mem_iff.2 hboosted) with hmem | hmem
    · rw [hplain hmem] at hscore
      exact lt_irrefl _ hscore
    · have hle := hcross p hp _ hmem
      rw [hplain hp] at hle
      rcases Prod.Lex.toLex_le_toLex.1 hle with hlt | ⟨heq, -⟩
      · exact lt_asymm hscore (OrderDual.toDual_lt_toDual.1 hlt)
      · exact hscore.ne (OrderDual.toDual_inj.1 heq)

end Solo.Graph
