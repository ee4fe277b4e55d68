import Solo.Derived.Attach
import Solo.Derived.Reabstract
import Solo.Lib.Backlog

/-!
# How far the triples batch gets (`fetch_clusters_without_abstractions`)

The limit counts the clusters that need an abstraction, and those without active episodes are left
out afterwards. They never get one, so they keep their places: a batch is short while any of them is
among the first, and what comes after `limit` of them is never reached. A cluster with a low-signal
abstraction is queued again, ahead of later clusters without any.
-/

namespace Solo

open Backlog

namespace Derived

/-- The clusters that need an abstraction, oldest first. -/
def needing (d : Derived) : List ClusterRow := d.clusters.rows.filter d.needsAbstraction

/-- The cluster has an active episode. -/
def hasActiveEpisode (s : Store) (d : Derived) (c : ClusterRow) : Bool :=
  !(fetchEpisodesForCluster s d c.clusterId).isEmpty

/-- The cluster has no abstraction, not even a low-signal one. -/
def unabstracted (d : Derived) (c : ClusterRow) : Bool :=
  !d.semanticAbstractions.rows.any (·.clusterId = c.clusterId)

/-- The clusters that a fetch is meant for. -/
def waiting (s : Store) (d : Derived) (c : ClusterRow) : Bool :=
  d.hasActiveEpisode s c && d.unabstracted c

/-- A round: abstractions for some of the clusters fetched are attached, as far as they can be. -/
def Round (s : Store) (limit : Nat) (d d' : Derived) : Prop :=
  ∃ nowMs deferred items report,
    (items.map Prod.fst).Sublist
    ((fetchClustersWithoutAbstractions s d limit).map (·.1.clusterId)) ∧
    handleAttachAbstractionBatch s nowMs deferred d items = .ok (d', report)

/-- A round that attaches an abstraction to each cluster it fetches, and none that will be
retried. -/
def AttachesFetched (s : Store) (limit : Nat) (d d' : Derived) : Prop :=
  ∃ nowMs deferred items report,
    items.map Prod.fst = (fetchClustersWithoutAbstractions s d limit).map (·.1.clusterId) ∧
    (∀ i ∈ items, isLowSignalAbstraction i.2.content = false) ∧
    handleAttachAbstractionBatch s nowMs deferred d items = .ok (d', report) ∧
    report.clustersFailed = 0

/-- No cluster with an active episode is without an abstraction. -/
def Covered (s : Store) (d : Derived) : Prop := ∀ c ∈ d.clusters.rows, d.waiting s c = false

variable {s : Store} {nowMs : Int} {d d' : Derived}

/-! ### What attaching does -/

/-- Clusters and their members are the same. -/
def SameClusters (d d' : Derived) : Prop :=
  d'.clusters = d.clusters ∧ d'.clusterEpisodes = d.clusterEpisodes

theorem attachTriple_frame {c : ClusterId} {t : Triple} (h : attachTriple s nowMs c d t = some d') :
    SameClusters d d' ∧ d'.semanticAbstractions = d.semanticAbstractions := by
  unfold attachTriple at h
  cases hdecision : evaluateForCluster s c t with
  | active a =>
    rw [hdecision] at h
    obtain ⟨_, _, _, _, _, -, -, rfl⟩ := insertActiveTriple_eq_some h
    exact ⟨⟨rfl, rfl⟩, rfl⟩
  | review candidate =>
    rw [hdecision] at h
    obtain ⟨_, _, -, -, rfl⟩ := insertTripleReview_eq_some h
    exact ⟨⟨rfl, rfl⟩, rfl⟩

theorem foldlM_attachTriple_frame {c : ClusterId} {ts : List Triple}
    (h : ts.foldlM (attachTriple s nowMs c) d = some d') :
    SameClusters d d' ∧ d'.semanticAbstractions = d.semanticAbstractions := by
  induction ts generalizing d with
  | nil =>
    simp only [List.foldlM_nil, Option.pure_def, Option.some.injEq] at h
    subst h
    exact ⟨⟨rfl, rfl⟩, rfl⟩
  | cons t ts ih =>
    simp only [List.foldlM_cons, Option.bind_eq_bind, Option.bind_eq_some_iff] at h
    obtain ⟨d₁, h₁, h₂⟩ := h
    obtain ⟨⟨hc, hm⟩, ha⟩ := attachTriple_frame h₁
    obtain ⟨⟨hc', hm'⟩, ha'⟩ := ih h₂
    exact ⟨⟨hc'.trans hc, hm'.trans hm⟩, ha'.trans ha⟩

/-- The new abstraction takes the place of those of its cluster. -/
theorem attachAbstraction_frame {a : SemanticAbstraction}
    (h : d.attachAbstraction s nowMs a = some d') :
    SameClusters d d' ∧ ∃ row : AbstractionRow, row.clusterId = a.clusterId ∧
    row.content = a.content ∧
      d'.semanticAbstractions.rows = d.semanticAbstractions.rows.filter
      (fun r => !decide (r.clusterId = a.clusterId)) ++ [row] := by
  obtain ⟨d₁, h₁, h₂⟩ := Option.bind_eq_some_iff.1 h
  obtain ⟨-, -, h₁⟩ := Option.bind_eq_some_iff.1 h₁
  obtain ⟨abstractions, hins, h₁⟩ := Option.bind_eq_some_iff.1 h₁
  obtain rfl := Option.some.inj h₁
  obtain ⟨⟨hc, hm⟩, ha⟩ := foldlM_attachTriple_frame h₂
  refine ⟨⟨hc, hm⟩, ⟨a.abstractionId, a.clusterId, a.content, a.provenance, a.confidence⟩, rfl, rfl,
    ?_⟩
  rw [ha]
  exact Table.insert?_rows hins

/-- An abstraction of another cluster stays, and one of this cluster is there. -/
theorem any_attach {a : SemanticAbstraction} (h : d.attachAbstraction s nowMs a = some d')
    (c : ClusterRow) (q : String → Bool) :
    (d'.semanticAbstractions.rows.any fun r => r.clusterId = c.clusterId && q r.content) =
      if c.clusterId = a.clusterId then q a.content
      else d.semanticAbstractions.rows.any fun r => r.clusterId = c.clusterId && q r.content := by
  obtain ⟨-, row, hrow, hcontent, hrows⟩ := attachAbstraction_frame h
  rw [hrows, List.any_append, List.any_filter, List.any_cons, List.any_nil, hrow, hcontent,
    Bool.or_false]
  by_cases hc : c.clusterId = a.clusterId
  · rw [if_pos hc, decide_eq_true hc.symm, Bool.true_and]
    have hnone : (d.semanticAbstractions.rows.any fun r =>
        !decide (r.clusterId = a.clusterId) &&
          (decide (r.clusterId = c.clusterId) && q r.content)) = false := by
      rw [List.any_eq_false]
      intro r _
      rw [hc]
      cases decide (r.clusterId = a.clusterId) <;> simp
    rw [hnone, Bool.false_or]
  · rw [if_neg hc, decide_eq_false (Ne.symm hc), Bool.false_and, Bool.or_false]
    refine congrArg (d.semanticAbstractions.rows.any ·) (funext fun r => ?_)
    by_cases hr : r.clusterId = c.clusterId
    · simp [hr, hc]
    · simp [hr]

theorem unabstracted_eq (d : Derived) (c : ClusterRow) :
    d.unabstracted c = !d.semanticAbstractions.rows.any fun r => r.clusterId = c.clusterId &&
    true := by
  simp only [unabstracted, Bool.and_true]

theorem needsAbstraction_eq (d : Derived) (c : ClusterRow) :
    d.needsAbstraction c = (d.unabstracted c ||
    d.semanticAbstractions.rows.any fun r => r.clusterId = c.clusterId &&
      isLowSignalAbstraction r.content) := rfl

theorem unabstracted_attach {a : SemanticAbstraction} (h : d.attachAbstraction s nowMs a = some d')
    (c : ClusterRow) :
    d'.unabstracted c = (d.unabstracted c && !decide (c.clusterId = a.clusterId)) := by
  rw [unabstracted_eq, unabstracted_eq, any_attach h c fun _ => true]
  by_cases hc : c.clusterId = a.clusterId <;> simp [hc]

theorem needsAbstraction_attach {a : SemanticAbstraction}
    (h : d.attachAbstraction s nowMs a = some d')
    (hgood : isLowSignalAbstraction a.content = false) (c : ClusterRow) :
    d'.needsAbstraction c = (d.needsAbstraction c && !decide (c.clusterId = a.clusterId)) := by
  rw [needsAbstraction_eq, needsAbstraction_eq, unabstracted_attach h, any_attach h]
  by_cases hc : c.clusterId = a.clusterId <;> simp [hc, hgood]

/-- A batch attaches the abstractions that do not fail. -/
theorem foldl_attachCluster {items : List SemanticAbstraction} {report report' : AttachReport}
    (h : items.foldl (attachCluster s nowMs) (d, report) = (d', report')) :
    ∃ attached : List SemanticAbstraction, attached.Sublist items ∧
      report'.clustersFailed + attached.length = report.clustersFailed + items.length ∧
      SameClusters d d' ∧
      (∀ c, d'.unabstracted c =
        (d.unabstracted c && !decide (c.clusterId ∈ attached.map (·.clusterId)))) ∧
      ((∀ a ∈ attached, isLowSignalAbstraction a.content = false) → ∀ c,
        d'.needsAbstraction c =
          (d.needsAbstraction c && !decide (c.clusterId ∈ attached.map (·.clusterId)))) := by
  induction items generalizing d report with
  | nil =>
    obtain ⟨rfl, rfl⟩ := Prod.ext_iff.1 h
    exact ⟨[], .slnil, rfl, ⟨rfl, rfl⟩, fun c => by simp, fun _ c => by simp⟩
  | cons a items ih =>
    rw [List.foldl_cons] at h
    cases hattach : d.attachAbstraction s nowMs a with
    | none =>
      have hnext :
          attachCluster s nowMs (d, report) a =
          (d, { report with clustersFailed := report.clustersFailed + 1 }) := by
        unfold attachCluster
        rw [hattach]
      rw [hnext] at h
      obtain ⟨attached, hsub, hcount, hsame, hbare, hneeds⟩ := ih h
      refine ⟨attached, hsub.cons a, ?_, hsame, hbare, hneeds⟩
      rw [hcount, List.length_cons]
      dsimp only
      omega
    | some d₁ =>
      obtain ⟨report₁, hnext, hfailed⟩ : ∃ report₁, attachCluster s nowMs (d, report) a =
          (d₁, report₁) ∧ report₁.clustersFailed = report.clustersFailed := by
        unfold attachCluster
        rw [hattach]
        exact ⟨_, rfl, rfl⟩
      rw [hnext] at h
      obtain ⟨attached, hsub, hcount, ⟨hclusters, hmembers⟩, hbare, hneeds⟩ := ih h
      obtain ⟨⟨hclusters₁, hmembers₁⟩, -⟩ := attachAbstraction_frame hattach
      refine ⟨a :: attached, hsub.cons_cons a, ?_,
        ⟨hclusters.trans hclusters₁, hmembers.trans hmembers₁⟩, fun c => ?_, fun hgood c => ?_⟩
      · rw [List.length_cons, List.length_cons, ← hfailed]
        omega
      · rw [hbare, unabstracted_attach hattach]
        by_cases hc : c.clusterId = a.clusterId <;> simp [hc]
      · rw [hneeds fun b hb => hgood b (List.mem_cons_of_mem _ hb),
          needsAbstraction_attach hattach (hgood a List.mem_cons_self)]
        by_cases hc : c.clusterId = a.clusterId <;> simp [hc]

/-- The abstractions that a batch attaches, by their clusters. -/
theorem handleAttachAbstractionBatch_attached {deferred : Nat}
    {items : List (ClusterId × SemanticAbstraction)}
    {report : AttachReport}
    (h : handleAttachAbstractionBatch s nowMs deferred d items = .ok (d', report)) :
    ∃ attached : List ClusterId, attached.Sublist (items.map Prod.fst) ∧
      (report.clustersFailed = 0 → attached = items.map Prod.fst) ∧ SameClusters d d' ∧
      (∀ c, d'.unabstracted c = (d.unabstracted c && !decide (c.clusterId ∈ attached))) ∧
      ((∀ i ∈ items, isLowSignalAbstraction i.2.content = false) → ∀ c,
        d'.needsAbstraction c = (d.needsAbstraction c && !decide (c.clusterId ∈ attached))) := by
  unfold handleAttachAbstractionBatch at h
  cases hfind : items.find? fun i => i.2.clusterId ≠ i.1 with
  | some i =>
    rw [hfind] at h
    cases h
  | none =>
    rw [hfind] at h
    have hids : (items.map Prod.snd).map (·.clusterId) = items.map Prod.fst := by
      rw [List.map_map]
      refine List.map_congr_left fun i hi => ?_
      have hnone := List.find?_eq_none.1 hfind i hi
      simpa using hnone
    obtain ⟨attached, hsub, hcount, hsame, hbare, hneeds⟩ := foldl_attachCluster (Except.ok.inj h)
    refine ⟨attached.map (·.clusterId), hids ▸ hsub.map _, fun hfailed => ?_, hsame, hbare,
      fun hgood => hneeds ?_⟩
    · have hlength : attached.length = (items.map Prod.snd).length := by
        rw [hfailed] at hcount
        simpa using hcount
      rw [hsub.eq_of_length hlength, hids]
    · intro a ha
      obtain ⟨i, hi, rfl⟩ := List.mem_map.1 (hsub.subset ha)
      exact hgood i hi

/-! ### The batch as a drain of the backlog -/

theorem length_fetch (s : Store) (d : Derived) (limit : Nat) :
    (fetchClustersWithoutAbstractions s d limit).map (·.1.clusterId) =
      (batch (d.hasActiveEpisode s) limit d.needing).map (·.clusterId) := by
  unfold fetchClustersWithoutAbstractions batch needing
  generalize (d.clusters.rows.filter d.needsAbstraction).take limit = rows
  induction rows with
  | nil => rfl
  | cons c rows ih =>
    rw [List.filterMap_cons, List.filter_cons]
    dsimp only
    cases hempty : (fetchEpisodesForCluster s d c.clusterId).isEmpty with
    | true =>
      have hdead : d.hasActiveEpisode s c = false := by rw [hasActiveEpisode, hempty]; rfl
      rw [if_pos rfl, hdead, if_neg Bool.false_ne_true]
      exact ih
    | false =>
      have hlive : d.hasActiveEpisode s c = true := by rw [hasActiveEpisode, hempty]; rfl
      rw [if_neg Bool.false_ne_true, hlive, if_pos rfl, List.map_cons, List.map_cons]
      exact congrArg _ ih

theorem hasActiveEpisode_same (h : SameClusters d d') :
    d'.hasActiveEpisode s = d.hasActiveEpisode s := by
  funext c
  unfold hasActiveEpisode fetchEpisodesForCluster
  rw [h.2]

theorem clusterIds_nodup (d : Derived) : (d.needing.map (·.clusterId)).Nodup := by
  have hrows : (d.clusters.rows.map (·.clusterId)).Nodup := by
    rw [List.Nodup, List.pairwise_map]
    exact d.clusters.unique.imp fun {a b} h => of_decide_eq_false h
  exact hrows.sublist (List.filter_sublist.map _)

/-- A batch leaves the backlog drained once, and gives no abstraction to what stays in it. -/
theorem needing_attachesFetched {limit : Nat} (h : AttachesFetched s limit d d') :
    d'.needing = drain (d.hasActiveEpisode s) limit d.needing ∧ SameClusters d d' ∧
      ∀ c ∈ d'.needing, d'.unabstracted c = d.unabstracted c := by
  obtain ⟨nowMs, deferred, items, report, hids, hgood, hattach, hfailed⟩ := h
  obtain ⟨attached, -, hall, hclusters, hbare, hneeds⟩ :=
    handleAttachAbstractionBatch_attached hattach
  have hitems : attached = (batch (d.hasActiveEpisode s) limit d.needing).map (·.clusterId) := by
    rw [hall hfailed, hids, length_fetch]
  have hneeds := hneeds hgood
  refine ⟨?_, hclusters, fun c hc => ?_⟩
  case refine_2 =>
    have hc' := (List.mem_filter.1 hc).2
    rw [hneeds, Bool.and_eq_true] at hc'
    rw [hbare, hc'.2, Bool.and_true]
  have hfilter : d'.needing = d.needing.filter fun c =>
      !decide (c.clusterId ∈ (batch (d.hasActiveEpisode s) limit d.needing).map (·.clusterId)) := by
    unfold needing
    rw [hclusters.1, List.filter_filter]
    refine List.filter_congr fun c _ => ?_
    rw [hneeds, hitems, Bool.and_comm]
    rfl
  rw [hfilter]
  -- a row is in the batch if its id is, as ids are unique
  have hnodup := clusterIds_nodup d
  generalize d.needing = l at hnodup
  have hmem {c : ClusterRow} (hc : c ∈ l) :
      c.clusterId ∈ (batch (d.hasActiveEpisode s) limit l).map (·.clusterId) ↔
      c ∈ batch (d.hasActiveEpisode s) limit l := by
    constructor
    · intro hid
      obtain ⟨b, hb, heq⟩ := List.mem_map.1 hid
      have hbl : b ∈ l := List.mem_of_mem_take (List.mem_filter.1 hb).1
      rwa [← List.inj_on_of_nodup_map hnodup hbl hc heq]
    · exact fun hb => List.mem_map_of_mem hb
  have hdisjoint : ∀ c ∈ l.drop limit, c ∉ l.take limit := by
    intro c hdrop htake
    have hl : l.Nodup := hnodup.of_map _
    rw [← List.take_append_drop limit l, List.nodup_append] at hl
    exact hl.2.2 c htake c hdrop rfl
  unfold drain
  conv => lhs; rw [← List.take_append_drop limit l, List.filter_append]
  rw [List.take_append_drop]
  refine congrArg₂ _ (List.filter_congr fun c hc => ?_) (List.filter_eq_self.2 fun c hc => ?_)
  · have hiff : c ∈ batch (d.hasActiveEpisode s) limit l ↔ d.hasActiveEpisode s c = true := by
      unfold batch
      rw [List.mem_filter]
      exact and_iff_right hc
    simp only [(hmem (List.mem_of_mem_take hc)).trans hiff, Bool.decide_eq_true]
  · have hnot : c.clusterId ∉ (batch (d.hasActiveEpisode s) limit l).map (·.clusterId) := by
      rw [hmem (List.mem_of_mem_drop hc)]
      exact fun hb => hdisjoint c hc (List.mem_filter.1 hb).1
    simpa using hnot

/-- What waits needs an abstraction. -/
theorem needs_of_waiting {c : ClusterRow} (h : d.waiting s c = true) :
    d.needsAbstraction c = true := by
  rw [needsAbstraction_eq, (Bool.and_eq_true_iff.1 h).2]
  rfl

theorem length_waiting (s : Store) (d : Derived) :
    (d.clusters.rows.filter (d.waiting s)).length = (d.needing.filter (d.waiting s)).length := by
  rw [needing, List.filter_filter]
  refine congrArg List.length (List.filter_congr fun c _ => ?_)
  cases hw : d.waiting s c with
  | false => rfl
  | true => rw [needs_of_waiting hw]; rfl

/-- The size of a fetch: those that wait among the first `limit`, and those that are retried. -/
theorem length_fetch_eq (s : Store) (d : Derived) (limit : Nat) :
    (fetchClustersWithoutAbstractions s d limit).length =
    (batch (d.hasActiveEpisode s) limit d.needing).length := by
  rw [← List.length_map, length_fetch, List.length_map]

theorem length_filter_and (p q : ClusterRow → Bool) (l : List ClusterRow) :
    (l.filter p).length = (l.filter fun c => p c && q c).length +
    (l.filter fun c => p c && !q c).length := by
  induction l with
  | nil => rfl
  | cons c l ih =>
    cases hp : p c <;> cases hq : q c <;> simp only [List.filter_cons, hp, hq] <;> simp at ih ⊢ <;>
      omega

/-- A fetch has the clusters that wait, up to the limit, exactly where no cluster without active
episodes is among the first `limit`; or, where fewer wait, where those of them that come too late
are as many as those retried in their place. -/
theorem length_fetch_iff (s : Store) (d : Derived) (limit : Nat) :
    (fetchClustersWithoutAbstractions s d limit).length =
        min limit (d.clusters.rows.filter (d.waiting s)).length ↔
      if limit ≤ (d.clusters.rows.filter (d.waiting s)).length then ∀ c ∈
        d.needing.take limit, d.hasActiveEpisode s c = true
      else ((d.needing.take limit).filter fun c => d.hasActiveEpisode s c &&
        !d.unabstracted c).length = ((d.needing.drop limit).filter (d.waiting s)).length := by
  have hsplit : (d.needing.filter (d.waiting s)).length =
      ((d.needing.take limit).filter (d.waiting s)).length +
      ((d.needing.drop limit).filter (d.waiting s)).length := by
    conv => lhs; rw [← List.take_append_drop limit d.needing, List.filter_append,
      List.length_append]
  have hbatch : (batch (d.hasActiveEpisode s) limit d.needing).length =
      ((d.needing.take limit).filter (d.waiting s)).length +
        ((d.needing.take limit).filter fun c => d.hasActiveEpisode s c &&
          !d.unabstracted c).length :=
    length_filter_and (d.hasActiveEpisode s) d.unabstracted (d.needing.take limit)
  have hall : (batch (d.hasActiveEpisode s) limit d.needing).length =
      (d.needing.take limit).length ↔
      ∀ c ∈ d.needing.take limit, d.hasActiveEpisode s c = true := List.length_filter_eq_length_iff
  rw [length_fetch_eq, length_waiting]
  split
  · next hle =>
    have hlong : (d.needing.take limit).length = limit := by
      rw [List.length_take]
      have := List.length_filter_le (d.waiting s) d.needing
      omega
    rw [← hall, hlong, Nat.min_eq_left hle]
  · next hlt => omega

/-- A round takes from those that wait, and keeps the clusters. -/
theorem Round.attached {limit : Nat} (h : Round s limit d d') : SameClusters d d' ∧
    ∀ c, d'.unabstracted c = true → d.unabstracted c = true := by
  obtain ⟨nowMs, deferred, items, report, -, hattach⟩ := h
  obtain ⟨attached, -, -, hclusters, hbare, -⟩ := handleAttachAbstractionBatch_attached hattach
  refine ⟨hclusters, fun c hc => ?_⟩
  rw [hbare, Bool.and_eq_true] at hc
  exact hc.1

/-- Where each round covers one of the clusters that wait, they are all covered eventually. -/
theorem covered_of_progress {limit : Nat} (run : Nat → Derived)
    (hround : ∀ n, Round s limit (run n) (run (n + 1))) (hprogress : ∀ n, ¬ Covered s (run n) →
      ∃ c ∈ (run n).clusters.rows, (run n).waiting s c = true ∧
        (run (n + 1)).unabstracted c = false) :
    ∃ n, Covered s (run n) := by
  generalize hcount : ((run 0).clusters.rows.filter ((run 0).waiting s)).length = count
  induction count using Nat.strongRecOn generalizing run with
  | ind count ih =>
    by_cases hdone : Covered s (run 0)
    · exact ⟨0, hdone⟩
    obtain ⟨c, hc, hwaits, hafter⟩ := hprogress 0 hdone
    obtain ⟨hsame, hkept⟩ := (hround 0).attached
    have hless : ((run 1).clusters.rows.filter ((run 1).waiting s)).length < count := by
      have himp : ∀ x, (run 1).waiting s x = true → (run 0).waiting s x = true := by
        intro x hx
        unfold waiting at hx ⊢
        rw [hasActiveEpisode_same hsame, Bool.and_eq_true] at hx
        rw [hx.1, hkept x hx.2]
        rfl
      have hnot : (run 1).waiting s c = false := by
        unfold waiting
        rw [hafter, Bool.and_false]
      have hfilter : (run 1).clusters.rows.filter ((run 1).waiting s) =
          ((run 0).clusters.rows.filter ((run 0).waiting s)).filter ((run 1).waiting s) := by
        rw [hsame.1, List.filter_filter]
        refine List.filter_congr fun x _ => ?_
        rw [Bool.eq_iff_iff, Bool.and_eq_true]
        exact ⟨fun hx => ⟨hx, himp x hx⟩, fun hx => hx.1⟩
      rw [← hcount, hfilter, List.length_filter_lt_length_iff_exists]
      exact ⟨c, List.mem_filter.2 ⟨hc, hwaits⟩, Bool.eq_false_iff.1 hnot⟩
    obtain ⟨n, hn⟩ :=
      @ih _ hless (fun n => run (n + 1)) (fun n => hround (n + 1)) (fun n => hprogress (n + 1)) rfl
    exact ⟨n + 1, hn⟩

end Derived

open Derived

/-- A fetch has the clusters without an abstraction that have an active episode, up to the limit,
under the condition of `length_fetch_iff`. Rounds that attach a lasting abstraction to each cluster
fetched cover every such cluster exactly where none has `limit` clusters before it that need an
abstraction and have no active episode. Whatever the rounds attach, they cover every such cluster
where in each state one of those left is among the first `limit`, and a round that fetches some of
them attaches to one. -/
theorem fetchClusters_covers (s : Store) (limit : Nat) (d : Derived) :
    ((fetchClustersWithoutAbstractions s d limit).length =
      min limit (d.clusters.rows.filter (d.waiting s)).length ↔
      if limit ≤ (d.clusters.rows.filter (d.waiting s)).length then ∀ c ∈
        d.needing.take limit, d.hasActiveEpisode s c = true
      else ((d.needing.take limit).filter fun c => d.hasActiveEpisode s c &&
        !d.unabstracted c).length = ((d.needing.drop limit).filter (d.waiting s)).length) ∧
    (∀ run : Nat → Derived, run 0 = d → (∀ n, AttachesFetched s limit (run n) (run (n + 1))) →
      ((∃ n, Covered s (run n)) ↔ ∀ pre c post, d.needing = pre ++ c :: post →
        d.waiting s c = true → (pre.filter (!d.hasActiveEpisode s ·)).length < limit)) ∧
    ∀ run : Nat → Derived, run 0 = d → (∀ n, Round s limit (run n) (run (n + 1))) →
      (∀ n, (∃ p ∈ fetchClustersWithoutAbstractions s (run n) limit, ∃ c ∈ (run n).clusters.rows,
          c.clusterId = p.1.clusterId ∧ (run n).waiting s c = true) →
        ∃ c ∈ (run n).clusters.rows, (run n).waiting s c = true ∧
          (run (n + 1)).unabstracted c = false) →
      (∀ n, ¬ Covered s (run n) → ∃ c ∈ (run n).needing.take limit, (run n).waiting s c = true) →
      ∃ n, Covered s (run n) := by
  refine ⟨length_fetch_iff s d limit, ?_, ?_⟩
  · rintro run rfl hstep
    have hactive : ∀ n, (run n).hasActiveEpisode s = (run 0).hasActiveEpisode s := by
      intro n
      induction n with
      | zero => rfl
      | succ n ih => exact (hasActiveEpisode_same (needing_attachesFetched (hstep n)).2.1).trans ih
    have hdrain : ∀ n, (run (n + 1)).needing = drain ((run 0).hasActiveEpisode s)
        limit (run n).needing := by
      intro n
      rw [(needing_attachesFetched (hstep n)).1, hactive]
    -- what is left has the abstractions it had before
    have hbare : ∀ n, ∀ c ∈ (run n).needing, (run n).unabstracted c = (run 0).unabstracted c := by
      intro n
      induction n with
      | zero => exact fun c _ => rfl
      | succ n ih =>
        obtain ⟨hneeds, -, hsame⟩ := needing_attachesFetched (hstep n)
        intro c hc
        refine (hsame c hc).trans (ih c ?_)
        rw [hneeds] at hc
        rcases List.mem_append.1 hc with hc | hc
        · exact List.mem_of_mem_take (List.mem_filter.1 hc).1
        · exact List.mem_of_mem_drop hc
    refine Iff.trans (exists_congr fun n => ?_) (eventually_only_iff (q := (run 0).unabstracted)
      (fun n => (run n).needing) hdrain)
    unfold Covered
    constructor
    · intro h c hc
      have hfree := h c (List.mem_filter.1 hc).1
      unfold waiting at hfree
      rwa [hactive, hbare n c hc] at hfree
    · intro h c hc
      by_contra hwaits
      rw [Bool.not_eq_false] at hwaits
      have hneeds : c ∈ (run n).needing := List.mem_filter.2 ⟨hc, needs_of_waiting hwaits⟩
      have hfree := h c hneeds
      unfold waiting at hwaits
      rw [hactive, hbare n c hneeds, hfree] at hwaits
      cases hwaits
  · rintro run rfl hround hattach hfirst
    refine covered_of_progress run hround fun n hopen => hattach n ?_
    obtain ⟨c, hc, hwaits⟩ := hfirst n hopen
    have hbatch : c.clusterId ∈ (batch ((run n).hasActiveEpisode s) limit (run n).needing).map
        (·.clusterId) :=
      List.mem_map_of_mem (List.mem_filter.2 ⟨hc, (Bool.and_eq_true_iff.1 hwaits).1⟩)
    rw [← length_fetch] at hbatch
    obtain ⟨p, hp, hid⟩ := List.mem_map.1 hbatch
    exact ⟨p, hp, c, (List.mem_filter.1 (List.mem_of_mem_take hc)).1, hid.symm, hwaits⟩

/-! ### A forgotten cluster before a live one -/

namespace ForgottenFirst

/-- The cluster `j` has lost its members, and `k` has one. -/
def derived : Derived :=
  { Derived.empty with
    clusters := (Table.empty.insertOrIgnore ⟨"j", none, 1, 0⟩).insertOrIgnore ⟨"k", none, 1, 0⟩
    clusterEpisodes := Table.empty.insertOrIgnore ⟨"k", "m2"⟩ }

end ForgottenFirst

open ForgottenFirst in
/-- With limit 1 the only cluster looked at is the one without episodes. -/
theorem fetchClusters_short :
    ¬ ∀ (s : Store) (d : Derived) (limit : Nat), 0 < limit →
      (fetchClustersWithoutAbstractions s d limit).length =
        min limit (d.clusters.rows.filter (d.waiting s)).length := by
  intro h
  have hfetched : fetchClustersWithoutAbstractions MergedSurvivor.store derived 1 = [] := by
    decide +kernel
  have hlive : (derived.clusters.rows.filter (derived.waiting MergedSurvivor.store)).length =
      1 := by decide +kernel
  have hcount := h MergedSurvivor.store derived 1 Nat.one_pos
  rw [hfetched, hlive] at hcount
  cases hcount

end Solo
