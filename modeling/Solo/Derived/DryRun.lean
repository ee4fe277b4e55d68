import Solo.Lib.Counting
import Solo.Derived.QualityRun

/-!
# What a dry run of a repair predicts (`handle_repair_derived`)

A dry run changes nothing and answers from separate counts. `repairDerived_dryRun_iff`: its report
is the real one's, `dry_run` apart, exactly when no contradiction is between two of the clusters
whose stale abstractions go (the dry run counts it for each of them), or when no contradiction is
with a fact that the quality gate quarantines (the dry run reports none).
-/

namespace Solo

namespace Derived

variable {s s' : Store} {nowMs nowMs' : Int} {d d₁ d₂ : Derived} {scope : RepairScope}
  {r₁ r₂ : RepairReport}

/-! ### Stale abstractions -/

section Stale

/-- The rows of the tables after the deletes of `cs`, as the tables were before. -/
structure Emptied (d : Derived) (cs : List ClusterId) (d' : Derived) : Prop where
  contradictions : d'.contradictions.rows = d.contradictions.rows.filter fun x =>
    !cs.any (d.contradictionTouches · x)
  triples : d'.triples.rows = d.triples.rows.filter fun t => !cs.any fun c => t.clusterId = some c
  abstractions : d'.semanticAbstractions.rows = d.semanticAbstractions.rows.filter fun a =>
    !cs.any fun c => a.clusterId = c

/-- A cluster whose triples are all there is touched by the same contradictions. -/
theorem contradictionTouches_congr {d d' : Derived} {c : ClusterId}
    (h : ∀ t, t.clusterId = some c → (t ∈ d'.triples ↔ t ∈ d.triples)) (x : ContradictionRow) :
    d'.contradictionTouches c x = d.contradictionTouches c x := by
  rw [Bool.eq_iff_iff]
  simp only [contradictionTouches, List.any_eq_true, Bool.and_eq_true, decide_eq_true_eq,
    Table.mem_rows]
  constructor
  · rintro ⟨t, ht, hc, hx⟩
    exact ⟨t, (h t hc).1 ht, hc, hx⟩
  · rintro ⟨t, ht, hc, hx⟩
    exact ⟨t, (h t hc).2 ht, hc, hx⟩

theorem repairStaleCluster_emptied (d : Derived) (c : ClusterId) :
    Emptied d [c] (d.repairStaleCluster c) := by
  refine ⟨?_, ?_, ?_⟩
  · refine List.filter_congr fun x _ => ?_
    rw [List.any_cons, List.any_nil, Bool.or_false]
  · refine List.filter_congr fun x _ => ?_
    rw [List.any_cons, List.any_nil, Bool.or_false]
  · refine List.filter_congr fun x _ => ?_
    rw [List.any_cons, List.any_nil, Bool.or_false]

theorem repairStaleClusters_emptied {cs : List ClusterId} (hnd : cs.Nodup) (d : Derived) :
    Emptied d cs (cs.foldl repairStaleCluster d) := by
  induction cs generalizing d with
  | nil =>
    exact ⟨(List.filter_eq_self.2 fun _ _ => rfl).symm, (List.filter_eq_self.2 fun _ _ => rfl).symm,
      (List.filter_eq_self.2 fun _ _ => rfl).symm⟩
  | cons c cs ih =>
    obtain ⟨hc, hcs⟩ := List.nodup_cons.1 hnd
    obtain ⟨hx₁, ht₁, ha₁⟩ := repairStaleCluster_emptied d c
    obtain ⟨hx, ht, ha⟩ := ih hcs (d.repairStaleCluster c)
    have htouch (c' : ClusterId) (hc' : c' ∈ cs) (x : ContradictionRow) :
        (d.repairStaleCluster c).contradictionTouches c' x = d.contradictionTouches c' x := by
      refine contradictionTouches_congr (fun t htc => ?_) x
      rw [← Table.mem_rows, ht₁, List.mem_filter, Table.mem_rows, and_iff_left_iff_imp]
      intro _
      have hne : t.clusterId ≠ some c := fun h => hc (Option.some.inj (h.symm.trans htc) ▸ hc')
      simp [hne]
    refine ⟨?_, ?_, ?_⟩
    · rw [List.foldl_cons, hx, hx₁, List.filter_filter]
      refine List.filter_congr fun x _ => ?_
      have hany : cs.any ((d.repairStaleCluster c).contradictionTouches · x) =
          cs.any (d.contradictionTouches · x) := by
        rw [Bool.eq_iff_iff, List.any_eq_true, List.any_eq_true]
        exact exists_congr fun c' => and_congr_right fun hc' => by rw [htouch c' hc' x]
      rw [hany]
      simp [Bool.and_comm]
    · rw [List.foldl_cons, ht, ht₁, List.filter_filter]
      refine List.filter_congr fun x _ => ?_
      simp [Bool.and_comm]
    · rw [List.foldl_cons, ha, ha₁, List.filter_filter]
      refine List.filter_congr fun x _ => ?_
      simp [Bool.and_comm]

/-- Each candidate is of a cluster of its own, with the counts of that cluster. -/
theorem staleCandidates_spec (d : Derived) (scope : RepairScope) :
    ((d.staleCandidates scope).map (·.clusterId)).Nodup ∧ ∀ c ∈ d.staleCandidates scope,
      c.abstractionCount = d.semanticAbstractions.rows.countP (·.clusterId = c.clusterId) ∧
        c.tripleCount = d.triples.rows.countP (·.clusterId = some c.clusterId) := by
  have hclusters : (d.clusters.rows.map (·.clusterId)).Nodup := by
    rw [List.Nodup, List.pairwise_map]
    exact d.clusters.unique.imp fun hab heq => by simp [Keyed.clash, heq] at hab
  have hinto {r : RepairScanRow} {n : Nat} {c : RepairCandidate} (h : r.intoCandidate n = some c) :
      c.clusterId = r.clusterId ∧ c.abstractionCount = r.abstractionCount ∧
      c.tripleCount = r.tripleCount := by
    obtain ⟨-, h⟩ := Option.ite_none_left_eq_some.1 h
    obtain rfl := Option.some.inj h
    exact ⟨rfl, rfl, rfl⟩
  have hscan :
      (d.scanDerivedRepairCandidates.map (·.clusterId)).Sublist
      (d.clusters.rows.map (·.clusterId)) := by
    refine List.map_filterMap_sublist (fun c r h => ?_) _
    dsimp only at h
    split at h
    · cases h
    · obtain rfl := Option.some.inj h
      rfl
  have hcands :
      ((d.staleCandidates scope).map (·.clusterId)).Sublist
      (d.scanDerivedRepairCandidates.map (·.clusterId)) := by
    unfold staleCandidates truncate
    split
    · exact ((List.take_sublist _ _).map _).trans
        (List.map_filterMap_sublist (fun r c h => (hinto h).1) _)
    · exact List.map_filterMap_sublist (fun r c h => (hinto h).1) _
  refine ⟨(hcands.trans hscan).nodup hclusters, fun c hc => ?_⟩
  have hmem : c ∈ d.scanDerivedRepairCandidates.filterMap fun r =>
      r.intoCandidate scope.minEmptyAbstractionEpisodeCount := by
    unfold staleCandidates truncate at hc
    split at hc
    · exact List.mem_of_mem_take hc
    · exact hc
  obtain ⟨r, hr, hrc⟩ := List.mem_filterMap.1 hmem
  obtain ⟨hid, habs, htri⟩ := hinto hrc
  obtain ⟨cl, -, hrow⟩ := List.mem_filterMap.1 hr
  dsimp only at hrow
  split at hrow
  · cases hrow
  · obtain rfl := Option.some.inj hrow
    rw [habs, htri, hid]
    exact ⟨List.countP_eq_length_filter.symm, List.countP_eq_length_filter.symm⟩

/-- The rows that go with some class, counted. -/
theorem countP_any_eq_deleted {α β : Type} (p : α → β → Bool) (cs : List α) (l : List β) :
    l.countP (fun x => cs.any (p · x)) = l.length - (l.filter fun x => !cs.any (p · x)).length := by
  have hlen := List.length_eq_countP_add_countP (fun x => cs.any (p · x)) (l := l)
  rw [← List.countP_eq_length_filter]
  have hnot : l.countP (fun x => decide ¬cs.any (p · x) = true) = l.countP fun x =>
      !cs.any (p · x) :=
    List.countP_congr fun x _ => by simp
  omega

/-- A value is one of a list without repetitions once at most. -/
theorem countP_eq_le_one {β : Type} [DecidableEq β] {cs : List β} (hnd : cs.Nodup) (b : β) :
    cs.countP (fun c => b = c) ≤ 1 := by
  have hcount := List.nodup_iff_count_le_one.1 hnd b
  rw [List.count_eq_countP] at hcount
  refine le_of_eq_of_le (List.countP_congr fun c _ => ?_) hcount
  rw [decide_eq_true_iff, beq_iff_eq, eq_comm]

theorem staleAbstractions_dryRun_iff (d : Derived) (scope : RepairScope) :
    (d.repairStaleAbstractions { scope with dryRun := true }).2 =
        { (d.repairStaleAbstractions { scope with dryRun := false }).2 with dryRun := true } ↔
      ∀ x ∈ d.contradictions, (d.staleCandidates scope).countP
      (fun c => d.contradictionTouches c.clusterId x) ≤ 1 := by
  obtain ⟨hnd, hcounts⟩ := staleCandidates_spec d scope
  have hcands (b : Bool) : d.staleCandidates { scope with dryRun := b } = d.staleCandidates scope :=
    rfl
  generalize d.staleCandidates scope = cands at hnd hcounts hcands ⊢
  obtain ⟨hcontra, htriples, habstractions⟩ := repairStaleClusters_emptied hnd d
  have habs : (cands.map (·.abstractionCount)).sum = d.semanticAbstractions.rows.length -
      ((cands.map (·.clusterId)).foldl repairStaleCluster d).semanticAbstractions.rows.length := by
    have hmap : cands.map (·.abstractionCount) = (cands.map (·.clusterId)).map fun c =>
        d.semanticAbstractions.rows.countP fun a => a.clusterId = c := by
      rw [List.map_map]
      exact List.map_congr_left fun c hc => (hcounts c hc).1
    rw [hmap, habstractions,
      ← countP_any_eq_deleted (fun c (a : AbstractionRow) => decide (a.clusterId = c))]
    exact (Counting.sum_countP_eq_iff (fun c (a : AbstractionRow) => decide (a.clusterId = c))
      _ _).2 fun a _ =>
      countP_eq_le_one hnd a.clusterId
  have htri : (cands.map (·.tripleCount)).sum = d.triples.rows.length -
      ((cands.map (·.clusterId)).foldl repairStaleCluster d).triples.rows.length := by
    have hmap : cands.map (·.tripleCount) = (cands.map (·.clusterId)).map fun c =>
        d.triples.rows.countP fun t => t.clusterId = some c := by
      rw [List.map_map]
      exact List.map_congr_left fun c hc => (hcounts c hc).2
    rw [hmap, htriples,
      ← countP_any_eq_deleted (fun c (t : TripleRow) => decide (t.clusterId = some c))]
    refine (Counting.sum_countP_eq_iff (fun c (t : TripleRow) => decide (t.clusterId = some c))
      _ _).2 fun t _ => ?_
    cases hc : t.clusterId with
    | none => simp
    | some b => simpa using countP_eq_le_one hnd b
  have hsum :
      (cands.map fun c => d.contradictions.rows.countP (d.contradictionTouches c.clusterId)).sum =
      d.contradictions.rows.length -
        ((cands.map (·.clusterId)).foldl repairStaleCluster d).contradictions.rows.length ↔
      ∀ x ∈ d.contradictions, cands.countP (fun c => d.contradictionTouches c.clusterId x) ≤ 1 := by
    rw [hcontra, ← countP_any_eq_deleted]
    simp only [List.any_map, Function.comp_def]
    exact Counting.sum_countP_eq_iff
      (fun c x => d.contradictionTouches (RepairCandidate.clusterId c) x) cands _
  rw [← hsum]
  simp only [repairStaleAbstractions, hcands, if_true, Bool.false_eq_true, if_false,
    RepairReport.mk.injEq, habs, htri, true_and, and_true]

/-- The deletes of one candidate, with the rows that each of them reports: contradictions, triples,
abstractions. -/
def repairStaleCounted (st : Derived × Nat × Nat × Nat) (c : ClusterId) :
    Derived × Nat × Nat × Nat :=
  let (d, contradictions, triples, abstractions) := st
  (d.repairStaleCluster c, contradictions + d.contradictions.rows.countP (d.contradictionTouches c),
    triples + d.triples.rows.countP (·.clusterId = some c),
    abstractions + d.semanticAbstractions.rows.countP (·.clusterId = c))

theorem deleted_add_left {α : Type} (p : α → Bool) (l : List α) :
    l.countP p + (l.filter fun x => !p x).length = l.length := by
  rw [← List.countP_eq_length_filter, List.length_eq_countP_add_countP p]
  congr 1
  exact List.countP_congr fun x _ => by simp

/-- The counters of the loop and the rows that are left make up the rows that were there. -/
theorem foldl_repairStaleCounted (cs : List ClusterId) (st : Derived × Nat × Nat × Nat) :
    let out := cs.foldl repairStaleCounted st
    out.1 = cs.foldl repairStaleCluster st.1 ∧
      out.2.1 + out.1.contradictions.rows.length = st.2.1 + st.1.contradictions.rows.length ∧
      out.2.2.1 + out.1.triples.rows.length = st.2.2.1 + st.1.triples.rows.length ∧
      out.2.2.2 + out.1.semanticAbstractions.rows.length = st.2.2.2 +
      st.1.semanticAbstractions.rows.length := by
  induction cs generalizing st with
  | nil => exact ⟨rfl, rfl, rfl, rfl⟩
  | cons c cs ih =>
    obtain ⟨d, contradictions, triples, abstractions⟩ := st
    obtain ⟨hd, hc, ht, ha⟩ := ih (repairStaleCounted (d, contradictions, triples, abstractions) c)
    have hleft₁ := deleted_add_left (d.contradictionTouches c) d.contradictions.rows
    have hleft₂ := deleted_add_left (fun t : TripleRow => t.clusterId = some c) d.triples.rows
    have hleft₃ :=
      deleted_add_left (fun a : AbstractionRow => a.clusterId = c) d.semanticAbstractions.rows
    refine ⟨hd, hc.trans ?_, ht.trans ?_, ha.trans ?_⟩
    · rw [← hleft₁, ← Nat.add_assoc]
      rfl
    · rw [← hleft₂, ← Nat.add_assoc]
      rfl
    · rw [← hleft₃, ← Nat.add_assoc]
      rfl

/-- The report of a real run has the counters of its loop. -/
theorem repairStaleAbstractions_counts (d : Derived) (scope : RepairScope) :
    let out := ((d.staleCandidates scope).map (·.clusterId)).foldl repairStaleCounted (d, 0, 0, 0)
    let report := (d.repairStaleAbstractions { scope with dryRun := false }).2
    (d.repairStaleAbstractions { scope with dryRun := false }).1 = out.1 ∧
    report.contradictionsDeleted = out.2.1 ∧
      report.triplesDeleted = out.2.2.1 ∧ report.abstractionsDeleted = out.2.2.2 := by
  obtain ⟨hd, hc, ht, ha⟩ :=
    foldl_repairStaleCounted ((d.staleCandidates scope).map (·.clusterId)) (d, 0, 0, 0)
  have hcands : d.staleCandidates { scope with dryRun := false } = d.staleCandidates scope := rfl
  dsimp only at hc ht ha
  simp only [repairStaleAbstractions, hcands, Bool.false_eq_true, if_false, ← hd]
  refine ⟨trivial, ?_, ?_, ?_⟩ <;> omega

end Stale

/-! ### The quality gate -/

section Quality

/-- Of the triples with `p`, those that a list of such triples does not name. -/
theorem countP_unnamed {ts : List TripleRow} (hnd : ts.Nodup) (hts : ∀ t ∈ ts, t ∈ d.triples)
    {p : TripleRow → Bool} (hp : ∀ t ∈ ts, p t = true) :
    d.triples.rows.countP p = d.triples.rows.countP (fun t => p t && !namesTriple ts t) +
    ts.length := by
  have hsplit := List.length_eq_countP_add_countP (namesTriple ts) (l := d.triples.rows.filter p)
  rw [← List.countP_eq_length_filter, List.countP_filter, List.countP_filter] at hsplit
  have hnamed : d.triples.rows.countP (fun t => namesTriple ts t && p t) = ts.length := by
    rw [← countP_namesTriple hnd hts]
    refine List.countP_congr fun t ht => ?_
    rw [Bool.and_eq_true, and_iff_left_iff_imp]
    exact fun h => hp t ((namesTriple_iff_mem hts ht).1 h)
  have hrest : d.triples.rows.countP (fun t => decide (¬namesTriple ts t = true) && p t) =
      d.triples.rows.countP fun t => p t && !namesTriple ts t := by
    refine List.countP_congr fun t _ => ?_
    rw [Bool.and_comm]
    simp
  omega

variable {work : List (TripleRow × TripleQualityReviewReason) × List TripleRow}

theorem rewritten_count (h : WorkList d work) :
    d.triples.rows.countP (fun t => t.status = .active && t.objectKind = .entity) -
      (work.2.foldl rewriteToLiteral d).triples.rows.countP
      (fun t => t.status = .active && t.objectKind = .entity) =
        work.2.length := by
  have hp (t : TripleRow) (ht : t ∈ work.2) :
      (decide (t.status = .active) && decide (t.objectKind = .entity)) = true := by
    obtain ⟨-, hactive, hlit⟩ := h.rewrite t ht
    rw [objectShouldBeLiteral, Bool.and_eq_true] at hlit
    rw [Bool.and_eq_true, decide_eq_true_iff]
    exact ⟨hactive, hlit.1⟩
  rw [(rows_rewriteAll work.2 d).1, List.countP_map,
    countP_unnamed h.rewrite_nodup (fun t ht => (h.rewrite t ht).1) hp]
  have hleft :
      d.triples.rows.countP
      ((fun t => decide (t.status = .active) && decide (t.objectKind = .entity)) ∘
        literalBy work.2) =
      d.triples.rows.countP fun t =>
        (decide (t.status = .active) && decide (t.objectKind = .entity)) &&
          !namesTriple work.2 t := by
    refine List.countP_congr fun t _ => ?_
    dsimp only [Function.comp, literalBy]
    by_cases hs : t.status = .active <;> by_cases hk : t.objectKind = .entity <;>
      by_cases hn : namesTriple work.2 t = true <;> simp [hs, hk, hn]
  rw [hleft, Nat.add_sub_cancel_left]

theorem quarantined_count (h : WorkList d work) (hrun : d.runQualityRepair s nowMs work = .ok d') :
    d.triples.rows.countP (·.status = .active) - d'.triples.rows.countP (·.status = .active) =
    work.1.length := by
  have hmem (t : TripleRow) (ht : t ∈ work.1.map Prod.fst) : t ∈ d.triples ∧
      t.status = .active := by
    obtain ⟨q, hq, rfl⟩ := List.mem_map.1 ht
    exact ⟨(h.quarantine q hq).1, (h.quarantine q hq).2.1⟩
  rw [(runQualityRepair_spec hrun).1, List.countP_map,
    countP_unnamed h.quarantine_nodup (fun t ht => (hmem t ht).1)
    fun t ht => decide_eq_true (hmem t ht).2]
  have hleft : d.triples.rows.countP ((fun t => decide (t.status = .active)) ∘ fun t =>
        supersededBy (work.1.map Prod.fst) (literalBy work.2 t)) =
      d.triples.rows.countP fun t => decide (t.status = .active) &&
      !namesTriple (work.1.map Prod.fst) t := by
    refine List.countP_congr fun t _ => ?_
    rw [Function.comp_apply, decide_eq_true_iff, supersededBy_active, literalBy_status,
      namesTriple_literalBy]
    simp
  rw [hleft, Nat.add_sub_cancel_left, List.length_map]

theorem qualityGate_dryRun_iff (scope : RepairScope)
    (hdry : d.repairActiveTripleQuality s nowMs { scope with dryRun := true } = .ok (d₁, r₁))
    (hreal : d.repairActiveTripleQuality s' nowMs' { scope with dryRun := false } = .ok (d₂, r₂)) :
    r₁ = { r₂ with dryRun := true } ↔
      ∀ x ∈ d.contradictions, contradicts ((d.qualityWork scope).1.map Prod.fst) x = false := by
  have hwork (b : Bool) : d.qualityWork { scope with dryRun := b } = d.qualityWork scope := rfl
  have hlist := qualityWork_workList d scope
  rw [repairActiveTripleQuality] at hdry hreal
  dsimp only at hdry hreal
  rw [if_pos rfl, hwork, Except.ok.injEq, Prod.mk.injEq] at hdry
  rw [if_neg Bool.false_ne_true, hwork] at hreal
  obtain ⟨d', hrun, hreal⟩ := Result.bind_eq_ok.1 hreal
  rw [Result.pure_eq_ok, Prod.mk.injEq] at hreal
  obtain ⟨rfl, rfl⟩ := hreal
  rw [← hdry.2]
  have hcontra : d.contradictions.rows.length - d'.contradictions.rows.length =
      d.contradictions.rows.countP (contradicts ((d.qualityWork scope).1.map Prod.fst)) := by
    have hlen :=
      List.length_eq_countP_add_countP (contradicts ((d.qualityWork scope).1.map Prod.fst))
      (l := d.contradictions.rows)
    rw [(runQualityRepair_spec hrun).2, ← List.countP_eq_length_filter]
    have hnot : d.contradictions.rows.countP (fun x =>
          decide ¬contradicts ((d.qualityWork scope).1.map Prod.fst) x = true) =
        d.contradictions.rows.countP fun x => !contradicts ((d.qualityWork scope).1.map Prod.fst)
        x :=
      List.countP_congr fun x _ => by simp
    omega
  rw [hcontra, rewritten_count hlist, quarantined_count hlist hrun]
  simp only [RepairReport.mk.injEq, true_and, and_true]
  rw [eq_comm, List.countP_eq_zero]
  exact forall₂_congr fun x _ => Bool.not_eq_true _ ▸ Iff.rfl

/-- A rewrite with the rows that its `UPDATE triples` reports. -/
def rewriteCounted (st : Derived × Nat) (t : TripleRow) : Derived × Nat :=
  (st.1.rewriteToLiteral t, st.2 + st.1.triples.rows.countP fun r =>
    r.tripleId = t.tripleId && r.status = .active && r.objectKind = .entity)

/-- A quarantine with the rows that its `UPDATE triples` and its `DELETE FROM contradictions`
report. -/
def quarantineCounted (s : Store) (nowMs : Int) (st : Derived × Nat × Nat)
    (q : TripleRow × TripleQualityReviewReason) : Except Error (Derived × Nat × Nat) := do
  let d' ← st.1.quarantineTriple s nowMs q
  return (d',
    st.2.1 + st.1.triples.rows.countP (fun r => r.tripleId = q.1.tripleId && r.status = .active),
    st.2.2 + st.1.contradictions.rows.countP (contradicts [q.1]))

theorem foldl_rewriteCounted (ts : List TripleRow) (st : Derived × Nat) :
    (ts.foldl rewriteCounted st).1 = ts.foldl rewriteToLiteral st.1 ∧
      (ts.foldl rewriteCounted st).2 + (ts.foldl rewriteCounted st).1.triples.rows.countP
          (fun t => t.status = .active && t.objectKind = .entity) =
        st.2 + st.1.triples.rows.countP fun t => t.status = .active && t.objectKind = .entity := by
  induction ts generalizing st with
  | nil => exact ⟨rfl, rfl⟩
  | cons t ts ih =>
    obtain ⟨hd, hn⟩ := ih (rewriteCounted st t)
    refine ⟨hd, hn.trans ?_⟩
    have hsplit := deleted_add_left (fun r : TripleRow => decide (r.tripleId = t.tripleId))
      (st.1.triples.rows.filter fun t => decide (t.status = .active) &&
        decide (t.objectKind = .entity))
    rw [List.countP_filter, ← List.countP_eq_length_filter, ← List.countP_eq_length_filter,
      List.countP_filter] at hsplit
    dsimp only [rewriteCounted]
    rw [Nat.add_assoc, ← hsplit, rewriteToLiteral, Table.updateWhere, List.countP_map]
    congr 2
    · exact List.countP_congr fun r _ => by simp [and_assoc]
    · refine List.countP_congr fun r _ => ?_
      dsimp only [Function.comp]
      by_cases hid : r.tripleId = t.tripleId <;> by_cases hs : r.status = .active <;>
        by_cases hk : r.objectKind = .entity <;> simp [hid, hs, hk]

theorem foldlM_quarantineCounted {qs : List (TripleRow × TripleQualityReviewReason)}
    {st out : Derived × Nat × Nat} (h : qs.foldlM (quarantineCounted s nowMs) st = .ok out) :
    qs.foldlM (quarantineTriple s nowMs) st.1 = .ok out.1 ∧
      out.2.1 + out.1.triples.rows.countP (·.status = .active) =
        st.2.1 + st.1.triples.rows.countP (·.status = .active) ∧
      out.2.2 + out.1.contradictions.rows.length = st.2.2 + st.1.contradictions.rows.length := by
  induction qs generalizing st with
  | nil =>
    rw [List.foldlM_nil, Result.pure_eq_ok] at h
    subst h
    exact ⟨rfl, rfl, rfl⟩
  | cons q qs ih =>
    obtain ⟨st₁, h₁, h⟩ := Result.foldlM_cons_eq_ok.1 h
    obtain ⟨d', hq, h₁⟩ := Result.bind_eq_ok.1 h₁
    rw [Result.pure_eq_ok] at h₁
    subst h₁
    obtain ⟨hd, ht, hc⟩ := ih h
    obtain ⟨htrip, hcontra⟩ := quarantineTriple_tables hq
    refine ⟨Result.foldlM_cons_eq_ok.2 ⟨d', hq, hd⟩, ht.trans ?_, hc.trans ?_⟩
    · dsimp only
      have hsplit := deleted_add_left (fun r : TripleRow => decide (r.tripleId = q.1.tripleId))
        (st.1.triples.rows.filter fun t => decide (t.status = .active))
      rw [List.countP_filter, ← List.countP_eq_length_filter, ← List.countP_eq_length_filter,
        List.countP_filter] at hsplit
      rw [Nat.add_assoc, ← hsplit, htrip, List.countP_map]
      congr 2
      refine List.countP_congr fun r _ => ?_
      rw [Function.comp_apply, decide_eq_true_iff, supersededBy_active]
      simp only [namesTriple, List.any_cons, List.any_nil, Bool.or_false, Bool.and_eq_true,
        Bool.not_eq_true', decide_eq_true_eq, decide_eq_false_iff_not]
      exact ⟨fun h => ⟨fun hid => h.2 hid.symm, h.1⟩, fun h => ⟨h.2, fun hid => h.1 hid.symm⟩⟩
    · dsimp only
      rw [Nat.add_assoc, hcontra, deleted_add_left]

/-- The report of a real run has the counters of its loops. -/
theorem repairActiveTripleQuality_counts (scope : RepairScope) {out : Derived × Nat × Nat}
    (hloop : (d.qualityWork scope).1.foldlM (quarantineCounted s nowMs)
      (((d.qualityWork scope).2.foldl rewriteCounted (d, 0)).1, 0, 0) = .ok out)
    (hreal : d.repairActiveTripleQuality s nowMs { scope with dryRun := false } = .ok (d₂, r₂)) :
    d₂ = out.1 ∧ r₂.triplesRewritten = ((d.qualityWork scope).2.foldl rewriteCounted (d, 0)).2 ∧
      r₂.tripleReviewsCreated = out.2.1 ∧ r₂.contradictionsDeleted = out.2.2 := by
  have hwork : d.qualityWork { scope with dryRun := false } = d.qualityWork scope := rfl
  obtain ⟨hrew, hn⟩ := foldl_rewriteCounted (d.qualityWork scope).2 (d, 0)
  obtain ⟨hrun, ht, hc⟩ := foldlM_quarantineCounted hloop
  rw [repairActiveTripleQuality] at hreal
  dsimp only at hreal hn ht hc hrun hrew
  rw [if_neg Bool.false_ne_true, hwork] at hreal
  obtain ⟨d', hrun', hreal⟩ := Result.bind_eq_ok.1 hreal
  rw [Result.pure_eq_ok, Prod.mk.injEq] at hreal
  obtain ⟨rfl, rfl⟩ := hreal
  rw [hrew] at hrun hn ht hc
  rw [runQualityRepair] at hrun'
  obtain rfl := Except.ok.inj (hrun'.symm.trans hrun)
  obtain ⟨hrows, hcontra⟩ := rows_rewriteAll (d.qualityWork scope).2 d
  have hactive : ((d.qualityWork scope).2.foldl rewriteToLiteral d).triples.rows.countP
      (·.status = .active) = d.triples.rows.countP (·.status = .active) := by
    rw [hrows, List.countP_map]
    exact List.countP_congr fun t _ => by rw [Function.comp_apply, literalBy_status]
  rw [hactive] at ht
  rw [hcontra] at hc
  refine ⟨rfl, ?_, ?_, ?_⟩ <;> dsimp only <;> omega

end Quality

/-! ### Every mode -/

/-- No contradiction is counted twice or passed over. -/
def Predictable (d : Derived) (scope : RepairScope) : Prop :=
  match scope.mode with
  | .staleAbstractions =>
    ∀ x ∈ d.contradictions, (d.staleCandidates scope).countP
      (fun c => d.contradictionTouches c.clusterId x) ≤ 1
  | .qualityGate => ∀ x ∈ d.contradictions, contradicts ((d.qualityWork scope).1.map Prod.fst) x =
    false
  | .rebuildAll => True

/-- A dry run leaves the tables alone. -/
theorem repairDerived_dryRun_unchanged
    (h : d.handleRepairDerived s nowMs { scope with dryRun := true } = .ok (d₁, r₁)) : d₁ = d := by
  unfold handleRepairDerived at h
  split at h
  · cases h
  split at h
  · cases h
    rfl
  · unfold repairActiveTripleQuality at h
    dsimp only at h
    rw [if_pos rfl] at h
    exact (congrArg Prod.fst (Except.ok.inj h)).symm
  · cases h
    rfl

theorem repairDerived_dryRun_iff
    (hdry : d.handleRepairDerived s nowMs { scope with dryRun := true } = .ok (d₁, r₁))
    (hreal : d.handleRepairDerived s nowMs' { scope with dryRun := false } = .ok (d₂, r₂)) :
    d₁ = d ∧ r₁ = { r₂ with dryRun := true } ↔ Predictable d scope := by
  rw [and_iff_right (repairDerived_dryRun_unchanged hdry)]
  obtain ⟨mode, dryRun, minEpisodes, maxClusters⟩ := scope
  unfold handleRepairDerived at hdry hreal
  split at hdry
  · cases hdry
  next hmax =>
  rw [if_neg hmax] at hreal
  cases mode with
  | staleAbstractions =>
    have hiff :=
      staleAbstractions_dryRun_iff d ⟨.staleAbstractions, dryRun, minEpisodes, maxClusters⟩
    rw [Except.ok.inj hdry, Except.ok.inj hreal] at hiff
    exact hiff
  | qualityGate =>
    exact qualityGate_dryRun_iff ⟨.qualityGate, dryRun, minEpisodes, maxClusters⟩ hdry hreal
  | rebuildAll =>
    cases hdry
    cases hreal
    exact ⟨fun _ => trivial, fun _ => rfl⟩

/-! A quarantined fact with a contradiction: the dry run reports none. -/

/-- `t` is below the confidence floor and contradicts `u`. -/
def disputed : Derived := { empty with
  triples :=
    ⟨[⟨"t", "alice", "works_with", "bob", .entity, 0, none, 0, ⟨[], "", "", 0⟩, .active, 0, none,
      none⟩],
    List.pairwise_singleton _ _⟩
  contradictions := ⟨[⟨"t", "u", .other⟩], List.pairwise_singleton _ _⟩ }

/-- The contradiction is between two other facts. -/
def undisputed : Derived := { disputed with contradictions := .single ⟨"u", "v", .other⟩ }

/-- The statuses of the facts after a quality repair of `undisputed`. -/
def undisputedStatuses (dryRun : Bool) : Option (List TripleStatus) :=
  (undisputed.handleRepairDerived Store.empty 0 ⟨.qualityGate, dryRun, 25, none⟩).toOption.map
    (·.1.triples.rows.map (·.status))

theorem undisputed_statuses :
    undisputedStatuses true = some [.active] ∧ undisputedStatuses false = some [.superseded] := by
      decide +kernel

theorem undisputed_predicted :
    ∃ p q, undisputed.handleRepairDerived Store.empty 0 ⟨.qualityGate, true, 25, none⟩ = .ok p ∧
    undisputed.handleRepairDerived Store.empty 0 ⟨.qualityGate, false, 25, none⟩ = .ok q ∧
    q.1.triples.rows.map (·.status) = [.superseded] ∧ p.1 = undisputed ∧
    p.2 = { q.2 with dryRun := true } := by
  obtain ⟨hdryStatus, hrealStatus⟩ := undisputed_statuses
  unfold undisputedStatuses at hdryStatus hrealStatus
  cases hdry : undisputed.handleRepairDerived Store.empty 0 ⟨.qualityGate, true, 25, none⟩ with
  | error e =>
    rw [hdry] at hdryStatus
    cases hdryStatus
  | ok p =>
    cases hreal : undisputed.handleRepairDerived Store.empty 0 ⟨.qualityGate, false, 25, none⟩ with
    | error e =>
      rw [hreal] at hrealStatus
      cases hrealStatus
    | ok q =>
      rw [hreal] at hrealStatus
      have hpredictable : ∀ x ∈ undisputed.contradictions.rows,
          contradicts ((undisputed.qualityWork ⟨.qualityGate, false, 25, none⟩).1.map Prod.fst) x =
          false := by
        decide +kernel
      exact ⟨p, q, rfl, rfl, Option.some.inj hrealStatus,
        (@repairDerived_dryRun_iff _ _ _ _ _ _ ⟨.qualityGate, false, 25, none⟩ _ _ hdry hreal).2
          hpredictable⟩

/-- The contradictions that a quality repair of `disputed` reports to have deleted. -/
def disputedCount (dryRun : Bool) : Option Nat :=
  (disputed.handleRepairDerived Store.empty 0 ⟨.qualityGate, dryRun, 25, none⟩).toOption.map
    (·.2.contradictionsDeleted)

theorem disputed_counts : disputedCount true = some 0 ∧ disputedCount false = some 1 := by
  decide +kernel

theorem disputed_unpredicted : ¬ ∀ (s : Store) (nowMs nowMs' : Int) (d d₁ d₂ : Derived)
    (scope : RepairScope)
    (r₁ r₂ : RepairReport), d.handleRepairDerived s nowMs { scope with dryRun := true } =
    .ok (d₁, r₁) →
      d.handleRepairDerived s nowMs' { scope with dryRun := false } = .ok (d₂, r₂) →
        d₁ = d ∧ r₁ = { r₂ with dryRun := true } := by
  intro h
  obtain ⟨hzero, hone⟩ := disputed_counts
  unfold disputedCount at hzero hone
  cases hdry : disputed.handleRepairDerived Store.empty 0 ⟨.qualityGate, true, 25, none⟩ with
  | error e =>
    rw [hdry] at hzero
    cases hzero
  | ok p =>
    cases hreal : disputed.handleRepairDerived Store.empty 0 ⟨.qualityGate, false, 25, none⟩ with
    | error e =>
      rw [hreal] at hone
      cases hone
    | ok q =>
      rw [hdry] at hzero
      rw [hreal] at hone
      obtain ⟨-, hreport⟩ :=
        h Store.empty 0 0 disputed p.1 q.1 ⟨.qualityGate, false, 25, none⟩ p.2 q.2 hdry hreal
      have hp : p.2.contradictionsDeleted = 0 := Option.some.inj hzero
      have hq : q.2.contradictionsDeleted = 1 := Option.some.inj hone
      rw [hreport, hq] at hp
      cases hp

end Derived

end Solo
