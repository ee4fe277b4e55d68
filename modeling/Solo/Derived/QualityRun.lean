import Mathlib.Data.List.Perm.Lattice
import Solo.Derived.Repair

/-!
# What a run of the quality gate leaves (`repair_active_triple_quality`)

`runQualityRepair_spec`: the statements of a run come to one map over the triples (the rewritten
ones become literals, the quarantined ones are superseded) and one filter of the contradictions. The
work is a list of active triples, each named once.
-/

namespace Solo

namespace Derived

/-- The triples have this one among them. -/
def namesTriple (ts : List TripleRow) (t : TripleRow) : Bool := ts.any (·.tripleId = t.tripleId)

/-- `UPDATE triples SET object_kind = 'literal'` for each of `ts`. -/
def literalBy (ts : List TripleRow) (t : TripleRow) : TripleRow :=
  if namesTriple ts t && t.status = .active &&
    t.objectKind = .entity then { t with objectKind := .literal } else t

/-- `UPDATE triples SET status = 'superseded'` for each of `ts`. -/
def supersededBy (ts : List TripleRow) (t : TripleRow) : TripleRow :=
  if namesTriple ts t && t.status = .active then { t with status := .superseded } else t

/-- The contradiction is with one of the triples. -/
def contradicts (ts : List TripleRow) (x : ContradictionRow) : Bool :=
  ts.any fun t => x.aMemoryId = t.tripleId || x.bMemoryId = t.tripleId

@[simp] theorem literalBy_tripleId (ts : List TripleRow) (t : TripleRow) :
    (literalBy ts t).tripleId = t.tripleId := by
  unfold literalBy
  split <;> rfl

@[simp] theorem literalBy_status (ts : List TripleRow) (t : TripleRow) :
    (literalBy ts t).status = t.status := by
  unfold literalBy
  split <;> rfl

@[simp] theorem namesTriple_literalBy (ts us : List TripleRow) (t : TripleRow) :
    namesTriple us (literalBy ts t) = namesTriple us t := by
  rw [namesTriple, literalBy_tripleId, namesTriple]

theorem supersededBy_active {ts : List TripleRow} {t : TripleRow} :
    (supersededBy ts t).status = .active ↔ t.status = .active ∧ namesTriple ts t = false := by
  unfold supersededBy
  by_cases hs : t.status = .active <;> by_cases hn : namesTriple ts t = true <;> simp [hs, hn]

/-! ### The statements of a run -/

section Run

variable {s : Store} {nowMs : Int} {d d' : Derived}

theorem literalBy_nil (t : TripleRow) : literalBy [] t = t := rfl

theorem supersededBy_nil (t : TripleRow) : supersededBy [] t = t := rfl

theorem rows_rewriteAll (ts : List TripleRow) (d : Derived) :
    (ts.foldl rewriteToLiteral d).triples.rows = d.triples.rows.map (literalBy ts) ∧
      (ts.foldl rewriteToLiteral d).contradictions = d.contradictions := by
  induction ts generalizing d with
  | nil => exact ⟨(List.map_id'' literalBy_nil _).symm, rfl⟩
  | cons t ts ih =>
    obtain ⟨hrows, hcontra⟩ := ih (d.rewriteToLiteral t)
    refine ⟨hrows.trans ?_, hcontra⟩
    rw [rewriteToLiteral, Table.updateWhere, List.map_map]
    refine List.map_congr_left fun r _ => ?_
    simp only [Function.comp, literalBy, namesTriple, List.any_cons]
    by_cases hid : r.tripleId = t.tripleId
    · by_cases hs : r.status = .active <;> by_cases hk : r.objectKind = .entity <;>
        simp [hid, hs, hk]
    · have hid' : ¬ t.tripleId = r.tripleId := fun h => hid h.symm
      simp [hid, hid']

theorem quarantineTriple_tables {q : TripleRow × TripleQualityReviewReason}
    (h : d.quarantineTriple s nowMs q = .ok d') :
    d'.triples.rows = d.triples.rows.map (supersededBy [q.1]) ∧
      d'.contradictions.rows = d.contradictions.rows.filter fun x => !contradicts [q.1] x := by
  obtain ⟨d₁, h₁, h⟩ := Result.bind_eq_ok.1 h
  obtain ⟨d₂, h₂, h⟩ := Result.bind_eq_ok.1 h
  obtain ⟨reviews, -, rfl⟩ := upsertReview_eq_some (orStorage_eq_ok.1 h₁)
  obtain ⟨claims, -, rfl⟩ := upsertClaim_eq_some (orStorage_eq_ok.1 h₂)
  rw [Result.pure_eq_ok] at h
  subst h
  constructor
  · refine List.map_congr_left fun r _ => ?_
    simp only [supersededBy, namesTriple, List.any_cons, List.any_nil, Bool.or_false]
    by_cases hid : r.tripleId = q.1.tripleId
    · simp [hid]
    · have hid' : ¬ q.1.tripleId = r.tripleId := fun h => hid h.symm
      simp [hid, hid']
  · refine List.filter_congr fun x _ => ?_
    simp [contradicts]

theorem supersededBy_append (ts us : List TripleRow) (t : TripleRow) :
    supersededBy us (supersededBy ts t) = supersededBy (ts ++ us) t := by
  simp only [supersededBy, namesTriple, List.any_append]
  by_cases hs : t.status = .active <;> by_cases ht : (ts.any (·.tripleId = t.tripleId)) = true <;>
    simp [hs, ht]

theorem contradicts_append (ts us : List TripleRow) (x : ContradictionRow) :
    contradicts (ts ++ us) x = (contradicts ts x || contradicts us x) := List.any_append

theorem rows_quarantineAll {qs : List (TripleRow × TripleQualityReviewReason)}
    (h : qs.foldlM (quarantineTriple s nowMs) d = .ok d') :
    d'.triples.rows = d.triples.rows.map (supersededBy (qs.map Prod.fst)) ∧
      d'.contradictions.rows = d.contradictions.rows.filter fun x => !contradicts (qs.map Prod.fst)
      x := by
  induction qs generalizing d with
  | nil =>
    rw [List.foldlM_nil, Result.pure_eq_ok] at h
    subst h
    exact ⟨(List.map_id'' supersededBy_nil _).symm, (List.filter_eq_self.2 fun _ _ => rfl).symm⟩
  | cons q qs ih =>
    obtain ⟨d₁, h₁, h⟩ := Result.foldlM_cons_eq_ok.1 h
    obtain ⟨ht₁, hc₁⟩ := quarantineTriple_tables h₁
    obtain ⟨ht, hc⟩ := ih h
    rw [ht, hc, ht₁, hc₁, List.map_map, List.filter_filter]
    constructor
    · exact List.map_congr_left fun r _ => supersededBy_append [q.1] (qs.map Prod.fst) r
    · refine List.filter_congr fun x _ => ?_
      have happend := contradicts_append [q.1] (qs.map Prod.fst) x
      rw [List.singleton_append] at happend
      rw [List.map_cons, happend, Bool.not_or, Bool.and_comm]

theorem runQualityRepair_spec {work : List (TripleRow × TripleQualityReviewReason) × List TripleRow}
    (h : d.runQualityRepair s nowMs work = .ok d') :
    d'.triples.rows =
    d.triples.rows.map (fun t => supersededBy (work.1.map Prod.fst) (literalBy work.2 t)) ∧
      d'.contradictions.rows = d.contradictions.rows.filter fun x =>
      !contradicts (work.1.map Prod.fst) x := by
  obtain ⟨ht, hc⟩ := rows_quarantineAll h
  obtain ⟨hrows, hcontra⟩ := rows_rewriteAll work.2 d
  rw [ht, hc, hrows, hcontra, List.map_map]
  exact ⟨rfl, rfl⟩

end Run

/-! ### The work -/

section Work

variable {d : Derived}

theorem nodup_triples (d : Derived) : d.triples.rows.Nodup :=
  d.triples.unique.imp fun {a b} hab heq => by
    subst heq
    simp [Keyed.clash] at hab

/-- The scan is over the active triples, in some order. -/
theorem scan_perm (d : Derived) :
    (d.scanActiveTripleQualityRows.map Prod.fst).Perm
    (d.triples.rows.filter (·.status = .active)) := by
  rw [scanActiveTripleQualityRows, List.map_map]
  refine List.Perm.trans (List.Perm.of_eq (List.map_id _)) ?_
  exact List.perm_insertionSort _ _

theorem scan_nodup (d : Derived) : (d.scanActiveTripleQualityRows.map Prod.fst).Nodup :=
  (scan_perm d).nodup_iff.2 (d.nodup_triples.filter _)

theorem quarantine_sublist (d : Derived) :
    (d.qualityQuarantine.map Prod.fst).Sublist (d.scanActiveTripleQualityRows.map Prod.fst) := by
  refine List.map_filterMap_sublist (fun a b hab => ?_) _
  dsimp only at hab
  split at hab
  · cases hab
  · obtain ⟨r, -, rfl⟩ := Option.map_eq_some_iff.1 hab
    rfl

theorem cap_sublist (max : Option Nat)
    (work : List (TripleRow × TripleQualityReviewReason) × List TripleRow) :
    (applyQualityRepairCap max work).1.Sublist work.1 ∧
    (applyQualityRepairCap max work).2.Sublist work.2 := by
  unfold applyQualityRepairCap
  split
  · exact ⟨.refl _, .refl _⟩
  · exact ⟨List.filter_sublist, List.filter_sublist⟩

/-- The work of a run: active triples, each named once; the rewritten ones have an entity object. -/
structure WorkList (d : Derived)
    (work : List (TripleRow × TripleQualityReviewReason) × List TripleRow) : Prop where
  quarantine_nodup : (work.1.map Prod.fst).Nodup
  rewrite_nodup : work.2.Nodup
  quarantine : ∀ q ∈ work.1, q.1 ∈ d.triples ∧ q.1.status = .active ∧
    objectShouldBeLiteral q.1 = false
  rewrite : ∀ t ∈ work.2, t ∈ d.triples ∧ t.status = .active ∧ objectShouldBeLiteral t = true

theorem mem_qualityQuarantine_iff {t : TripleRow} {r : TripleQualityReviewReason} :
    (t, r) ∈ d.qualityQuarantine ↔ (t ∈ d.triples ∧ t.status = .active) ∧
    objectShouldBeLiteral t = false ∧
      activeTripleReviewReason t.subjectId t.predicate t.objectId t.objectKind t.confidence
        (d.literalOnlySubject t.subjectId) = some r := by
  simp only [qualityQuarantine, scanActiveTripleQualityRows, List.mem_filterMap, List.mem_map,
    List.mem_insertionSort]
  constructor
  · rintro ⟨⟨t', b⟩, ⟨t₀, ht₀, heq⟩, h⟩
    obtain ⟨rfl, rfl⟩ := Prod.mk.inj heq
    dsimp only at h
    split at h
    · cases h
    · next hlit =>
      obtain ⟨r', hr', heq'⟩ := Option.map_eq_some_iff.1 h
      obtain ⟨rfl, rfl⟩ := Prod.mk.inj heq'
      exact ⟨by simpa using ht₀, Bool.eq_false_iff.2 hlit, hr'⟩
  · rintro ⟨ht, hlit, hr⟩
    refine ⟨_, ⟨t, by simpa using ht, rfl⟩, ?_⟩
    simp [hlit, hr]

theorem mem_qualityRewrites_iff {t : TripleRow} :
    t ∈ d.qualityRewrites ↔ (t ∈ d.triples ∧ t.status = .active) ∧
    objectShouldBeLiteral t = true := by
  rw [qualityRewrites, List.mem_filter, (scan_perm d).mem_iff]
  simp

theorem qualityWork_workList (d : Derived) (scope : RepairScope) :
    WorkList d (d.qualityWork scope) := by
  obtain ⟨hq, hr⟩ := cap_sublist scope.maxClusters (d.qualityQuarantine, d.qualityRewrites)
  refine ⟨?_, ?_, fun q hmem => ?_, fun t hmem => ?_⟩
  · exact ((hq.map Prod.fst).trans (quarantine_sublist d)).nodup (scan_nodup d)
  · exact (hr.trans List.filter_sublist).nodup (scan_nodup d)
  · obtain ⟨⟨ht, hactive⟩, hlit, -⟩ := mem_qualityQuarantine_iff.1 (hq.subset hmem)
    exact ⟨ht, hactive, hlit⟩
  · obtain ⟨⟨ht, hactive⟩, hlit⟩ := mem_qualityRewrites_iff.1 (hr.subset hmem)
    exact ⟨ht, hactive, hlit⟩

/-- Among the triples, naming one is having it. -/
theorem namesTriple_iff_mem {ts : List TripleRow} (hts : ∀ t ∈ ts, t ∈ d.triples) {t : TripleRow}
    (ht : t ∈ d.triples) : namesTriple ts t = true ↔ t ∈ ts := by
  simp only [namesTriple, List.any_eq_true, decide_eq_true_eq]
  constructor
  · rintro ⟨u, hu, hid⟩
    rwa [triple_eq (hts u hu) ht hid] at hu
  · exact fun h => ⟨t, h, rfl⟩

/-- So many triples are named as the list is long. -/
theorem countP_namesTriple {ts : List TripleRow} (hnd : ts.Nodup) (hts : ∀ t ∈ ts, t ∈ d.triples) :
    d.triples.rows.countP (namesTriple ts) = ts.length := by
  rw [List.countP_eq_length_filter]
  refine List.Perm.length_eq ((List.perm_ext_iff_of_nodup (d.nodup_triples.filter _) hnd).2 fun t =>
    ?_)
  rw [List.mem_filter]
  exact ⟨fun h => (namesTriple_iff_mem hts h.1).1 h.2,
    fun h => ⟨hts t h, (namesTriple_iff_mem hts (hts t h)).2 h⟩⟩

end Work

end Derived

end Solo
