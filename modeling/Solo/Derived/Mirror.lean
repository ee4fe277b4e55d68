import Solo.Derived.Session

/-!
# The relationship graph mirrors the triples

`Mirror`: edges and evidence rows share the id of their triple, an edge has at least one evidence
row and its `evidence_count` counts them, triple and edge of one id agree in every field and are
active together, and an active triple has an edge. Each command keeps it, whatever the state it
starts from, and migration `0017` establishes it.
-/

namespace Solo

/-- The edge says what the triple says. -/
structure Mirrors (t : TripleRow) (e : EdgeRow) : Prop where
  subject : e.subjectEntityId = t.subjectId
  predicate : e.predicate = t.predicate
  object : e.object = .ofKind t.objectKind t.objectId
  validFrom : e.validFromMs = t.validFromMs
  validTo : e.validToMs = t.validToMs
  confidence : e.confidence = t.confidence
  active : t.status = .active ↔ e.status = .active

structure Mirror (d : Derived) : Prop where
  evidence_edge : ∀ v ∈ d.relationshipEvidence, v.edgeId = v.tripleId ∧
    ∃ e ∈ d.relationshipEdges, e.edgeId = v.tripleId
  evidence_triple : ∀ v ∈ d.relationshipEvidence, ∃ t ∈ d.triples, t.tripleId = v.tripleId
  counted : ∀ e ∈ d.relationshipEdges, e.evidenceCount = d.evidenceCount e.edgeId
  backed : ∀ e ∈ d.relationshipEdges, ∃ v ∈ d.relationshipEvidence, v.edgeId = e.edgeId
  agrees : ∀ t ∈ d.triples, ∀ e ∈ d.relationshipEdges, e.edgeId = t.tripleId → Mirrors t e
  covered : ∀ t ∈ d.triples, t.status = .active → ∃ e ∈ d.relationshipEdges, e.edgeId = t.tripleId

/-! ### Evidence statements -/

namespace Derived

variable {d : Derived} {p : EvidenceRow → Bool}

/-- The edge `id` has evidence among the rows with `p`. -/
def LosesEvidence (d : Derived) (p : EvidenceRow → Bool) (id : TripleId) : Prop :=
  ∃ v ∈ d.relationshipEvidence, p v = true ∧ v.edgeId = id

theorem mem_recount {id : TripleId} {e : EdgeRow} (h : e ∈ (d.recount id).relationshipEdges) :
    ∃ e₀ ∈ d.relationshipEdges, (e₀.edgeId = id ∧
      e = { e₀ with evidenceCount := d.evidenceCount id }) ∨ (e₀.edgeId ≠ id ∧ e = e₀) := by
  simp only [recount, Table.mem_updateWhere] at h
  obtain ⟨e₀, he₀, rfl⟩ := h
  refine ⟨e₀, he₀, ?_⟩
  by_cases hid : e₀.edgeId = id
  · exact .inl ⟨hid, by simp [hid]⟩
  · exact .inr ⟨hid, by simp [hid]⟩

/-- An edge after a delete of evidence: recounted if it lost a row, which leaves it one at least. -/
theorem mem_deleteEvidence {e : EdgeRow} (h : e ∈ (d.deleteEvidence p).relationshipEdges) :
    ∃ e₀ ∈ d.relationshipEdges,
      (d.LosesEvidence p e₀.edgeId ∧
          e = { e₀ with evidenceCount := (d.deleteEvidence p).evidenceCount e₀.edgeId } ∧
          ∃ v ∈ (d.deleteEvidence p).relationshipEvidence, v.edgeId = e₀.edgeId) ∨
        (¬ d.LosesEvidence p e₀.edgeId ∧ e = e₀) := by
  simp only [deleteEvidence, Table.mem_deleteWhere, Table.mem_updateWhere] at h
  obtain ⟨⟨e₀, he₀, rfl⟩, hkept⟩ := h
  refine ⟨e₀, he₀, ?_⟩
  by_cases hloses : d.LosesEvidence p e₀.edgeId
  · have htouched :
        (d.relationshipEvidence.rows.any fun v => p v && decide (v.edgeId = e₀.edgeId)) = true := by
      simpa [LosesEvidence] using hloses
    simp only [htouched, if_true, Bool.true_and, Bool.not_eq_false', List.any_eq_true,
      decide_eq_true_eq] at hkept ⊢
    exact .inl ⟨hloses, rfl, hkept⟩
  · have htouched :
        (d.relationshipEvidence.rows.any fun v => p v && decide (v.edgeId = e₀.edgeId)) =
        false := by
      simpa [LosesEvidence] using hloses
    exact .inr ⟨hloses, by simp [htouched]⟩

theorem mem_deleteEvidence_of_kept {e : EdgeRow} {v : EvidenceRow} (he : e ∈ d.relationshipEdges)
    (hv : v ∈ d.relationshipEvidence) (hp : p v = false) (hid : v.edgeId = e.edgeId) :
    ∃ e' ∈ (d.deleteEvidence p).relationshipEdges, e'.edgeId = e.edgeId := by
  have hkept : (d.relationshipEvidence.deleteWhere p).rows.any (·.edgeId = e.edgeId) = true := by
    simp only [List.any_eq_true, decide_eq_true_eq]
    exact ⟨v, Table.mem_deleteWhere.2 ⟨hv, hp⟩, hid⟩
  have hmem : ∀ b :
      Bool, (b = d.relationshipEvidence.rows.any fun v => p v && decide (v.edgeId = e.edgeId)) →
      (if b = true then { e with evidenceCount := (d.deleteEvidence p).evidenceCount e.edgeId }
        else e) ∈ (d.deleteEvidence p).relationshipEdges := by
    rintro b rfl
    simp only [deleteEvidence, Table.mem_deleteWhere, Table.mem_updateWhere]
    refine ⟨⟨e, he, rfl⟩, ?_⟩
    split <;> simp only [hkept, Bool.not_true, Bool.and_false]
  exact ⟨_, hmem _ rfl, by split <;> rfl⟩

theorem evidenceCount_deleteEvidence {id : TripleId} (h : ¬ d.LosesEvidence p id) :
    (d.deleteEvidence p).evidenceCount id = d.evidenceCount id := by
  simp only [evidenceCount, deleteEvidence, Table.deleteWhere, List.countP_filter]
  refine List.countP_congr fun v hv => ?_
  simp only [Bool.and_eq_true, decide_eq_true_eq, Bool.not_eq_true', and_iff_left_iff_imp]
  intro hid
  by_contra hp
  exact h ⟨v, hv, by simpa using hp, hid⟩

end Derived

namespace Mirror

variable {s : Store} {nowMs : Int} {d d₁ d' : Derived}

/-- Statements on the other tables. -/
theorem congr (h : Mirror d) (ht : d'.triples = d.triples)
    (he : d'.relationshipEdges = d.relationshipEdges)
    (hv : d'.relationshipEvidence = d.relationshipEvidence) : Mirror d' := by
  obtain ⟨h₁, h₂, h₃, h₄, h₅, h₆⟩ := h
  refine ⟨?_, ?_, ?_, ?_, ?_, ?_⟩ <;> simp only [ht, he, hv, Derived.evidenceCount]
  exacts [h₁, h₂, h₃, h₄, h₅, h₆]

theorem deleteTriples (h : Mirror d) (p : TripleRow → Bool) : Mirror (d.deleteTriples p) := by
  set q : EvidenceRow → Bool :=
    fun v => d.triples.rows.any fun t => p t && t.tripleId = v.tripleId with hq
  have hkept {t : TripleRow} (ht : t ∈ d.triples) (hp : p t = false) {v : EvidenceRow}
      (hid : v.tripleId = t.tripleId) : q v = false := by
    simp only [hq, List.any_eq_false, Bool.and_eq_true, decide_eq_true_eq, not_and]
    intro t' ht' hp' hid'
    rw [Derived.triple_eq ht' ht (hid'.trans hid), hp] at hp'
    cases hp'
  have hedge {v : EvidenceRow} (hv : v ∈ d.relationshipEvidence) (hqv : q v = false) :
      ∃ e ∈ (d.deleteTriples p).relationshipEdges, e.edgeId = v.tripleId := by
    obtain ⟨hid, e, he, hev⟩ := h.evidence_edge v hv
    rw [← hev]
    exact Derived.mem_deleteEvidence_of_kept he hv hqv (hid.trans hev.symm)
  constructor
  case evidence_edge =>
    intro v hv
    obtain ⟨hv, hqv⟩ := Table.mem_deleteWhere.1 hv
    exact ⟨(h.evidence_edge v hv).1, hedge hv hqv⟩
  case evidence_triple =>
    intro v hv
    obtain ⟨hv, hqv⟩ := Table.mem_deleteWhere.1 hv
    obtain ⟨t, ht, hid⟩ := h.evidence_triple v hv
    refine ⟨t, Table.mem_deleteWhere.2 ⟨ht, ?_⟩, hid⟩
    simp only [List.any_eq_false, Bool.and_eq_true, decide_eq_true_eq, not_and] at hqv
    by_contra hp
    exact hqv t ht (by simpa using hp) hid
  case counted =>
    intro e he
    obtain ⟨e₀, he₀, ⟨-, rfl, -⟩ | ⟨hloses, rfl⟩⟩ := Derived.mem_deleteEvidence he
    · rfl
    · rw [h.counted e he₀]
      exact (Derived.evidenceCount_deleteEvidence hloses).symm
  case backed =>
    intro e he
    obtain ⟨e₀, he₀, ⟨-, rfl, hv⟩ | ⟨hloses, rfl⟩⟩ := Derived.mem_deleteEvidence he
    · exact hv
    · obtain ⟨v, hv, hid⟩ := h.backed e he₀
      refine ⟨v, Table.mem_deleteWhere.2 ⟨hv, ?_⟩, hid⟩
      by_contra hp
      exact hloses ⟨v, hv, by simpa using hp, hid⟩
  case agrees =>
    intro t ht e he hid
    obtain ⟨ht, -⟩ := Table.mem_deleteWhere.1 ht
    obtain ⟨e₀, he₀, ⟨-, rfl, -⟩ | ⟨-, rfl⟩⟩ := Derived.mem_deleteEvidence he
    · obtain ⟨h₁, h₂, h₃, h₄, h₅, h₆, h₇⟩ := h.agrees t ht e₀ he₀ hid
      exact ⟨h₁, h₂, h₃, h₄, h₅, h₆, h₇⟩
    · exact h.agrees t ht e he₀ hid
  case covered =>
    intro t ht hactive
    obtain ⟨ht, hp⟩ := Table.mem_deleteWhere.1 ht
    obtain ⟨e, he, hid⟩ := h.covered t ht hactive
    obtain ⟨v, hv, hve⟩ := h.backed e he
    have hvt : v.tripleId = t.tripleId := (h.evidence_edge v hv).1.symm.trans (hve.trans hid)
    exact hvt ▸ hedge hv (hkept ht hp hvt)

theorem deleteClusters (h : Mirror d) (p : ClusterRow → Bool) : Mirror (d.deleteClusters p) := by
  obtain ⟨h₁, h₂, h₃, h₄, h₅, h₆⟩ := h.deleteTriples fun t =>
    t.clusterId.any fun c => d.clusters.rows.any fun r => p r && r.clusterId = c
  constructor
  case evidence_edge =>
    intro v hv
    simp only [Derived.deleteClusters, Table.mem_updateWhere] at hv
    obtain ⟨v₀, hv₀, rfl⟩ := hv
    have := h₁ v₀ hv₀
    split <;> exact this
  case evidence_triple =>
    intro v hv
    simp only [Derived.deleteClusters, Table.mem_updateWhere] at hv
    obtain ⟨v₀, hv₀, rfl⟩ := hv
    have := h₂ v₀ hv₀
    split <;> exact this
  case counted =>
    intro e he
    rw [h₃ e he]
    simp only [Derived.evidenceCount, Derived.deleteClusters]
    rw [Table.countP_updateWhere]
    exact fun _ _ _ => rfl
  case backed =>
    intro e he
    obtain ⟨v, hv, hid⟩ := h₄ e he
    simp only [Derived.deleteClusters, Table.mem_updateWhere]
    exact ⟨_, ⟨v, hv, rfl⟩, by split <;> exact hid⟩
  case agrees => exact h₅
  case covered => exact h₆

/-! ### Writing a fact -/

/-- The graph after the fact `t` was written: its edge, its evidence, and the others as they
were. -/
structure Written (t : ActiveTriple) (d d' : Derived) : Prop where
  row : ∀ r ∈ d'.triples, r.tripleId = t.tripleId → Mirrors r t.edge
  row_mem : ∃ r ∈ d'.triples, r.tripleId = t.tripleId
  row_other : ∀ r, r.tripleId ≠ t.tripleId → (r ∈ d'.triples ↔ r ∈ d.triples)
  edge : ∀ e ∈ d'.relationshipEdges, e.edgeId = t.tripleId →
    e = { t.edge with evidenceCount := e.evidenceCount }
  edge_mem : ∃ e ∈ d'.relationshipEdges, e.edgeId = t.tripleId
  edge_other : ∀ e, e.edgeId ≠ t.tripleId → (e ∈ d'.relationshipEdges ↔ e ∈ d.relationshipEdges)
  evidence_edge : ∀ v ∈ d'.relationshipEvidence, v.edgeId = v.tripleId
  evidence_mem : ∀ id, (∃ v ∈ d'.relationshipEvidence, v.tripleId = id) ↔
    id = t.tripleId ∨ ∃ v ∈ d.relationshipEvidence, v.tripleId = id
  counted : ∀ e ∈ d'.relationshipEdges, e.evidenceCount = d'.evidenceCount e.edgeId

theorem written (h : Mirror d) {t : ActiveTriple} (hw : Written t d d') : Mirror d' := by
  constructor
  case evidence_edge =>
    intro v hv
    refine ⟨hw.evidence_edge v hv, ?_⟩
    by_cases hid : v.tripleId = t.tripleId
    · exact hid ▸ hw.edge_mem
    · obtain ⟨v₀, hv₀, hv₀v⟩ := ((hw.evidence_mem v.tripleId).1 ⟨v, hv, rfl⟩).resolve_left hid
      obtain ⟨-, e, he, hev⟩ := h.evidence_edge v₀ hv₀
      rw [hv₀v] at hev
      exact ⟨e, (hw.edge_other e (by rwa [hev])).2 he, hev⟩
  case evidence_triple =>
    intro v hv
    by_cases hid : v.tripleId = t.tripleId
    · exact hid ▸ hw.row_mem
    · obtain ⟨v₀, hv₀, hv₀v⟩ := ((hw.evidence_mem v.tripleId).1 ⟨v, hv, rfl⟩).resolve_left hid
      obtain ⟨r, hr, hrv⟩ := h.evidence_triple v₀ hv₀
      rw [hv₀v] at hrv
      exact ⟨r, (hw.row_other r (by rwa [hrv])).2 hr, hrv⟩
  case counted => exact hw.counted
  case backed =>
    intro e he
    have hback : e.edgeId = t.tripleId ∨ ∃ v ∈ d.relationshipEvidence, v.tripleId = e.edgeId := by
      by_cases hid : e.edgeId = t.tripleId
      · exact .inl hid
      · obtain ⟨v, hv, hve⟩ := h.backed e ((hw.edge_other e hid).1 he)
        exact .inr ⟨v, hv, (h.evidence_edge v hv).1.symm.trans hve⟩
    obtain ⟨v, hv, hve⟩ := (hw.evidence_mem e.edgeId).2 hback
    exact ⟨v, hv, (hw.evidence_edge v hv).trans hve⟩
  case agrees =>
    intro r hr e he hid
    by_cases hrt : r.tripleId = t.tripleId
    · obtain ⟨h₁, h₂, h₃, h₄, h₅, h₆, h₇⟩ := hw.row r hr hrt
      rw [hw.edge e he (hid.trans hrt)]
      exact ⟨h₁, h₂, h₃, h₄, h₅, h₆, h₇⟩
    · exact h.agrees r ((hw.row_other r hrt).1 hr) e ((hw.edge_other e (by rwa [hid])).1 he) hid
  case covered =>
    intro r hr hactive
    by_cases hrt : r.tripleId = t.tripleId
    · exact hrt ▸ hw.edge_mem
    · obtain ⟨e, he, hid⟩ := h.covered r ((hw.row_other r hrt).1 hr) hactive
      exact ⟨e, (hw.edge_other e (by rwa [hid])).2 he, hid⟩

/-- The edge and evidence upserts of an active triple, after its row was written. -/
theorem upsertRelationshipEdge (h : Mirror d) {t : ActiveTriple} {c : Option ClusterId}
    {src : Option Rowid} (hw : d₁.upsertRelationshipEdge s t c src = some d')
    (hrow : ∀ r ∈ d₁.triples, r.tripleId = t.tripleId → Mirrors r t.edge)
    (hmem : ∃ r ∈ d₁.triples, r.tripleId = t.tripleId)
    (hother : ∀ r, r.tripleId ≠ t.tripleId → (r ∈ d₁.triples ↔ r ∈ d.triples))
    (hedges : d₁.relationshipEdges = d.relationshipEdges)
    (hevidence : d₁.relationshipEvidence = d.relationshipEvidence) : Mirror d' := by
  obtain ⟨d₂, he, hv⟩ := Option.bind_eq_some_iff.1 hw
  obtain ⟨edges, hups, rfl⟩ := Derived.upsertEdge_eq_some he
  rw [hedges] at hups
  have hedge (e : EdgeRow) (he : e ∈ edges) (hid : e.edgeId = t.tripleId) :
      e = { t.edge with evidenceCount := e.evidenceCount } := by
    rcases Table.mem_of_mem_upsert hups he with rfl | ⟨b, -, hb, rfl⟩ | ⟨-, hne⟩
    · rfl
    · rw [show b.edgeId = t.tripleId from of_decide_eq_true hb]
      rfl
    · exact absurd hid (of_decide_eq_false hne)
  have hedge_mem : ∃ e ∈ edges, e.edgeId = t.tripleId := by
    rcases Table.exists_mem_upsert hups with he | ⟨b, -, hb, he⟩
    · exact ⟨_, he, rfl⟩
    · exact ⟨_, he, of_decide_eq_true hb⟩
  have hedge_other (e : EdgeRow) (hid : e.edgeId ≠ t.tripleId) : e ∈ edges ↔
      e ∈ d.relationshipEdges := by
    refine ⟨fun he => ?_, fun he => Table.mem_upsert_of_not hups he (decide_eq_false hid)⟩
    rcases Table.mem_of_mem_upsert hups he with rfl | ⟨b, -, hb, rfl⟩ | ⟨he, -⟩
    · exact absurd rfl hid
    · exact absurd (of_decide_eq_true hb) hid
    · exact he
  obtain ⟨-, hcases⟩ := Derived.upsertEvidence_cases hv
  refine h.written (t := t) ?_
  rcases hcases with ⟨⟨old, hold, holdt⟩, rfl⟩ | ⟨hnone, evidence, hins, rfl⟩
  · -- The triple has evidence, so its edge is there and the upsert keeps the count.
    rw [hevidence] at hold
    refine ⟨hrow, hmem, hother, hedge, hedge_mem, hedge_other, ?_, ?_, ?_⟩
    · intro v hv
      simp only [Table.mem_updateWhere, hevidence] at hv
      obtain ⟨v₀, hv₀, rfl⟩ := hv
      split
      · next hv₀t => exact (of_decide_eq_true hv₀t).symm
      · exact (h.evidence_edge v₀ hv₀).1
    · intro id
      simp only [Table.mem_updateWhere, hevidence]
      constructor
      · rintro ⟨-, ⟨v₀, hv₀, rfl⟩, hid⟩
        exact .inr ⟨v₀, hv₀, by rw [← hid]; split <;> rfl⟩
      · rintro (rfl | ⟨v₀, hv₀, hid⟩)
        · exact ⟨_, ⟨old, hold, rfl⟩, by split <;> exact holdt⟩
        · exact ⟨_, ⟨v₀, hv₀, rfl⟩, by split <;> exact hid⟩
    · intro e he
      simp only [Derived.evidenceCount, hevidence]
      rw [Table.countP_updateWhere]
      · rcases Table.upsert?_cases hups with ⟨-, rfl⟩ | ⟨hno, -⟩
        · simp only [Table.mem_updateWhere] at he
          obtain ⟨b, hb, rfl⟩ := he
          have := h.counted b hb
          split <;> exact this
        · obtain ⟨-, e₁, he₁, hid₁⟩ := h.evidence_edge old hold
          exact absurd (hid₁.trans holdt) (of_decide_eq_false (hno e₁ he₁))
      · intro v hv hvt
        rw [(h.evidence_edge v hv).1, of_decide_eq_true hvt]
  · -- No evidence, so no edge: both are inserted, and the trigger counts the row.
    rw [hevidence] at hins hnone
    refine ⟨hrow, hmem, hother, ?_, ?_, ?_, ?_, ?_, ?_⟩
    · intro e he hid
      obtain ⟨e₀, he₀, ⟨hid₀, rfl⟩ | ⟨hne, rfl⟩⟩ := Derived.mem_recount he
      · rw [hedge e₀ he₀ hid₀]
      · exact absurd hid hne
    · obtain ⟨e, he, hid⟩ := hedge_mem
      refine ⟨_, by rw [Derived.recount, Table.mem_updateWhere]; exact ⟨e, he, rfl⟩, ?_⟩
      split <;> exact hid
    · intro e hid
      rw [← hedge_other e hid]
      constructor
      · intro he
        obtain ⟨e₀, he₀, ⟨hid₀, rfl⟩ | ⟨-, rfl⟩⟩ := Derived.mem_recount he
        · exact absurd hid₀ hid
        · exact he₀
      · intro he
        rw [Derived.recount, Table.mem_updateWhere]
        exact ⟨e, he, if_neg (by simpa using hid)⟩
    · intro v hv
      rcases (Table.mem_insert hins).1 hv with hv | rfl
      · exact (h.evidence_edge v hv).1
      · rfl
    · intro id
      constructor
      · rintro ⟨v, hv, rfl⟩
        rcases (Table.mem_insert hins).1 hv with hv | rfl
        · exact .inr ⟨v, hv, rfl⟩
        · exact .inl rfl
      · rintro (rfl | ⟨v, hv, rfl⟩)
        · exact ⟨_, (Table.mem_insert hins).2 (.inr rfl), rfl⟩
        · exact ⟨v, (Table.mem_insert hins).2 (.inl hv), rfl⟩
    · intro e he
      obtain ⟨e₀, he₀, ⟨hid₀, rfl⟩ | ⟨hne, rfl⟩⟩ := Derived.mem_recount he
      · simp only [hid₀]
        rfl
      · rw [h.counted e ((hedge_other e hne).1 he₀)]
        simp [Derived.evidenceCount, Derived.recount, Table.insert?_rows hins, Ne.symm hne]

theorem insertActiveTriple (h : Mirror d) {t : ActiveTriple} {c : Option ClusterId}
    {src : Option Rowid}
    {prov : Provenance} (hw : d.insertActiveTriple s nowMs t c src prov = some d') : Mirror d' := by
  obtain ⟨d₁, h₁, hw⟩ := Option.bind_eq_some_iff.1 hw
  obtain ⟨d₂, h₂, hw⟩ := Option.bind_eq_some_iff.1 hw
  obtain ⟨d₃, h₃, h₄⟩ := Option.bind_eq_some_iff.1 hw
  obtain ⟨entities, rfl⟩ := Derived.upsertEntitiesForActiveTriple_eq_some h₁
  obtain ⟨triples, hins, rfl⟩ := Derived.insertTriple_eq_some h₂
  obtain ⟨claims, -, rfl⟩ := Derived.upsertClaim_eq_some h₄
  have hfresh (r : TripleRow) (hr : r ∈ d.triples) : r.tripleId ≠ t.tripleId :=
    of_decide_eq_false (Table.insert?_fresh hins hr)
  refine (h.upsertRelationshipEdge h₃ ?_ ?_ ?_ rfl rfl).congr rfl rfl rfl
  · intro r hr hid
    rcases (Table.mem_insert hins).1 hr with hr | rfl
    · exact absurd hid (hfresh r hr)
    · exact ⟨rfl, rfl, rfl, rfl, rfl, rfl, by simp [ActiveTriple.row, ActiveTriple.edge]⟩
  · exact ⟨_, (Table.mem_insert hins).2 (.inr rfl), rfl⟩
  · intro r hid
    rw [Table.mem_insert hins]
    exact or_iff_left fun hr => hid (congrArg TripleRow.tripleId hr)

theorem promoteTriple (h : Mirror d) {t : ActiveTriple} {row : ReviewRow} {c : Option ClusterId}
    {src : Option Rowid}
    (hrow : ∃ r ∈ d.triples, r.tripleId = t.tripleId) (hvalid : t.validToMs = none)
    (hw : (d.promoteTriple t row).upsertGraphForActiveTriple s t c src = some d') : Mirror d' := by
  obtain ⟨d₁, h₁, hw⟩ := Option.bind_eq_some_iff.1 hw
  obtain ⟨entities, rfl⟩ := Derived.upsertEntitiesForActiveTriple_eq_some h₁
  refine h.upsertRelationshipEdge hw ?_ ?_ ?_ rfl rfl
  · intro r hr hid
    obtain ⟨r₀, -, rfl⟩ := Derived.mem_promoteTriple.1 hr
    split
    · exact ⟨rfl, rfl, rfl, rfl, hvalid, rfl, by simp [Derived.promoted, ActiveTriple.edge]⟩
    · next hne =>
      rw [if_neg hne] at hid
      exact absurd hid hne
  · obtain ⟨r, hr, hid⟩ := hrow
    refine ⟨_, Derived.mem_promoteTriple.2 ⟨r, hr, rfl⟩, ?_⟩
    split <;> exact hid
  · intro r hid
    refine Derived.mem_promoteTriple.trans ⟨?_, fun hr => ⟨r, hr, if_neg hid⟩⟩
    rintro ⟨r₀, hr₀, rfl⟩
    split at hid
    · next hr₀id => exact absurd hr₀id hid
    · next hr₀id => rwa [if_neg hr₀id]

/-! ### Rewriting facts in place -/

/-- An update of triples and edges that keeps ids and counts and makes no triple active. -/
theorem rewrite (h : Mirror d) {f : TripleRow → TripleRow} {g : EdgeRow → EdgeRow}
    (ht : ∀ r, r ∈ d'.triples ↔ ∃ r₀ ∈ d.triples, f r₀ = r)
    (he : ∀ e, e ∈ d'.relationshipEdges ↔ ∃ e₀ ∈ d.relationshipEdges, g e₀ = e)
    (hv : d'.relationshipEvidence = d.relationshipEvidence) (hf : ∀ r, (f r).tripleId = r.tripleId)
    (hg : ∀ e, (g e).edgeId = e.edgeId ∧ (g e).evidenceCount = e.evidenceCount)
    (hactive : ∀ r, (f r).status = .active → r.status = .active)
    (hm : ∀ r ∈ d.triples, ∀ e, e.edgeId = r.tripleId → Mirrors r e → Mirrors (f r) (g e)) :
    Mirror d' := by
  constructor
  case evidence_edge =>
    intro v hvmem
    rw [hv] at hvmem
    obtain ⟨hid, e, hemem, hev⟩ := h.evidence_edge v hvmem
    exact ⟨hid, g e, (he _).2 ⟨e, hemem, rfl⟩, (hg e).1.trans hev⟩
  case evidence_triple =>
    intro v hvmem
    rw [hv] at hvmem
    obtain ⟨r, hr, hid⟩ := h.evidence_triple v hvmem
    exact ⟨f r, (ht _).2 ⟨r, hr, rfl⟩, (hf r).trans hid⟩
  case counted =>
    intro e hemem
    obtain ⟨e₀, he₀, rfl⟩ := (he e).1 hemem
    rw [(hg e₀).2, (hg e₀).1, h.counted e₀ he₀, Derived.evidenceCount, Derived.evidenceCount, hv]
  case backed =>
    intro e hemem
    obtain ⟨e₀, he₀, rfl⟩ := (he e).1 hemem
    rw [hv, (hg e₀).1]
    exact h.backed e₀ he₀
  case agrees =>
    intro r hr e hemem hid
    obtain ⟨r₀, hr₀, rfl⟩ := (ht r).1 hr
    obtain ⟨e₀, he₀, rfl⟩ := (he e).1 hemem
    rw [hf, (hg e₀).1] at hid
    exact hm r₀ hr₀ e₀ hid (h.agrees r₀ hr₀ e₀ he₀ hid)
  case covered =>
    intro r hr hrow
    obtain ⟨r₀, hr₀, rfl⟩ := (ht r).1 hr
    obtain ⟨e, hemem, hid⟩ := h.covered r₀ hr₀ (hactive r₀ hrow)
    exact ⟨g e, (he _).2 ⟨e, hemem, rfl⟩, by rw [(hg e).1, hf, hid]⟩

theorem supersedeTriple (h : Mirror d) (id : TripleId) : Mirror (d.supersedeTriple id) := by
  refine h.rewrite (fun r => by rw [Derived.supersedeTriple, Table.mem_updateWhere])
    (fun e => by rw [Derived.supersedeTriple, Table.mem_updateWhere]) rfl ?_ ?_ ?_ ?_
  · intro r
    split <;> rfl
  · intro e
    split <;> exact ⟨rfl, rfl⟩
  · intro r hr
    split at hr
    · cases hr
    · exact hr
  · rintro r - e hid ⟨h₁, h₂, h₃, h₄, h₅, h₆, h₇⟩
    simp only [hid, Bool.and_eq_true, decide_eq_true_eq, ← h₇]
    split
    · exact ⟨h₁, h₂, h₃, h₄, h₅, h₆, by simp⟩
    · exact ⟨h₁, h₂, h₃, h₄, h₅, h₆, h₇⟩

theorem normalizeAlias (h : Mirror d) (src dst : String) : Mirror (d.normalizeAlias src dst) := by
  refine h.rewrite (fun r => Derived.mem_triples_normalizeAlias)
    (fun e => Derived.mem_edges_normalizeAlias) rfl
    (fun r => rfl) (fun e => ⟨rfl, rfl⟩) (fun r hr => hr) ?_
  rintro r - e - ⟨h₁, h₂, h₃, h₄, h₅, h₆, h₇⟩
  refine ⟨congrArg (Derived.renamed src dst) h₁, h₂, ?_, h₄, h₅, h₆, h₇⟩
  simp only [Derived.renameEdge, Derived.renameTriple, h₃]
  cases r.objectKind <;> rfl

/-- A triple the literal rewrite still finds as it was scanned. -/
def StillEntity (d : Derived) (t : TripleRow) : Prop :=
  ∃ r ∈ d.triples, r.tripleId = t.tripleId ∧ r.objectId = t.objectId ∧ r.status = .active

theorem rewriteToLiteral (h : Mirror d) {t : TripleRow} (ht : StillEntity d t) :
    Mirror (d.rewriteToLiteral t) := by
  obtain ⟨r₁, hr₁, hid₁, hobj₁, hactive₁⟩ := ht
  refine h.rewrite (fun r => by rw [Derived.rewriteToLiteral, Table.mem_updateWhere])
    (fun e => by rw [Derived.rewriteToLiteral, Table.mem_updateWhere]) rfl ?_ ?_ ?_ ?_
  · intro r
    split <;> rfl
  · intro e
    split <;> exact ⟨rfl, rfl⟩
  · intro r hr
    split at hr <;> exact hr
  · rintro r hr e hid ⟨h₁, h₂, h₃, h₄, h₅, h₆, h₇⟩
    by_cases hrt : r.tripleId = t.tripleId
    · obtain rfl := Derived.triple_eq hr hr₁ (hrt.trans hid₁.symm)
      cases hkind : r.objectKind with
      | entity =>
        simp only [hid, hrt, hactive₁, hkind, h₃, EdgeObject.ofKind, EdgeObject.entityId?,
          decide_true, Option.isSome_some, Bool.and_self, if_true]
        exact ⟨h₁, h₂, congrArg _ hobj₁.symm, h₄, h₅, h₆, hactive₁ ▸ h₇⟩
      | literal =>
        simp only [hkind, h₃, EdgeObject.ofKind, EdgeObject.entityId?, reduceCtorEq, decide_false,
          Option.isSome_none, Bool.and_false, Bool.false_eq_true, if_false]
        exact ⟨h₁, h₂, by rw [h₃], h₄, h₅, h₆, h₇⟩
    · simp only [hid, hrt, decide_false, Bool.false_and, Bool.false_eq_true, if_false]
      exact ⟨h₁, h₂, h₃, h₄, h₅, h₆, h₇⟩

/-! ### The commands -/

theorem insertTripleReview (h : Mirror d) {c : TripleReviewCandidate}
    (hw : d.insertTripleReview s nowMs c = some d') : Mirror d' := by
  obtain ⟨d₁, h₁, h₂⟩ := Option.bind_eq_some_iff.1 hw
  obtain ⟨claims, -, rfl⟩ := Derived.upsertClaim_eq_some h₁
  obtain ⟨reviews, -, rfl⟩ := Derived.upsertReview_eq_some h₂
  exact h.congr rfl rfl rfl

theorem attachAbstraction (h : Mirror d) {a : SemanticAbstraction}
    (hw : d.attachAbstraction s nowMs a = some d') : Mirror d' := by
  obtain ⟨d₁, h₁, hfold⟩ := Option.bind_eq_some_iff.1 hw
  obtain ⟨abstractions, -, rfl⟩ := Derived.insertAbstraction_eq_some h₁
  have hcleared :
      Mirror (((d.deleteAbstractionsOf a.clusterId).deleteTriplesOf a.clusterId).deleteReviewsOf
        a.clusterId) :=
    (deleteTriples (h.congr rfl rfl rfl) _).congr rfl rfl rfl
  refine Result.foldlM_invariant_option Mirror ?_ ?_ hfold
  case refine_2 => exact hcleared.congr rfl rfl rfl
  intro t _ d₂ d₃ h₂ hstep
  unfold Derived.attachTriple at hstep
  split at hstep
  · exact h₂.insertActiveTriple hstep
  · exact h₂.insertTripleReview hstep

theorem handleAttachAbstractionBatch (h : Mirror d) {deferred : Nat}
    {items : List (ClusterId × SemanticAbstraction)}
    {report : AttachReport}
    (hw : d.handleAttachAbstractionBatch s nowMs deferred items = .ok (d', report)) :
    Mirror d' := by
  unfold Derived.handleAttachAbstractionBatch at hw
  split at hw
  · cases hw
  · have hfold :=
      List.foldlRecOn (motive := fun st => Mirror st.1) (items.map Prod.snd)
      (Derived.attachCluster s nowMs) (b := (d, ⟨0, 0, 0, 0, deferred⟩)) h fun st hst a _ => ?_
    · rwa [Except.ok.inj hw] at hfold
    · unfold Derived.attachCluster
      split
      · next d₁ hd₁ => exact hst.attachAbstraction hd₁
      · exact hst

theorem promoteMemoryQualityReview (h : Mirror d) {newId : String} {row : ReviewRow}
    (hw : d.promoteMemoryQualityReview s nowMs newId row = .ok d') : Mirror d' := by
  obtain ⟨active, hactive, hw⟩ := Result.bind_eq_ok.1 hw
  obtain ⟨hid, hvalid⟩ := memoryQualityActiveTriple_eq_ok hactive
  split at hw
  · next hany =>
    obtain ⟨-, -, hw⟩ := Result.bind_eq_ok.1 hw
    refine h.promoteTriple ?_ hvalid (orStorage_eq_ok.1 hw)
    simpa [hid] using hany
  · exact h.insertActiveTriple (orStorage_eq_ok.1 hw)

theorem insertRewrittenMemoryQualityFact (h : Mirror d) {newId : String} {row : ReviewRow}
    {r : ReviewRewrite}
    (hw : d.insertRewrittenMemoryQualityFact s nowMs newId row r = .ok d') : Mirror d' := by
  obtain ⟨active, -, hw⟩ := Result.bind_eq_ok.1 hw
  split at hw
  · cases hw
  · exact h.insertActiveTriple (orStorage_eq_ok.1 hw)

theorem applyReviewDecision (h : Mirror d) {newId : Nat → String} {row : ReviewRow}
    {u : ReviewUpdate} (hw : d.applyReviewDecision s nowMs newId row u = .ok d') : Mirror d' := by
  unfold Derived.applyReviewDecision at hw
  split at hw
  · exact h.promoteMemoryQualityReview hw
  · split at hw
    · cases hw
    · exact Result.foldlM_invariant Mirror
        (fun r _ d₁ d₂ h₁ hr => h₁.insertRewrittenMemoryQualityFact hr) h hw
  · exact Except.ok.inj hw ▸ h
  · exact Except.ok.inj hw ▸ h

theorem updateMemoryClaimForReview (h : Mirror d) {row : ReviewRow} {status : ReviewStatus}
    (hw : d.updateMemoryClaimForReview s row status = some d') : Mirror d' := by
  obtain ⟨d₁, h₁, hw⟩ := Option.bind_eq_some_iff.1 hw
  have hd₁ : Mirror d₁ := by
    unfold Derived.insertOrIgnoreClaim at h₁
    split at h₁
    · obtain ⟨-, -, h₁⟩ := Option.bind_eq_some_iff.1 h₁
      exact Option.some.inj h₁ ▸ h.congr rfl rfl rfl
    · exact Option.some.inj h₁ ▸ h
  exact Option.some.inj hw ▸ hd₁.congr rfl rfl rfl

theorem handleMemoryQualityReviewUpdate (h : Mirror d) {newId : Nat → String} {u : ReviewUpdate}
    {row : ReviewRow}
    (hw : d.handleMemoryQualityReviewUpdate s nowMs newId u = .ok (d', row)) : Mirror d' := by
  obtain ⟨-, -, hw⟩ := Result.bind_eq_ok.1 hw
  split at hw
  · cases hw
  · split at hw
    · rw [Result.pure_eq_ok, Prod.mk.injEq] at hw
      exact hw.1 ▸ h.congr rfl rfl rfl
    · split at hw
      · cases hw
      · obtain ⟨d₁, h₁, hw⟩ := Result.bind_eq_ok.1 hw
        obtain ⟨d₂, h₂, hw⟩ := Result.bind_eq_ok.1 hw
        rw [Result.pure_eq_ok, Prod.mk.injEq] at hw
        refine hw.1 ▸ updateMemoryClaimForReview ?_ (orStorage_eq_ok.1 h₂)
        exact (h.applyReviewDecision h₁).congr rfl rfl rfl

theorem repairStaleAbstractions (h : Mirror d) (scope : RepairScope) :
    Mirror (d.repairStaleAbstractions scope).1 := by
  unfold Derived.repairStaleAbstractions
  split
  · exact h
  · refine List.foldlRecOn (motive := Mirror) _ Derived.repairStaleCluster h fun d₁ h₁ c _ => ?_
    exact (deleteTriples (h₁.congr rfl rfl rfl) _).congr rfl rfl rfl

theorem empty : Mirror Derived.empty := by
  constructor <;> intro _ h <;> exact absurd h Table.not_mem_empty

theorem rebuildAllDerived (h : Mirror d) (scope : RepairScope) :
    Mirror (d.rebuildAllDerived scope).1 := by
  unfold Derived.rebuildAllDerived
  split
  · exact h
  · exact empty.congr rfl rfl rfl

theorem stillEntity_rewriteToLiteral {t t' : TripleRow} (h : StillEntity d t) :
    StillEntity (d.rewriteToLiteral t') t := by
  obtain ⟨r, hr, hid, hobj, hactive⟩ := h
  refine ⟨_, by rw [Derived.rewriteToLiteral, Table.mem_updateWhere]; exact ⟨r, hr, rfl⟩, ?_⟩
  split <;> exact ⟨hid, hobj, hactive⟩

theorem rewriteAll (h : Mirror d) {ts : List TripleRow} (hts : ∀ t ∈ ts, StillEntity d t) :
    Mirror (ts.foldl Derived.rewriteToLiteral d) := by
  have hrun := List.foldlRecOn (motive := fun d => Mirror d ∧ ∀ t ∈ ts, StillEntity d t) ts
    Derived.rewriteToLiteral ⟨h, hts⟩ fun d₁ h₁ t ht =>
      ⟨h₁.1.rewriteToLiteral (h₁.2 t ht), fun t' ht' => stillEntity_rewriteToLiteral (h₁.2 t' ht')⟩
  exact hrun.1

theorem quarantineTriple (h : Mirror d) {q : TripleRow × TripleQualityReviewReason}
    (hw : d.quarantineTriple s nowMs q = .ok d') : Mirror d' := by
  obtain ⟨d₁, h₁, hw⟩ := Result.bind_eq_ok.1 hw
  obtain ⟨d₂, h₂, hw⟩ := Result.bind_eq_ok.1 hw
  obtain ⟨reviews, -, rfl⟩ := Derived.upsertReview_eq_some (orStorage_eq_ok.1 h₁)
  obtain ⟨claims, -, rfl⟩ := Derived.upsertClaim_eq_some (orStorage_eq_ok.1 h₂)
  rw [Result.pure_eq_ok] at hw
  subst hw
  refine supersedeTriple ?_ _
  exact h.congr rfl rfl rfl

theorem runQualityRepair (h : Mirror d) {scope : RepairScope}
    (hw : d.runQualityRepair s nowMs (d.qualityWork scope) = .ok d') : Mirror d' := by
  refine Result.foldlM_invariant Mirror (fun q _ d₁ d₂ h₁ hq => h₁.quarantineTriple hq)
    (h.rewriteAll ?_) hw
  intro t ht
  obtain ⟨htriple, hactive⟩ := Derived.mem_qualityRewrites (Derived.mem_of_mem_cap ht)
  exact ⟨t, htriple, rfl, rfl, hactive⟩

theorem handleRepairDerived (h : Mirror d) {scope : RepairScope} {report : RepairReport}
    (hw : d.handleRepairDerived s nowMs scope = .ok (d', report)) : Mirror d' := by
  unfold Derived.handleRepairDerived at hw
  split at hw
  · cases hw
  · split at hw
    · have := h.repairStaleAbstractions scope
      rwa [Except.ok.inj hw] at this
    · unfold Derived.repairActiveTripleQuality at hw
      dsimp only at hw
      split at hw
      · cases hw
        exact h
      · obtain ⟨d₁, h₁, hw⟩ := Result.bind_eq_ok.1 hw
        rw [Result.pure_eq_ok, Prod.mk.injEq] at hw
        exact hw.1 ▸ h.runQualityRepair h₁
    · have := h.rebuildAllDerived scope
      rwa [Except.ok.inj hw] at this

theorem handleNormalizeSubjects (h : Mirror d) (aliases : List (String × String)) (dryRun : Bool) :
    Mirror (d.handleNormalizeSubjects aliases dryRun).1 := by
  show Mirror (if dryRun = true then d else (aliases.foldl Derived.normalizeStep (d, 0, 0)).1)
  split
  · exact h
  · exact List.foldlRecOn (motive := fun st => Mirror st.1) aliases Derived.normalizeStep (b :=
      (d, 0, 0)) h fun st hst pair _ => hst.normalizeAlias pair.1 pair.2

theorem persistPlan (h : Mirror d) {plan : Derived.ConsolidationPlan}
    (hw : d.persistPlan s nowMs plan = .ok d') : Mirror d' := by
  obtain ⟨d₁, h₁, hw⟩ := Result.bind_eq_ok.1 hw
  have hd₁ : Mirror d₁ := by
    refine Result.foldlM_invariant Mirror (fun c _ d₂ d₃ h₂ hc => ?_) h h₁
    obtain ⟨clusters, members, rfl⟩ := Derived.persistCluster_eq_ok hc
    exact h₂.congr rfl rfl rfl
  rw [Result.pure_eq_ok] at hw
  refine hw ▸ List.foldlRecOn (motive := Mirror) _ Derived.refreshAbsorbed hd₁ fun d₂ h₂ a _ => ?_
  rw [Derived.refreshAbsorbed, Derived.deleteTriplesOf]
  refine deleteTriples ?_ _
  exact h₂.congr rfl rfl rfl

theorem applyMerge (h : Mirror d) {op : MergeOp} (hw : d.applyMerge op = some d') : Mirror d' := by
  obtain ⟨d₁, h₁, hw⟩ := Option.bind_eq_some_iff.1 hw
  have hd₁ : Mirror d₁ := by
    refine Result.foldlM_invariant_option Mirror (fun loser _ d₂ d₃ h₂ hmove => ?_) h h₁
    obtain ⟨members, -, rfl⟩ := Derived.moveMembers_eq_some hmove
    exact h₂.congr rfl rfl rfl
  refine Option.some.inj hw ▸ List.foldlRecOn (motive := Mirror) _ _ (hd₁.congr rfl rfl rfl)
    fun d₂ h₂ loser _ => ?_
  exact h₂.deleteClusters _

theorem handleConsolidate (h : Mirror d) (env : ConsolidateEnv) (hash : HashOrder)
    (newId : Nat → ClusterId)
    (scope : ConsolidationScope) : Mirror (d.handleConsolidate env s nowMs hash newId scope).1 := by
  unfold Derived.handleConsolidate
  split
  · exact h
  dsimp only
  split
  · exact h
  split
  · exact h
  next plan _ =>
  split
  · exact h
  next d₁ h₁ =>
  have hd₁ : Mirror d₁ := h.persistPlan h₁
  split
  · exact hd₁
  next merges _ =>
  split
  · exact hd₁
  next d₂ h₂ =>
  exact Result.foldlM_invariant_option Mirror (fun op _ d₃ d₄ h₃ hop => h₃.applyMerge hop)
    hd₁ (orStorage_eq_ok.1 h₂)

/-- One command, whatever it is and however it ends. -/
theorem step (h : Mirror d) (e : DerivedEvent) : Mirror (d.step s e) := by
  have hcommitted {α : Type} {r : Except Error (Derived × α)}
      (hr : ∀ d' a, r = .ok (d', a) → Mirror d') : Mirror (d.committed r) := by
    cases r with
    | error e => exact h
    | ok p => exact hr p.1 p.2 rfl
  unfold Derived.step
  cases e.command with
  | attachAbstractionBatch deferred items =>
    exact hcommitted fun d' report => h.handleAttachAbstractionBatch
  | updateMemoryQualityReview u => exact hcommitted fun d' row => h.handleMemoryQualityReviewUpdate
  | repairDerived scope => exact hcommitted fun d' report => h.handleRepairDerived
  | normalizeSubjects aliases dryRun => exact h.handleNormalizeSubjects aliases dryRun
  | consolidate env hash scope => exact h.handleConsolidate env hash e.newId scope

end Mirror

/-! ### The migrated database -/

/-- Migration `0017` after it inserted the evidence of the triples `done`. -/
structure Backfilled (legacy : Derived) (done : List TripleRow) (d : Derived) : Prop where
  triples : d.triples = legacy.triples
  edge : ∀ e ∈ d.relationshipEdges, ∃ t ∈ legacy.activeTriples, e =
    { Derived.backfillEdge t with evidenceCount := e.evidenceCount }
  edge_mem : ∀ t ∈ legacy.activeTriples, ∃ e ∈ d.relationshipEdges, e.edgeId = t.tripleId
  evidence : ∀ v ∈ d.relationshipEvidence, v.evidenceId = v.tripleId ∧ v.edgeId = v.tripleId ∧
    ∃ t ∈ legacy.activeTriples, t.tripleId = v.tripleId
  evidence_mem : ∀ t ∈ done, ∃ v ∈ d.relationshipEvidence, v.tripleId = t.tripleId
  counted : ∀ e ∈ d.relationshipEdges, e.evidenceCount = d.evidenceCount e.edgeId

namespace Backfilled

variable {s : Store} {legacy d : Derived} {done : List TripleRow}

theorem start {entities : Table EntityRow} :
    Backfilled legacy [] { legacy with
      entities := entities, relationshipEdges := legacy.backfillEdges, relationshipEvidence := .empty } := by
  have hedge {e : EdgeRow} (he : e ∈ legacy.backfillEdges) :
      ∃ t ∈ legacy.activeTriples, e = Derived.backfillEdge t := by
    rcases Table.mem_foldl_insertOrIgnore he with he | he
    · exact absurd he Table.not_mem_empty
    · obtain ⟨t, ht, rfl⟩ := List.mem_map.1 he
      exact ⟨t, ht, rfl⟩
  refine ⟨rfl, ?_, ?_, ?_, ?_, ?_⟩
  · intro e he
    obtain ⟨t, ht, rfl⟩ := hedge he
    exact ⟨t, ht, rfl⟩
  · intro t ht
    have hmem : Derived.backfillEdge t ∈ legacy.activeTriples.map Derived.backfillEdge :=
      List.mem_map_of_mem ht
    rcases Table.exists_mem_foldl_insertOrIgnore hmem with he | ⟨e, he, hc⟩
    · exact ⟨_, he, rfl⟩
    · exact ⟨e, he, of_decide_eq_true hc⟩
  · exact fun v hv => absurd hv Table.not_mem_empty
  · exact fun t ht => absurd ht List.not_mem_nil
  · intro e he
    obtain ⟨t, -, rfl⟩ := hedge he
    rfl

theorem insertEvidence (h : Backfilled legacy done d) {t : TripleRow}
    (ht : t ∈ legacy.activeTriples) :
    Backfilled legacy (done ++ [t]) (d.insertOrIgnoreEvidence (Derived.backfillEvidence s t)) := by
  unfold Derived.insertOrIgnoreEvidence
  split
  case h_1 evidence hins =>
    refine ⟨h.triples, ?_, ?_, ?_, ?_, ?_⟩
    · intro e he
      obtain ⟨e₀, he₀, hcase⟩ := Derived.mem_recount he
      obtain ⟨t₀, ht₀, heq⟩ := h.edge e₀ he₀
      obtain ⟨-, rfl⟩ | ⟨-, rfl⟩ := hcase
      · exact ⟨t₀, ht₀, by rw [heq]⟩
      · exact ⟨t₀, ht₀, heq⟩
    · intro t₀ ht₀
      obtain ⟨e, he, hid⟩ := h.edge_mem t₀ ht₀
      refine ⟨_, by rw [Derived.recount, Table.mem_updateWhere]; exact ⟨e, he, rfl⟩, ?_⟩
      split <;> exact hid
    · intro v hv
      rcases (Table.mem_insert hins).1 hv with hv | rfl
      · exact h.evidence v hv
      · exact ⟨rfl, rfl, t, ht, rfl⟩
    · intro t₀ ht₀
      rcases List.mem_append.1 ht₀ with ht₀ | ht₀
      · obtain ⟨v, hv, hid⟩ := h.evidence_mem t₀ ht₀
        exact ⟨v, (Table.mem_insert hins).2 (.inl hv), hid⟩
      · rw [List.mem_singleton.1 ht₀]
        exact ⟨_, (Table.mem_insert hins).2 (.inr rfl), rfl⟩
    · intro e he
      obtain ⟨e₀, he₀, ⟨hid₀, rfl⟩ | ⟨hne, rfl⟩⟩ := Derived.mem_recount he
      · simp only [hid₀]
        rfl
      · rw [h.counted e he₀]
        simp [Derived.evidenceCount, Derived.recount, Table.insert?_rows hins, Ne.symm hne]
  case h_2 hnone =>
    refine ⟨h.triples, h.edge, h.edge_mem, h.evidence, ?_, h.counted⟩
    intro t₀ ht₀
    rcases List.mem_append.1 ht₀ with ht₀ | ht₀
    · exact h.evidence_mem t₀ ht₀
    · rw [List.mem_singleton.1 ht₀]
      obtain ⟨v, hv, hc⟩ := Table.insert?_eq_none.1 hnone
      simp only [Keyed.clash, Bool.or_eq_true, decide_eq_true_eq] at hc
      exact ⟨v, hv, hc.elim (fun hid => (h.evidence v hv).1.symm.trans hid) id⟩

theorem foldl (h : Backfilled legacy done d) {ts : List TripleRow}
    (hts : ∀ t ∈ ts, t ∈ legacy.activeTriples) :
    Backfilled legacy (done ++ ts)
    (ts.foldl (fun d t => d.insertOrIgnoreEvidence (Derived.backfillEvidence s t)) d) := by
  induction ts generalizing done d with
  | nil => simpa using h
  | cons t ts ih =>
    rw [List.append_cons]
    exact ih (h.insertEvidence (hts t List.mem_cons_self)) fun t' ht' =>
      hts t' (List.mem_cons_of_mem _ ht')

theorem mirror (h : Backfilled legacy legacy.activeTriples d) : Mirror d := by
  have hmem {t : TripleRow} (ht : t ∈ legacy.activeTriples) : t ∈ d.triples ∧
      t.status = .active := by
    rw [h.triples]
    simpa [Derived.activeTriples] using ht
  constructor
  case evidence_edge =>
    intro v hv
    obtain ⟨-, hid, t, ht, htv⟩ := h.evidence v hv
    exact ⟨hid, htv ▸ h.edge_mem t ht⟩
  case evidence_triple =>
    intro v hv
    obtain ⟨-, -, t, ht, htv⟩ := h.evidence v hv
    exact ⟨t, (hmem ht).1, htv⟩
  case counted => exact h.counted
  case backed =>
    intro e he
    obtain ⟨t, ht, heq⟩ := h.edge e he
    obtain ⟨v, hv, hid⟩ := h.evidence_mem t ht
    refine ⟨v, hv, ?_⟩
    rw [(h.evidence v hv).2.1, hid, heq]
    rfl
  case agrees =>
    intro t ht e he hid
    obtain ⟨t₀, ht₀, heq⟩ := h.edge e he
    obtain ⟨ht₀, hactive⟩ := hmem ht₀
    rw [heq] at hid ⊢
    obtain rfl := Derived.triple_eq ht₀ ht hid
    exact ⟨rfl, rfl, rfl, rfl, rfl, rfl, by simp [hactive, Derived.backfillEdge]⟩
  case covered =>
    intro t ht hactive
    rw [h.triples] at ht
    exact h.edge_mem t (by simpa [Derived.activeTriples] using ⟨ht, hactive⟩)

end Backfilled

theorem Mirror.migrated (s : Store) (legacy : Derived) : Mirror (legacy.migrated s) := by
  have hgraph : Mirror (legacy.migrateGraph s) := (Backfilled.start.foldl fun t ht => ht).mirror
  exact hgraph.congr rfl rfl rfl

/-- Every active triple has exactly one active edge of its id, which says the same; every active
edge has such a triple; and `evidence_count` counts the evidence rows. -/
def EdgesMirrorFacts (d : Derived) : Prop :=
  (∀ t ∈ d.triples, t.status = .active →
      ∃! e, e ∈ d.relationshipEdges ∧ e.status = .active ∧ e.edgeId = t.tripleId ∧ Mirrors t e) ∧
    (∀ e ∈ d.relationshipEdges, e.status = .active →
      ∃ t ∈ d.triples, t.status = .active ∧ e.edgeId = t.tripleId ∧ Mirrors t e) ∧
    ∀ e ∈ d.relationshipEdges, e.evidenceCount = d.evidenceCount e.edgeId

theorem Mirror.edgesMirrorFacts {d : Derived} (h : Mirror d) : EdgesMirrorFacts d := by
  refine ⟨?_, ?_, h.counted⟩
  · intro t ht hactive
    obtain ⟨e, he, hid⟩ := h.covered t ht hactive
    have hm := h.agrees t ht e he hid
    refine ⟨e, ⟨he, hm.active.1 hactive, hid, hm⟩, ?_⟩
    rintro e' ⟨he', -, hid', -⟩
    exact Derived.edge_eq he' he (hid'.trans hid.symm)
  · intro e he hactive
    obtain ⟨v, hv, hve⟩ := h.backed e he
    obtain ⟨t, ht, htv⟩ := h.evidence_triple v hv
    have hid : e.edgeId = t.tripleId := by rw [htv, ← (h.evidence_edge v hv).1, hve]
    have hm := h.agrees t ht e he hid
    exact ⟨t, ht, hm.active.2 hactive, hid, hm⟩

/-- In every state of every session, the graph mirrors the triples. -/
theorem edgesMirrorFacts_always (s : Store) (legacy : Derived) (es : List DerivedEvent) :
    Run.Always (Derived.step s) EdgesMirrorFacts (legacy.migrated s) es := by
  refine Run.always_iff_prefix.2 fun pre _ => Mirror.edgesMirrorFacts ?_
  exact Run.invariant Mirror (fun d e h => h.step e) (Mirror.migrated s legacy)

end Solo
