import Solo.Derived.QualityRun

/-!
# One run of the quality gate, and the next (`repair_active_triple_quality`)

Whether an active fact passes the gate depends on the others: a literal about a machine identifier
needs an entity fact about it. A run decides every fact by the state it begins with, and a fact
whose object becomes a literal is not looked at further. `qualityGate_fixpoint_iff`: after a run
without a cap every active fact passes, and the next run has nothing to do, exactly when the
rewritten facts pass as literals and no machine identifier loses its last entity fact to the run.
-/

namespace Solo

/-! ### The gate on one fact -/

/-- `active_triple_review_reason` of a stored triple. -/
def TripleRow.reviewReason (t : TripleRow) (literalOnlySubject : Bool) :
    Option TripleQualityReviewReason :=
  activeTripleReviewReason t.subjectId t.predicate t.objectId t.objectKind t.confidence
    literalOnlySubject

/-- A literal fact that passes only as long as its subject has an entity fact. -/
def TripleRow.needsEntityFact (t : TripleRow) : Bool :=
  t.objectKind = .literal && !objectIsMetadataLiteral (cleanLabel t.objectId) &&
    looksLikeMachineIdentifier (canonicalEntityId (cleanLabel t.subjectId))

theorem literalReviewReason_true {subject predicate object : String} :
    literalReviewReason subject predicate object true = none ↔
      literalReviewReason subject predicate object false = none ∧
        (objectIsMetadataLiteral object = false → looksLikeMachineIdentifier subject = false) := by
  unfold literalReviewReason
  by_cases hm : objectIsMetadataLiteral object = true
  · simp [hm]
  · by_cases hid : looksLikeMachineIdentifier subject = true
    · simp [hm, hid]
    · simp [hm, hid]

namespace TripleRow

/-- Without an entity fact about the subject the gate asks for one thing more. -/
theorem reviewReason_true {t : TripleRow} :
    t.reviewReason true = none ↔ t.reviewReason false = none ∧ t.needsEntityFact = false := by
  unfold reviewReason activeTripleReviewReason needsEntityFact
  dsimp only
  cases commonReviewReason (cleanLabel t.subjectId) (cleanLabel t.predicate) (cleanLabel t.objectId)
    t.confidence with
  | some r => simp
  | none =>
    dsimp only
    split
    · simp
    split
    · simp
    cases t.objectKind with
    | entity => simp
    | literal =>
      dsimp only
      split
      · simp
      · rw [literalReviewReason_true]
        cases hm : objectIsMetadataLiteral (cleanLabel t.objectId) <;> simp

/-- An entity fact passes or not, whatever else there is. -/
theorem reviewReason_entity {t : TripleRow} (h : t.objectKind = .entity) (b : Bool) :
    t.reviewReason b = none ↔ t.reviewReason false = none := by
  cases b with
  | false => exact Iff.rfl
  | true =>
    rw [reviewReason_true, and_iff_left_iff_imp]
    intro _
    simp [needsEntityFact, h]

end TripleRow

namespace Derived

variable {s : Store} {nowMs : Int} {d d' : Derived} {minEpisodes : Nat} {report : RepairReport}

/-- An active entity triple about `subjectId`. -/
def EntityFact (d : Derived) (subjectId : String) (u : TripleRow) : Prop :=
  u ∈ d.triples ∧ u.status = .active ∧ u.objectKind = .entity ∧
    (u.subjectId = subjectId ∨ u.objectId = subjectId)

theorem literalOnlySubject_eq_false {subjectId : String} :
    d.literalOnlySubject subjectId = false ↔ ∃ u, d.EntityFact subjectId u := by
  simp [literalOnlySubject, EntityFact, and_assoc]

/-- The gate on an active triple of `d`. -/
def gate (d : Derived) (t : TripleRow) : Option TripleQualityReviewReason :=
  t.reviewReason (d.literalOnlySubject t.subjectId)

/-- What passes without an entity fact passes with one. -/
theorem gate_eq_none {t : TripleRow} : d.gate t = none ↔
    t.reviewReason false = none ∧ (t.needsEntityFact = true → ∃ u, d.EntityFact t.subjectId u) := by
  rw [gate, ← literalOnlySubject_eq_false]
  cases d.literalOnlySubject t.subjectId with
  | false => simp
  | true => simp [TripleRow.reviewReason_true]

/-! ### What a run leaves -/

/-- The rows that a run without a cap leaves. -/
structure Repaired (d d' : Derived) : Prop where
  kept : ∀ t ∈ d.triples, t.status = .active → objectShouldBeLiteral t = false → d.gate t = none →
    t ∈ d'.triples
  rewritten : ∀ t ∈ d.triples, t.status = .active → objectShouldBeLiteral t = true →
    { t with objectKind := .literal } ∈ d'.triples
  active : ∀ t' ∈ d'.triples, t'.status = .active → ∃ t ∈ d.triples, t.status = .active ∧
    (objectShouldBeLiteral t = false ∧ d.gate t = none ∧ t' = t ∨
      objectShouldBeLiteral t = true ∧ t' = { t with objectKind := .literal })

theorem runQualityRepair_repaired
    (h : d.runQualityRepair s nowMs (d.qualityQuarantine, d.qualityRewrites) = .ok d') :
    Repaired d d' := by
  have hrows := (runQualityRepair_spec h).1
  have hmem (t' : TripleRow) : t' ∈ d'.triples ↔ ∃ t ∈ d.triples,
      supersededBy (d.qualityQuarantine.map Prod.fst) (literalBy d.qualityRewrites t) = t' := by
    rw [← Table.mem_rows, hrows, List.mem_map]
    rfl
  have hquar (t : TripleRow) (ht : t ∈ d.triples) : namesTriple (d.qualityQuarantine.map Prod.fst)
      t = true ↔ t.status = .active ∧ objectShouldBeLiteral t = false ∧ d.gate t ≠ none := by
    rw [namesTriple_iff_mem ?_ ht, List.mem_map]
    · constructor
      · rintro ⟨⟨u, r⟩, hu, rfl⟩
        obtain ⟨⟨-, hactive⟩, hlit, hr⟩ := mem_qualityQuarantine_iff.1 hu
        exact ⟨hactive, hlit, fun hnone => by cases hr.symm.trans hnone⟩
      · rintro ⟨hactive, hlit, hgate⟩
        obtain ⟨r, hr⟩ := Option.ne_none_iff_exists'.1 hgate
        exact ⟨(t, r), mem_qualityQuarantine_iff.2 ⟨⟨ht, hactive⟩, hlit, hr⟩, rfl⟩
    · rintro u hu
      obtain ⟨⟨v, r⟩, hv, rfl⟩ := List.mem_map.1 hu
      exact (mem_qualityQuarantine_iff.1 hv).1.1
  have hrew (t : TripleRow) (ht : t ∈ d.triples) : namesTriple d.qualityRewrites t = true ↔
      t.status = .active ∧ objectShouldBeLiteral t = true := by
    rw [namesTriple_iff_mem (fun u hu => (mem_qualityRewrites_iff.1 hu).1.1) ht,
      mem_qualityRewrites_iff]
    exact ⟨fun h => ⟨h.1.2, h.2⟩, fun h => ⟨⟨ht, h.1⟩, h.2⟩⟩
  have hlit {t : TripleRow} (h : objectShouldBeLiteral t = true) : t.objectKind = .entity := by
    rw [objectShouldBeLiteral, Bool.and_eq_true] at h
    exact of_decide_eq_true h.1
  have hkept (t : TripleRow) (ht : t ∈ d.triples) (hactive : t.status = .active)
      (hlit : objectShouldBeLiteral t = false) (hgate : d.gate t = none) :
      supersededBy (d.qualityQuarantine.map Prod.fst) (literalBy d.qualityRewrites t) = t := by
    have hnot₁ : namesTriple d.qualityRewrites t = false := by
      rw [Bool.eq_false_iff, Ne, hrew t ht, hlit]
      simp
    have hnot₂ : namesTriple (d.qualityQuarantine.map Prod.fst) t = false := by
      rw [Bool.eq_false_iff, Ne, hquar t ht]
      exact fun h => h.2.2 hgate
    rw [literalBy, hnot₁, Bool.false_and, Bool.false_and, if_neg Bool.false_ne_true, supersededBy,
      hnot₂, Bool.false_and, if_neg Bool.false_ne_true]
  have hrewritten (t : TripleRow) (ht : t ∈ d.triples) (hactive : t.status = .active)
      (hshould : objectShouldBeLiteral t = true) :
      supersededBy (d.qualityQuarantine.map Prod.fst) (literalBy d.qualityRewrites t) =
        { t with objectKind := .literal } := by
    have hnot : namesTriple (d.qualityQuarantine.map Prod.fst) (literalBy d.qualityRewrites t) =
        false := by
      rw [namesTriple_literalBy, Bool.eq_false_iff, Ne, hquar t ht, hshould]
      simp
    rw [supersededBy, hnot, Bool.false_and, if_neg Bool.false_ne_true, literalBy,
      (hrew t ht).2 ⟨hactive, hshould⟩, hactive, hlit hshould]
    rfl
  refine ⟨fun t ht hactive hl hg => ?_, fun t ht hactive hl => ?_, fun t' ht' hactive => ?_⟩
  · exact (hmem t).2 ⟨t, ht, hkept t ht hactive hl hg⟩
  · exact (hmem _).2 ⟨t, ht, hrewritten t ht hactive hl⟩
  · obtain ⟨t, ht, rfl⟩ := (hmem t').1 ht'
    rw [supersededBy_active, literalBy_status, namesTriple_literalBy] at hactive
    obtain ⟨hactive, hnot⟩ := hactive
    refine ⟨t, ht, hactive, ?_⟩
    cases hl : objectShouldBeLiteral t with
    | true => exact .inr ⟨rfl, hrewritten t ht hactive hl⟩
    | false =>
      have hgate : d.gate t = none := by
        by_contra hg
        rw [(hquar t ht).2 ⟨hactive, hl, hg⟩] at hnot
        cases hnot
      exact .inl ⟨rfl, hgate, hkept t ht hactive hl hgate⟩

/-! ### The fixpoint -/

/-- Every active fact passes, and the same repair has nothing to do. -/
structure QualityFixpoint (minEpisodes : Nat) (d : Derived) : Prop where
  accepted : ∀ t ∈ d.triples, t.status = .active → d.gate t = none
  again : ∀ (s : Store) (nowMs : Int), ∃ report,
    d.handleRepairDerived s nowMs ⟨.qualityGate, false, minEpisodes, none⟩ = .ok (d, report)

/-- What a run has to find: facts that are rewritten pass as literals, and a literal that needs an
entity fact about its subject has one that the run keeps. -/
structure QualityStable (d : Derived) : Prop where
  rewritten : ∀ t ∈ d.triples, t.status = .active → objectShouldBeLiteral t = true →
    TripleRow.reviewReason { t with objectKind := .literal } false = none
  subjects : ∀ t ∈ d.triples, t.status = .active → d.gate t = none → t.needsEntityFact = true →
    ∃ u, d.EntityFact t.subjectId u ∧ objectShouldBeLiteral u = false ∧ u.reviewReason false = none

theorem objectShouldBeLiteral_literal {t : TripleRow} (h : t.objectKind = .literal) :
    objectShouldBeLiteral t = false := by
  rw [objectShouldBeLiteral, h]
  rfl

theorem needsEntityFact_rewritten {t : TripleRow} (h : objectShouldBeLiteral t = true) :
    TripleRow.needsEntityFact { t with objectKind := .literal } = false := by
  rw [objectShouldBeLiteral, Bool.and_eq_true, activeEntityObjectShouldBeLiteral] at h
  simp [TripleRow.needsEntityFact, h.2]

/-- The entity facts that a run keeps. -/
theorem Repaired.entityFact_iff (h : Repaired d d') {subjectId : String} {u : TripleRow} :
    d'.EntityFact subjectId u ↔
      d.EntityFact subjectId u ∧ objectShouldBeLiteral u = false ∧ u.reviewReason false = none := by
  constructor
  · rintro ⟨hu, hactive, hentity, habout⟩
    obtain ⟨t, ht, hta, ⟨hl, hgate, rfl⟩ | ⟨hl, rfl⟩⟩ := h.active u hu hactive
    · exact ⟨⟨ht, hta, hentity, habout⟩, hl, (gate_eq_none.1 hgate).1⟩
    · cases hentity
  · rintro ⟨⟨hu, hactive, hentity, habout⟩, hl, hreview⟩
    have hgate : d.gate u = none := (TripleRow.reviewReason_entity hentity _).2 hreview
    exact ⟨h.kept u hu hactive hl hgate, hactive, hentity, habout⟩

theorem Repaired.accepted_iff (h : Repaired d d') :
    (∀ t ∈ d'.triples, t.status = .active → d'.gate t = none) ↔ QualityStable d := by
  constructor
  · intro hall
    refine ⟨fun t ht hactive hl => ?_, fun t ht hactive hgate hneeds => ?_⟩
    · exact (gate_eq_none.1 (hall _ (h.rewritten t ht hactive hl) hactive)).1
    · have hl : objectShouldBeLiteral t = false := by
        rw [TripleRow.needsEntityFact, Bool.and_eq_true, Bool.and_eq_true] at hneeds
        exact objectShouldBeLiteral_literal (of_decide_eq_true hneeds.1.1)
      obtain ⟨u, hu⟩ := (gate_eq_none.1 (hall t (h.kept t ht hactive hl hgate) hactive)).2 hneeds
      exact ⟨u, h.entityFact_iff.1 hu⟩
  · intro hstable t' ht' hactive'
    obtain ⟨t, ht, hactive, ⟨hl, hgate, rfl⟩ | ⟨hl, rfl⟩⟩ := h.active t' ht' hactive'
    · refine gate_eq_none.2 ⟨(gate_eq_none.1 hgate).1, fun hneeds => ?_⟩
      obtain ⟨u, hu⟩ := hstable.subjects t' ht hactive hgate hneeds
      exact ⟨u, h.entityFact_iff.2 hu⟩
    · refine gate_eq_none.2 ⟨hstable.rewritten t ht hactive hl, fun hneeds => ?_⟩
      rw [needsEntityFact_rewritten hl] at hneeds
      cases hneeds

/-- When every active fact passes, a run after a run has no work. -/
theorem Repaired.again (h : Repaired d d')
    (hall : ∀ t ∈ d'.triples, t.status = .active → d'.gate t = none)
    (s : Store) (nowMs : Int) (minEpisodes : Nat) : ∃ report,
      d'.handleRepairDerived s nowMs ⟨.qualityGate, false, minEpisodes, none⟩ =
      .ok (d', report) := by
  have hquar : d'.qualityQuarantine = [] := by
    refine List.eq_nil_iff_forall_not_mem.2 fun ⟨t, r⟩ hmem => ?_
    obtain ⟨⟨ht, hactive⟩, -, hr⟩ := mem_qualityQuarantine_iff.1 hmem
    have hnone := hall t ht hactive
    cases hr.symm.trans hnone
  have hrew : d'.qualityRewrites = [] := by
    refine List.eq_nil_iff_forall_not_mem.2 fun t' hmem => ?_
    obtain ⟨⟨ht, hactive⟩, hlit⟩ := mem_qualityRewrites_iff.1 hmem
    obtain ⟨t, -, -, ⟨hl, -, rfl⟩ | ⟨-, rfl⟩⟩ := h.active t' ht hactive
    · rw [hl] at hlit
      cases hlit
    · rw [objectShouldBeLiteral_literal rfl] at hlit
      cases hlit
  have hwork : d'.qualityWork ⟨.qualityGate, false, minEpisodes, none⟩ = ([], []) := by
    rw [qualityWork, hquar, hrew]
    rfl
  unfold handleRepairDerived repairActiveTripleQuality
  dsimp only
  rw [hwork]
  exact ⟨_, rfl⟩

theorem qualityGate_fixpoint_iff
    (h : d.handleRepairDerived s nowMs ⟨.qualityGate, false, minEpisodes, none⟩ =
      .ok (d', report)) :
    QualityFixpoint minEpisodes d' ↔ QualityStable d := by
  have hrun : d.runQualityRepair s nowMs (d.qualityQuarantine, d.qualityRewrites) = .ok d' := by
    obtain ⟨d₁, hrun, hreal⟩ := Result.bind_eq_ok.1 h
    rw [Result.pure_eq_ok, Prod.mk.injEq] at hreal
    exact hreal.1 ▸ hrun
  have hrepaired := runQualityRepair_repaired hrun
  rw [← hrepaired.accepted_iff]
  exact ⟨fun hfix => hfix.accepted,
    fun hall => ⟨hall, fun s nowMs => hrepaired.again hall s nowMs minEpisodes⟩⟩

/-- A fact below the confidence floor whose object is a path. -/
def pathObject : TripleRow :=
  ⟨"t", "alice", "works_with", "/tmp/x", .entity, 0, none, 0, ⟨[], "", "", 0⟩, .active, 0, none,
    none⟩

def pathObjects : Derived := { empty with triples := ⟨[pathObject], List.pairwise_singleton _ _⟩ }

theorem pathObjects_run :
    ∃ p, pathObjects.handleRepairDerived Store.empty 0 ⟨.qualityGate, false, 25, none⟩ = .ok p := by
  have hsome :
      (pathObjects.handleRepairDerived Store.empty 0
        ⟨.qualityGate, false, 25, none⟩).toOption.isSome = true := by
    decide +kernel
  cases h : pathObjects.handleRepairDerived Store.empty 0 ⟨.qualityGate, false, 25, none⟩ with
  | error e =>
    rw [h] at hsome
    cases hsome
  | ok p => exact ⟨p, rfl⟩

theorem pathObjects_fixpoint_iff : ∃ d' report,
    pathObjects.handleRepairDerived Store.empty 0 ⟨.qualityGate, false, 25, none⟩ =
    .ok (d', report) ∧
      (QualityFixpoint 25 d' ↔ QualityStable pathObjects) := by
  obtain ⟨p, hp⟩ := pathObjects_run
  exact ⟨p.1, p.2, hp, qualityGate_fixpoint_iff hp⟩

/-- The object becomes a literal, and the fact stays active below the floor. -/
theorem pathObject_rejected : TripleRow.reviewReason { pathObject with objectKind := .literal }
    false ≠ none := by
  decide +kernel

theorem pathObjects_unfixed : ¬ ∀ (s : Store) (nowMs : Int) (d d' : Derived) (minEpisodes : Nat)
    (report : RepairReport),
    d.handleRepairDerived s nowMs ⟨.qualityGate, false, minEpisodes, none⟩ = .ok (d', report) →
      QualityFixpoint minEpisodes d' := by
  intro h
  obtain ⟨p, hp⟩ := pathObjects_run
  have hfix := h Store.empty 0 pathObjects p.1 25 p.2 hp
  obtain ⟨d₁, hrun, hreal⟩ := Result.bind_eq_ok.1 hp
  have hrepaired := runQualityRepair_repaired hrun
  rw [Result.pure_eq_ok] at hreal
  obtain rfl : d₁ = p.1 := congrArg Prod.fst hreal
  have hlit : objectShouldBeLiteral pathObject = true := by decide +kernel
  exact pathObject_rejected ((hrepaired.accepted_iff.1 hfix.accepted).rewritten pathObject
    (Table.mem_rows.1 (List.mem_singleton_self _)) rfl hlit)

end Derived

end Solo
