import Mathlib.Order.OrderDual
import Solo.Derived.Renaming
import Solo.Lib.Selection

/-!
# Facts about a subject (`facts_about_inner`)

A query for the user, or for any alias of the user, is one for all of these; the aliases need not be
written to the triples. `normalize-subjects` writes them there.
`factsAbout_handleNormalizeSubjects`: the answers are the same before and after, up to the renaming,
for the user and for every other subject.
-/

namespace Solo

def CANONICAL_USER_SUBJECT : String := "user"

/-- `limit.clamp(1, 100)` -/
def clampLimit (limit : Nat) : Nat := max 1 (min limit 100)

structure FactHit where
  tripleId : TripleId
  subjectId : String
  predicate : String
  objectId : String
  objectKind : ObjectKind
  validFromMs : Int
  validToMs : Option Int
  confidence : Float32
  clusterId : Option ClusterId

/-- The arguments of `facts_about_inner` other than the aliases. -/
structure FactQuery where
  subject : String
  includeAsObject : Bool
  predicate : Option String
  sinceMs : Option Int
  untilMs : Option Int
  limit : Nat

/-- The subjects that a query is for. -/
def factSubjects (userAliases : List String) (subject : String) : List String :=
  if subject = CANONICAL_USER_SUBJECT || userAliases.contains subject then
    CANONICAL_USER_SUBJECT :: userAliases.filter fun a => a ≠ "" && a ≠ CANONICAL_USER_SUBJECT
  else [subject]

/-- The `WHERE` clause. -/
def FactQuery.selects (userAliases : List String) (q : FactQuery) (t : TripleRow) : Bool :=
  let subjects := factSubjects userAliases q.subject
  t.status = .active &&
  (subjects.contains t.subjectId || q.includeAsObject && subjects.contains t.objectId) &&
    q.predicate.all (t.predicate = ·) && q.sinceMs.all (· ≤ t.validFromMs) &&
    q.untilMs.all fun untilMs => t.validToMs.all (· ≤ untilMs)

def TripleRow.factHit (t : TripleRow) : FactHit :=
  ⟨t.tripleId, t.subjectId, t.predicate, t.objectId, t.objectKind, t.validFromMs, t.validToMs,
    t.confidence, t.clusterId⟩

/-- `ORDER BY valid_from_ms DESC`, which leaves the order of one instant open. -/
def FactHit.latest (h : FactHit) : Intᵒᵈ := OrderDual.toDual h.validFromMs

/-- The hits are an answer: the first ones of what is selected. `DISTINCT` drops none of it, a hit
has its primary key. -/
def FactsAbout (d : Derived) (userAliases : List String) (q : FactQuery) (hits : List FactHit) :
    Prop :=
  StableSort.IsFirst FactHit.latest (clampLimit q.limit)
    ((d.triples.rows.filter (q.selects userAliases)).map TripleRow.factHit) hits

def FactHit.aliased (aliases : List (String × String)) (h : FactHit) : FactHit :=
  { h with subjectId := applyAliases aliases h.subjectId, objectId := applyAliases aliases h.objectId }

/-- Pairs that send aliases of the user to the user. -/
def ToUser (userAliases : List String) (aliases : List (String × String)) : Prop :=
  ∀ pair ∈ aliases, pair.2 = CANONICAL_USER_SUBJECT ∧ pair.1 ∈ userAliases ∧ pair.1 ≠ ""

section Normalized

variable {d : Derived} {userAliases : List String} {aliases : List (String × String)}
  {q : FactQuery}

theorem applyAliases_user (h : ToUser userAliases aliases) :
    applyAliases aliases CANONICAL_USER_SUBJECT = CANONICAL_USER_SUBJECT := by
  induction aliases with
  | nil => rfl
  | cons pair aliases ih =>
    have hstep : Derived.renamed pair.1 pair.2 CANONICAL_USER_SUBJECT = CANONICAL_USER_SUBJECT := by
      rw [(h pair List.mem_cons_self).1, Derived.renamed, ite_self]
    rw [applyAliases, List.foldl_cons, hstep]
    exact ih fun p hp => h p (List.mem_cons_of_mem _ hp)

/-- An alias becomes the user, and nothing else changes. -/
theorem applyAliases_cases (h : ToUser userAliases aliases) (x : String) :
    applyAliases aliases x = x ∨ x ∈ userAliases ∧ x ≠ "" ∧
    applyAliases aliases x = CANONICAL_USER_SUBJECT := by
  induction aliases with
  | nil => exact .inl rfl
  | cons pair aliases ih =>
    have htail : ToUser userAliases aliases := fun p hp => h p (List.mem_cons_of_mem _ hp)
    obtain ⟨hdst, hsrc, hne⟩ := h pair List.mem_cons_self
    by_cases hx : x = pair.1
    · refine .inr ⟨hx ▸ hsrc, hx ▸ hne, ?_⟩
      rw [applyAliases, List.foldl_cons, Derived.renamed, if_pos hx, hdst]
      exact applyAliases_user htail
    · have hstep : applyAliases (pair :: aliases) x = applyAliases aliases x := by
        rw [applyAliases, List.foldl_cons, Derived.renamed, if_neg hx]
        rfl
      rw [hstep]
      exact ih htail

/-- A query does not tell an alias from the user. -/
theorem contains_applyAliases (h : ToUser userAliases aliases) (subject x : String) :
    (factSubjects userAliases subject).contains (applyAliases aliases x) =
      (factSubjects userAliases subject).contains x := by
  rcases applyAliases_cases h x with hx | ⟨hx, hne, hto⟩
  · rw [hx]
  · rw [hto, factSubjects]
    split
    · by_cases hu : x = CANONICAL_USER_SUBJECT
      · rw [hu]
      · simp [hx, hne, hu]
    · next hclass =>
      simp only [Bool.or_eq_true, decide_eq_true_eq, List.contains_iff_mem, not_or] at hclass
      have huser : CANONICAL_USER_SUBJECT ≠ subject := fun heq => hclass.1 heq.symm
      have halias : x ≠ subject := fun heq => hclass.2 (heq ▸ hx)
      simp [huser, halias]

theorem selects_aliased (h : ToUser userAliases aliases) (q : FactQuery) (t : TripleRow) :
    q.selects userAliases (t.aliased aliases) = q.selects userAliases t := by
  simp only [FactQuery.selects, TripleRow.aliased, contains_applyAliases h]
  rfl

/-- The facts that a query has for its answers are renamed with the triples. -/
theorem factHits_aliased (h : ToUser userAliases aliases) :
    ((d.handleNormalizeSubjects aliases false).1.triples.rows.filter (q.selects userAliases)).map
    TripleRow.factHit =
      ((d.triples.rows.filter (q.selects userAliases)).map TripleRow.factHit).map
      (FactHit.aliased aliases) := by
  have hrows : (d.handleNormalizeSubjects aliases false).1.triples.rows =
      d.triples.rows.map (TripleRow.aliased aliases) :=
    Derived.triples_foldl_normalizeStep (d, 0, 0)
  have hselects : q.selects userAliases ∘ TripleRow.aliased aliases = q.selects userAliases :=
    funext fun t => selects_aliased h q t
  rw [hrows, List.filter_map, hselects, List.map_map, List.map_map]
  rfl

end Normalized

/-- Before `normalize-subjects` with aliases of the user and after it, a query has the same answers:
an answer after it is one from before it with the aliases replaced. -/
theorem factsAbout_handleNormalizeSubjects (d : Derived) (userAliases : List String)
    (aliases : List (String × String))
    (h : ToUser userAliases aliases) (q : FactQuery) (hits : List FactHit) :
    FactsAbout (d.handleNormalizeSubjects aliases false).1 userAliases q hits ↔
      ∃ hits₀, FactsAbout d userAliases q hits₀ ∧ hits = hits₀.map (FactHit.aliased aliases) := by
  rw [FactsAbout, factHits_aliased h]
  exact StableSort.isFirst_map

/-- A note about `alex`, who is the user. -/
def alexNoted : Derived := { Derived.empty with
  triples :=
    .single ⟨"t", "alex", "likes", "tea", .literal, 7, none, 1, ⟨[], "", "", 0⟩, .active, 0, none,
      none⟩ }

theorem alexNoted_toUser : ToUser ["alex"] [("alex", "user")] := by
  unfold ToUser
  decide

theorem factsAbout_alexNoted : ∃ hits₀, FactsAbout alexNoted ["alex"]
    ⟨"alex", false, none, none, none, 10⟩ hits₀ ∧
    [⟨"t", "user", "likes", "tea", .literal, 7, none, 1, none⟩] =
    hits₀.map (FactHit.aliased [("alex", "user")]) := by
  refine (factsAbout_handleNormalizeSubjects alexNoted ["alex"] [("alex", "user")]
    alexNoted_toUser _ _).1 ⟨[], .refl _, rfl, List.pairwise_singleton _ _, fun _ _ _ hb => ?_⟩
  cases hb

end Solo
