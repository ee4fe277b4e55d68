import Solo.Derived.Mirror

/-!
# Renaming entities (`handle_normalize_subjects`)

The alias pairs are applied one after another, each to the columns as the pair before it left them.
Triples and edges go through the same renaming, so an edge keeps mirroring its triple. A dry run
makes the same updates and rolls them back. The renaming does not look at `object_kind`: a literal
whose text is the source of an alias is rewritten, too.
-/

namespace Solo

/-- The alias pairs on one value, in list order. -/
def applyAliases (aliases : List (String × String)) (id : String) : String :=
  aliases.foldl (fun id pair => Derived.renamed pair.1 pair.2 id) id

/-- The alias pairs on both columns of a triple. -/
def TripleRow.aliased (aliases : List (String × String)) (t : TripleRow) : TripleRow :=
  { t with subjectId := applyAliases aliases t.subjectId, objectId := applyAliases aliases t.objectId }

/-- The alias pairs on the columns that hold an entity. -/
def TripleRow.aliasedEntities (aliases : List (String × String)) (t : TripleRow) : TripleRow :=
  { t with
    subjectId := applyAliases aliases t.subjectId
    objectId := if t.objectKind = .entity then applyAliases aliases t.objectId else t.objectId }

def EdgeRow.aliased (aliases : List (String × String)) (e : EdgeRow) : EdgeRow :=
  aliases.foldl (fun e pair => Derived.renameEdge pair.1 pair.2 e) e

/-- The triple has an edge that says what it says. -/
def Derived.Mirrored (d : Derived) (t : TripleRow) : Prop :=
  ∃ e ∈ d.relationshipEdges, e.edgeId = t.tripleId ∧ Mirrors t e

/-- The real run and the dry run of one alias list from `d`, where `rename` is what the real run
does to a triple. -/
structure SequentialRenaming (rename : TripleRow → TripleRow) (d : Derived)
    (real dry : Derived × Derived.NormalizeReport) : Prop where
  triples : real.1.triples.rows = d.triples.rows.map rename
  mirrored : ∀ t ∈ d.triples, t.status = .active → d.Mirrored t → real.1.Mirrored (rename t)
  dryRun : dry.1 = d
  counts : dry.2 = { real.2 with dryRun := true }

namespace Derived

variable {d : Derived} {src dst : String} {aliases : List (String × String)}

/-! ### One pair -/

theorem triples_normalizeAlias : (d.normalizeAlias src dst).triples.rows =
    d.triples.rows.map (renameTriple src dst) := by
  simp only [normalizeAlias, Table.updateWhere, List.map_map]
  refine List.map_congr_left fun t _ => ?_
  simp only [Function.comp, renameTriple, renamed, decide_eq_true_eq]
  by_cases hs : t.subjectId = src <;> by_cases ho : t.objectId = src <;> simp [hs, ho]

theorem mirrors_rename (src dst : String) {t : TripleRow} {e : EdgeRow} (h : Mirrors t e) :
    Mirrors (renameTriple src dst t) (renameEdge src dst e) := by
  refine ⟨congrArg (renamed src dst) h.subject, h.predicate, ?_, h.validFrom, h.validTo,
    h.confidence, h.active⟩
  show renameObject src dst e.object = .ofKind t.objectKind (renamed src dst t.objectId)
  rw [h.object]
  cases t.objectKind <;> rfl

/-! ### The loop -/

theorem triples_foldl_normalizeStep (st : Derived × Nat × Nat) :
    (aliases.foldl normalizeStep st).1.triples.rows =
    st.1.triples.rows.map (TripleRow.aliased aliases) := by
  induction aliases generalizing st with
  | nil => exact (List.map_id _).symm
  | cons pair aliases ih =>
    have hstep : (normalizeStep st pair).1.triples.rows =
        st.1.triples.rows.map (renameTriple pair.1 pair.2) :=
      triples_normalizeAlias
    rw [List.foldl_cons, ih, hstep, List.map_map]
    rfl

theorem mem_edges_foldl_normalizeStep (st : Derived × Nat × Nat) {e : EdgeRow}
    (he : e ∈ st.1.relationshipEdges) :
    e.aliased aliases ∈ (aliases.foldl normalizeStep st).1.relationshipEdges := by
  induction aliases generalizing st e with
  | nil => exact he
  | cons pair aliases ih => exact ih _ (mem_edges_normalizeAlias.2 ⟨e, he, rfl⟩)

theorem mirrors_aliased {t : TripleRow} {e : EdgeRow} (hid : e.edgeId = t.tripleId)
    (h : Mirrors t e) :
    (e.aliased aliases).edgeId = (t.aliased aliases).tripleId ∧
    Mirrors (t.aliased aliases) (e.aliased aliases) := by
  induction aliases generalizing t e with
  | nil => exact ⟨hid, h⟩
  | cons pair aliases ih =>
    have hid' : (renameEdge pair.1 pair.2 e).edgeId = (renameTriple pair.1 pair.2 t).tripleId := hid
    exact ih hid' (mirrors_rename pair.1 pair.2 h)

theorem normalizeSubjects_sequential (d : Derived) (aliases : List (String × String)) :
    SequentialRenaming (TripleRow.aliased aliases) d (d.handleNormalizeSubjects aliases false)
      (d.handleNormalizeSubjects aliases true) where
  triples := triples_foldl_normalizeStep (d, 0, 0)
  mirrored := by
    rintro t - - ⟨e, he, hid, hmirrors⟩
    exact ⟨e.aliased aliases, mem_edges_foldl_normalizeStep (d, 0, 0) he,
      mirrors_aliased hid hmirrors⟩
  dryRun := rfl
  counts := rfl

end Derived

/-- `alice` has noted `todo`, a literal. -/
def aliceNoted : Derived := { Derived.empty with
  triples := ⟨[⟨"t", "alice", "noted", "todo", .literal, 0, none, 1, ⟨[], "", "", 0⟩, .active, 0, none, none⟩],
    List.pairwise_singleton _ _⟩ }

theorem aliceNoted_literal : ¬ ∀ (d : Derived) (aliases : List (String × String)),
    SequentialRenaming (TripleRow.aliasedEntities aliases)
    d (d.handleNormalizeSubjects aliases false)
      (d.handleNormalizeSubjects aliases true) := by
  intro h
  have hrows := (h aliceNoted [("todo", "done")]).triples
  revert hrows
  decide +kernel

end Solo
