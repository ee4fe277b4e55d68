import Solo.Store.PromoteLayout

/-!
# How far the promotion is

`Stage` says how far the promotion is. Every operation leaves a `Stage`, so that an attempt that is
cut short does too: here the moves of the library and of what is beside it, and the removal of the
emptied directories.
-/

namespace Solo

open Crash Result

namespace Promote

variable {β : Type}

/-! ### Stages -/

def insertAll (audit : Table AdminAuditRow) (rows : List AdminAuditRow) : Table AdminAuditRow :=
  rows.foldl Table.insertOrIgnore audit

/-- A registry that can be read: its files stay until its rows are in the library. -/
structure Preserving (rows : List AdminAuditRow) (audit₀ : Table AdminAuditRow)
    (gone M : FilePath → Bool) (audit : Table AdminAuditRow) : Prop where
  unmoved : ∀ suffix ∈ suffixes, M (legacyIndex suffix) = false
  unquarantined : gone quarantineDir = true
  audit : ∃ k, audit = insertAll audit₀ (rows.take k) ∧
    (gone (legacyIndex "") = true → rows.length ≤ k)

/-- A registry that cannot be read goes into quarantine. -/
structure Quarantining (audit₀ : Table AdminAuditRow) (gone M : FilePath → Bool)
    (audit : Table AdminAuditRow) : Prop where
  audit : audit = audit₀
  main : gone (legacyIndex "") = false
  retired : ∀ suffix ∈ suffixes, M (legacyIndex suffix) = true → gone quarantineDir = false

structure Stage (env : PromoteEnv β) (t : FileTree β) (audit₀ : Table AdminAuditRow)
    (gone M : FilePath → Bool) (s : DataDir β) : Prop where
  tree : s.tree = treeAt t gone M
  spent : LegacyLayout.Spent gone
  nested : gone nestedDefault = true → ∀ u, moves.Unit t u → nestedDefault <+: u → M u = true
  tenants : gone legacyDir = true → ∀ u, moves.Unit t u → isLegacy u = true → M u = true
  index : (∃ rows, indexRows env t = some rows ∧ Preserving rows audit₀ gone M s.audit) ∨
    indexRows env t = none ∧ Quarantining audit₀ gone M s.audit

def Underway (env : PromoteEnv β) (t : FileTree β) (audit₀ : Table AdminAuditRow) (s : DataDir β) :
    Prop :=
  ∃ gone M, Stage env t audit₀ gone M s

/-- Where an entry is in the end, if anywhere. -/
def promotedPath (p : FilePath) : Option FilePath :=
  (legacyUnit p).elim (if p = legacyDir ∨ p = nestedDefault then none else some p) fun u =>
    if isLegacy u then some (legacyTarget u ++ p.drop u.length) else none

/-- The library and what was beside it are in the data directory, and the registry is retired. The
`-wal` and `-shm` of a registry that cannot be read are in quarantine as well, unless an attempt
ended between its files: then they are removed. -/
structure Promoted (env : PromoteEnv β) (t : FileTree β) (audit₀ : Table AdminAuditRow)
    (s : DataDir β) : Prop where
  entries : ∀ p n, ¬ quarantineDir <+: p →
    ((p, n) ∈ s.tree.rows ↔ ∃ r ∈ t.rows, promotedPath r.1 = some p ∧ r.2 = n)
  preserved : ∀ rows, indexRows env t = some rows →
    s.audit = insertAll audit₀ rows ∧ ∀ r ∈ s.tree.rows, ¬ quarantineDir <+: r.1
  quarantined : indexRows env t = none →
    s.audit = audit₀ ∧ ∀ c, (legacyIndex "", .file c) ∈ t.rows →
    (quarantineDir ++ legacyIndex "", .file c) ∈ s.tree.rows

def Grows (M M' : FilePath → Bool) : Prop := ∀ u, M u = true → M' u = true

theorem Grows.refl (M : FilePath → Bool) : Grows M M := fun _ h => h

theorem Grows.trans {M M' M'' : FilePath → Bool} (h : Grows M M') (h' : Grows M' M'') :
    Grows M M'' :=
  fun u hu => h' u (h u hu)

theorem grows_add (M : FilePath → Bool) (u : FilePath) : Grows M (FileTree.add M u) :=
  fun v hv => by
  simp [FileTree.add, hv]

@[simp] theorem add_self (M : FilePath → Bool) (u : FilePath) : FileTree.add M u u = true := by
  simp [FileTree.add]

theorem add_of_ne {M : FilePath → Bool} {u v : FilePath} (h : v ≠ u) :
    FileTree.add M u v = M v := by
  simp [FileTree.add, h]

/-! ### Operations -/

section Rules

variable {s : DataDir β} {Q : Except Error Unit → DataDir β → Prop} {C : DataDir β → Prop}
  {e : Error}

theorem wp_atomic {act : DataDir β → Option (DataDir β)} {s' : DataDir β} (hact : act s = some s')
    (hC : C s) (hC' : C s') (hQ : Q (.ok ()) s') : (atomic act e).wp Event.NoError Q C s := by
  refine Prog.wp_op.2 ⟨by rw [hact]; exact hQ, fun n hn => hn.elim, fun n _ => ?_⟩
  show C (if n = 0 then s else (act s).getD s)
  rw [hact]
  split
  · exact hC
  · exact hC'

theorem wp_onTree {act : FileTree β → Option (FileTree β)} {t' : FileTree β}
    (hact : act s.tree = some t') (hC : C s)
    (hC' : C { s with tree := t' }) (hQ : Q (.ok ()) { s with tree := t' }) :
    (onTree act e).wp Event.NoError Q C s :=
  wp_atomic (by rw [hact]; rfl) hC hC' hQ

theorem wp_rejectIf {α : Type} {c : Prop} [Decidable c] {f : Unit → Promotion β α}
    {Q : Except Error α → DataDir β → Prop} (hc : ¬ c) (h : (f ()).wp Event.NoError Q C s) :
    (Prog.ofExcept (rejectIf c e) >>= f).wp Event.NoError Q C s :=
  Prog.wp_ofExcept_bind (b := ()) (rejectIf_eq_ok.2 hc) h

theorem wp_tryRemoveDir (env : PromoteEnv β) {dir : FilePath} (hC : C s)
    (hsome : ∀ t', s.tree.removeDir? dir = some t' → C { s with tree := t' } ∧
      Q (.ok ()) { s with tree := t' })
    (hnone : s.tree.removeDir? dir = none → Q (.ok ()) s) :
    (tryRemoveDir env dir).wp Event.NoError Q C s := by
  refine Prog.wp_bind.2 (Prog.wp_attempt.2 (Prog.wp_op.2 ⟨?_, fun n hn => hn.elim, fun n _ => ?_⟩))
  · split
    · next s' hs' =>
      obtain ⟨t', ht', rfl⟩ := Option.map_eq_some_iff.1 hs'
      exact (hsome t' ht').2
    · next hs' => exact hnone (Option.map_eq_none_iff.1 hs')
  · show C (if n = 0 then s else ((s.tree.removeDir? dir).map fun t => { s with tree := t }).getD s)
    split
    · exact hC
    · cases hact : s.tree.removeDir? dir with
      | none => exact hC
      | some t' => exact (hsome t' hact).1

end Rules

section Runs

variable {env : PromoteEnv β} {t : FileTree β} {audit₀ : Table AdminAuditRow}
  {gone M : FilePath → Bool} {s : DataDir β}
variable {u p : FilePath}

theorem legacyIndex_name {suffix : String} (h : suffix ∈ suffixes) :
    isIndexName (LEGACY_INDEX_FILENAME ++ suffix) = true := by
  rw [isIndexName, List.any_eq_true]
  exact ⟨suffix, h, by simp⟩

theorem ne_legacyIndex (hl : isLegacy u = true) {suffix : String} (h : suffix ∈ suffixes) :
    legacyIndex suffix ≠ u := by
  rintro rfl
  rw [legacyIndex, not_isLegacy_index (legacyIndex_name h)] at hl
  cases hl

theorem empty_mem_suffixes : "" ∈ suffixes := by simp [suffixes]

theorem wal_mem_suffixes : "-wal" ∈ suffixes := by simp [suffixes]

theorem shm_mem_suffixes : "-shm" ∈ suffixes := by simp [suffixes]

/-- One more entry of the previous layout is moved. -/
theorem Stage.move (hs : Stage env t audit₀ gone M s) (hl : isLegacy u = true) :
    Stage env t audit₀ gone (FileTree.add M u) { s with tree := treeAt t gone (FileTree.add M u) }
    where
  tree := rfl
  spent := hs.spent
  nested hg v hv hp := grows_add M u v (hs.nested hg v hv hp)
  tenants hg v hv hl' := grows_add M u v (hs.tenants hg v hv hl')
  index := by
    refine hs.index.imp (fun ⟨rows, hrows, h⟩ => ⟨rows, hrows, ?_⟩) fun ⟨hrows, h⟩ => ⟨hrows, ?_⟩
    · exact ⟨fun suffix hsuffix => (add_of_ne (ne_legacyIndex hl hsuffix)).trans
        (h.unmoved suffix hsuffix), h.unquarantined, h.audit⟩
    · exact ⟨h.audit, h.main, fun suffix hsuffix hM =>
        h.retired suffix hsuffix ((add_of_ne (ne_legacyIndex hl hsuffix)).symm.trans hM)⟩

theorem legacyTarget_of_legacy (hu : moves.Unit t u) (hl : isLegacy u = true) :
    ∃ name, legacyTarget u = [name] := by
  rcases target_cases hu with ⟨-, h⟩ | ⟨name, hname, rfl, -⟩
  · exact h
  · rw [not_isLegacy_index hname] at hl
    cases hl

theorem wp_move (h : LegacyLayout t) (hs : Stage env t audit₀ gone M s) (hu : moves.Unit t u)
    (hl : isLegacy u = true)
    (hM : M u = false) (e : Error) : (onTree (·.rename? u (legacyTarget u)) e).wp Event.NoError
      (Prog.Replies fun _ => Stage env t audit₀ gone (FileTree.add M u)) (Underway env t audit₀)
      s := by
  obtain ⟨name, ht⟩ := legacyTarget_of_legacy hu hl
  have hact : s.tree.rename? u (legacyTarget u) = some (treeAt t gone (FileTree.add M u)) := by
    rw [hs.tree]
    exact h.rename_treeAt hs.spent hu (LegacyLayout.kept_of_legacy hs.spent hu hl)
      hM (by rw [ht]; rfl)
  exact wp_onTree hact ⟨gone, M, hs⟩ ⟨gone, _, hs.move hl⟩ ⟨(), rfl, hs.move hl⟩

/-- What there is of the previous layout is what was there, was not removed and was not moved. -/
theorem Stage.row (h : LegacyLayout t) (hs : Stage env t audit₀ gone M s) (hp : LegacyLayout.Home p)
    {n : FileNode β} :
    (p, n) ∈ s.tree.rows ↔ (p, n) ∈ t.rows ∧ gone p = false ∧ ∀ u, legacyUnit p = some u →
    M u = false := by
  rw [hs.tree]
  exact h.mem_treeAt hp

theorem Stage.unit_row (h : LegacyLayout t) (hs : Stage env t audit₀ gone M s) (hu : moves.Unit t u)
    {n : FileNode β} : (u, n) ∈ s.tree.rows ↔ (u, n) ∈ t.rows ∧ gone u = false ∧ M u = false := by
  rw [hs.tree]
  exact h.mem_treeAt_unit hu

theorem Stage.not_has_target (h : LegacyLayout t) (hs : Stage env t audit₀ gone M s)
    (hu : moves.Unit t u)
    (hg : gone u = false) (hM : M u = false) : s.tree.has (legacyTarget u) = false := by
  rw [hs.tree]
  exact h.not_has_target hs.spent hu hg hM

theorem row_of_unit (h : LegacyLayout t) (hu : moves.Unit t u) : ∃ n, (u, n) ∈ t.rows := by
  obtain ⟨⟨p, n⟩, hr, rfl⟩ := h.row_of_unit hu
  exact ⟨n, hr⟩

theorem legacyDefaultDb_unit {suffix : String} (h : suffix ∈ suffixes) :
    legacyUnit (legacyDefaultDb suffix) = some (legacyDefaultDb suffix) ∧
      legacyTarget (legacyDefaultDb suffix) = rootDb suffix := by
  simp only [suffixes, List.mem_cons, List.not_mem_nil, or_false] at h
  rcases h with rfl | rfl | rfl <;> exact ⟨by decide, by decide⟩

theorem home_tenants (rest : List String) : LegacyLayout.Home (LEGACY_LIBRARY_SUBDIR :: rest) :=
  ⟨_, rest, rfl, .inr rfl⟩

theorem isLegacy_tenants (rest : List String) : isLegacy (LEGACY_LIBRARY_SUBDIR :: rest) =
    true := by simp [isLegacy]

theorem file_of_legacyDefaultDb (h : LegacyLayout t) {suffix : String} (hsuffix : suffix ∈ suffixes)
    {n : FileNode β} (hr : (legacyDefaultDb suffix, n) ∈ t.rows) : ∃ c, n = .file c := by
  simp only [suffixes, List.mem_cons, List.not_mem_nil, or_false] at hsuffix
  rcases hsuffix with rfl | rfl | rfl
  · obtain ⟨c, hc⟩ := FileTree.isFile_iff.1 h.library
    exact ⟨c, congrArg Prod.snd (List.inj_on_of_nodup_map h.nodup hr hc rfl)⟩
  · exact FileNode.isDir_eq_false.1 (h.sidecars _ hr (.inl rfl))
  · exact FileNode.isDir_eq_false.1 (h.sidecars _ hr (.inr rfl))

/-- A file of the library is where it was until it is moved. -/
theorem Stage.isFile_library (h : LegacyLayout t) (hs : Stage env t audit₀ gone M s)
    {suffix : String}
    (hsuffix : suffix ∈ suffixes) : s.tree.isFile (legacyDefaultDb suffix) = true ↔
      moves.Unit t (legacyDefaultDb suffix) ∧ M (legacyDefaultDb suffix) = false := by
  have hself := (legacyDefaultDb_unit hsuffix).1
  rw [FileTree.isFile_iff]
  constructor
  · rintro ⟨c, hc⟩
    obtain ⟨hr, -, hM⟩ := (hs.row h (home_tenants _)).1 hc
    exact ⟨⟨_, hr, hself⟩, hM _ hself⟩
  · rintro ⟨hu, hM⟩
    obtain ⟨n, hr⟩ := row_of_unit h hu
    obtain ⟨c, rfl⟩ := file_of_legacyDefaultDb h hsuffix hr
    exact ⟨c,
      (hs.unit_row h hu).2 ⟨hr, LegacyLayout.kept_of_legacy hs.spent hu (isLegacy_tenants _), hM⟩⟩

/-- The library files are moved one by one. -/
theorem wp_moveLibrary (h : LegacyLayout t) (hs : Stage env t audit₀ gone M s) {suffix : String}
    (hsuffix : suffix ∈ suffixes) (hfile : s.tree.isFile (legacyDefaultDb suffix) = true) :
    (moveFile env (legacyDefaultDb suffix) (rootDb suffix)).wp Event.NoError
      (Prog.Replies fun _ => Stage env t audit₀ gone (FileTree.add M (legacyDefaultDb suffix)))
      (Underway env t audit₀) s := by
  obtain ⟨hu, hM⟩ := (hs.isFile_library h hsuffix).1 hfile
  have hmove := wp_move h hs hu (isLegacy_tenants _) hM
  rw [(legacyDefaultDb_unit hsuffix).2] at hmove
  exact hmove _

theorem wp_promoteSidecar (h : LegacyLayout t) (hs : Stage env t audit₀ gone M s) {suffix : String}
    (hsuffix : suffix ∈ suffixes) : (promoteSidecar env suffix).wp Event.NoError
      (Prog.Replies fun _ s' => ∃ M', Grows M M' ∧ Stage env t audit₀ gone M' s' ∧
        (moves.Unit t (legacyDefaultDb suffix) → M' (legacyDefaultDb suffix) = true))
        (Underway env t audit₀) s := by
  refine Prog.wp_get_bind.2 ?_
  split
  · next hfile =>
    obtain ⟨hu, hM⟩ := (hs.isFile_library h hsuffix).1 hfile
    have hfree : s.tree.has (rootDb suffix) = false := by
      rw [← (legacyDefaultDb_unit hsuffix).2]
      exact hs.not_has_target h hu (LegacyLayout.kept_of_legacy hs.spent hu (isLegacy_tenants _)) hM
    refine wp_rejectIf (Bool.eq_false_iff.1 hfree) ?_
    refine Prog.wp_bind_replies (wp_moveLibrary h hs hsuffix hfile) ?_
    rintro - s' hs'
    exact ⟨true, rfl, _, grows_add _ _, hs', fun _ => add_self _ _⟩
  · next hfile =>
    refine ⟨false, rfl, M, .refl M, hs, fun hu => ?_⟩
    by_contra hM
    exact hfile ((hs.isFile_library h hsuffix).2 ⟨hu, Bool.eq_false_iff.2 hM⟩)

/-! ### The entries beside the library -/

/-- The entries of a directory of the previous layout that are still there go to the names that they
have. -/
structure Pending (t : FileTree β) (M : FilePath → Bool) (source : FilePath) (names : List String) :
    Prop where
  nodup : names.Nodup
  unmoved : ∀ n ∈ names, isLibraryName n = false →
    moves.Unit t (source ++ [n]) ∧ isLegacy (source ++ [n]) = true ∧ M (source ++ [n]) = false ∧
      legacyTarget (source ++ [n]) = [n]

theorem Pending.tail {source : FilePath} {n : String} {names : List String}
    (hp : Pending t M source (n :: names)) : Pending t M source names :=
  ⟨(List.nodup_cons.1 hp.nodup).2, fun n' hn' => hp.unmoved n' (List.mem_cons_of_mem _ hn')⟩

theorem Pending.move {source : FilePath} {n : String} {names : List String}
    (hp : Pending t M source (n :: names)) :
    Pending t (FileTree.add M (source ++ [n])) source names := by
  refine ⟨hp.tail.nodup, fun n' hn' hlib => ?_⟩
  obtain ⟨hu, hl, hM, ht⟩ := hp.tail.unmoved n' hn' hlib
  have hne : source ++ [n'] ≠ source ++ [n] := by
    intro heq
    obtain rfl : n' = n := by simpa using heq
    exact (List.nodup_cons.1 hp.nodup).1 hn'
  exact ⟨hu, hl, (add_of_ne hne).trans hM, ht⟩

theorem wp_promoteEntries (h : LegacyLayout t) {source : FilePath} {names : List String}
    (hs : Stage env t audit₀ gone M s) (hp : Pending t M source names) :
    (promoteEntries env source names).wp Event.NoError
      (Prog.Replies fun _ s' => ∃ M', Grows M M' ∧ Stage env t audit₀ gone M' s' ∧
        ∀ n ∈ names, isLibraryName n = false → M' (source ++ [n]) = true) (Underway env t audit₀)
        s := by
  induction names generalizing M s with
  | nil => exact ⟨(), rfl, M, .refl M, hs, by simp⟩
  | cons n names ih =>
    unfold promoteEntries
    split
    · next hlib =>
      refine Prog.wp_replies_mono (ih hs hp.tail) ?_
      rintro - s' ⟨M', hgrows, hs', hmoved⟩
      refine ⟨M', hgrows, hs', fun n' hn' hlib' => ?_⟩
      rcases List.mem_cons.1 hn' with rfl | hn'
      · rw [hlib] at hlib'
        cases hlib'
      · exact hmoved n' hn' hlib'
    · next hlib =>
      obtain ⟨hu, hl, hM, ht⟩ := hp.unmoved n List.mem_cons_self (Bool.eq_false_iff.2 hlib)
      have hfree : s.tree.has [n] = false := by
        rw [← ht]
        exact hs.not_has_target h hu (LegacyLayout.kept_of_legacy hs.spent hu hl) hM
      have hmove := wp_move h hs hu hl hM
      rw [ht] at hmove
      refine Prog.wp_get_bind.2 ?_
      refine wp_rejectIf (Bool.eq_false_iff.1 hfree) ?_
      refine Prog.wp_bind_replies (hmove _) ?_
      rintro - s' hs'
      refine Prog.wp_replies_mono (ih hs' hp.move) ?_
      rintro - s'' ⟨M', hgrows, hs'', hmoved⟩
      refine ⟨M', (grows_add M _).trans hgrows, hs'', fun n' hn' hlib' => ?_⟩
      rcases List.mem_cons.1 hn' with rfl | hn'
      · exact hgrows _ (add_self _ _)
      · exact hmoved n' hn' hlib'

theorem mem_readDir (hread : ∀ t p, (env.readDir t p).Perm (t.list p)) {source : FilePath}
    {n : String} : n ∈ env.readDir s.tree source ↔ ∃ node, (source ++ [n], node) ∈ s.tree.rows := by
  rw [(hread _ _).mem_iff, FileTree.mem_list, FileTree.has_iff]
  constructor
  · rintro ⟨⟨q, node⟩, hr, rfl⟩
    exact ⟨node, hr⟩
  · rintro ⟨node, hr⟩
    exact ⟨_, hr, rfl⟩

theorem nodup_readDir (h : LegacyLayout t) (hread : ∀ t p, (env.readDir t p).Perm (t.list p))
    (hs : Stage env t audit₀ gone M s) (source : FilePath) : (env.readDir s.tree source).Nodup := by
  rw [(hread _ _).nodup_iff, hs.tree]
  exact FileTree.nodup_list (h.nodup_treeAt hs.spent) source

theorem row_of_prefix (h : LegacyLayout t) {r : FilePath × FileNode β} (hr : r ∈ t.rows)
    (hp : p <+: r.1) (hne : p ≠ []) : ∃ n, (p, n) ∈ t.rows := by
  obtain ⟨⟨q, n⟩, hq, rfl⟩ := FileTree.has_iff.1 (h.closed r hr p ((List.mem_inits _ _).2 hp) hne)
  exact ⟨n, hq⟩

theorem nested_unit (hu : moves.Unit t u) (hp : nestedDefault <+: u) : ∃ entry, u = nestedDefault ++
    [entry] := by
  rcases unit_cases hu with ⟨name, -, rfl⟩ | ⟨name, hname, rfl⟩ | h
  · have := hp.length_le
    simp [nestedDefault] at this
  · simp [nestedDefault] at hp
    exact absurd hp.symm hname
  · exact h

theorem isDir_nested (h : LegacyLayout t) {n : FileNode β} (hr : (nestedDefault, n) ∈ t.rows) :
    n = .dir :=
  FileNode.isDir_eq_true.1 (h.nested _ hr rfl)

theorem wp_promoteNested (h : LegacyLayout t) (hread : ∀ t p, (env.readDir t p).Perm (t.list p))
    (hs : Stage env t audit₀ gone M s) :
    (promoteDirectoryContents env nestedDefault).wp Event.NoError
      (Prog.Replies fun _ s' => ∃ M', Grows M M' ∧ Stage env t audit₀ gone M' s' ∧
        ∀ u, moves.Unit t u → nestedDefault <+: u → M' u = true) (Underway env t audit₀) s := by
  refine Prog.wp_get_bind.2 ?_
  split
  · have hp : Pending t M nestedDefault (env.readDir s.tree nestedDefault) := by
      refine ⟨nodup_readDir h hread hs _, fun n hn _ => ?_⟩
      obtain ⟨node, hr⟩ := (mem_readDir hread).1 hn
      obtain ⟨hr₀, -, hM⟩ := (hs.row h (home_tenants _)).1 hr
      exact ⟨⟨_, hr₀, legacyUnit_nested n []⟩, isLegacy_tenants _, hM _ (legacyUnit_nested n []),
        rfl⟩
    refine Prog.wp_replies_mono (wp_promoteEntries h hs hp) ?_
    rintro - s' ⟨M', hgrows, hs', hmoved⟩
    refine ⟨M', hgrows, hs', fun u hu hprefix => ?_⟩
    obtain ⟨entry, rfl⟩ := nested_unit hu hprefix
    cases hM : M (nestedDefault ++ [entry]) with
    | true => exact hgrows _ hM
    | false =>
      obtain ⟨n, hr⟩ := row_of_unit h hu
      have hkept := LegacyLayout.kept_of_legacy hs.spent hu (isLegacy_tenants _)
      refine hmoved entry ((mem_readDir hread).2 ⟨n, (hs.unit_row h hu).2 ⟨hr, hkept, hM⟩⟩) ?_
      exact h.nestedLibrary _ hr entry rfl (List.prefix_append _ _)
  · next hdir =>
    refine ⟨(), rfl, M, .refl M, hs, fun u hu hprefix => hs.nested ?_ u hu hprefix⟩
    by_contra hg
    obtain ⟨n, hr⟩ := row_of_unit h hu
    obtain ⟨n', hr'⟩ := row_of_prefix h hr hprefix (by simp [nestedDefault])
    obtain rfl := isDir_nested h hr'
    exact hdir
      (FileTree.isDir_iff.2
        ((hs.row h (home_tenants _)).2 ⟨hr', Bool.eq_false_iff.2 hg, fun u hu => by cases hu⟩))

theorem rootName_of_other {name : String} (hname : isLibraryName name = false) :
    rootName name = name := by
  have hfind : (suffixes.find? fun suffix => name = LEGACY_DEFAULT_DB_FILENAME ++ suffix) =
      none := by
    rw [List.find?_eq_none]
    intro suffix hsuffix heq
    rw [isLibraryName, List.any_eq_false] at hname
    exact hname suffix hsuffix heq
  rw [rootName, hfind]
  rfl

theorem isDir_tenants (h : LegacyLayout t) : (legacyDir, .dir) ∈ t.rows := by
  obtain ⟨c, hc⟩ := FileTree.isFile_iff.1 h.library
  obtain ⟨n, hn⟩ :=
    row_of_prefix h hc (p := legacyDir) ⟨[LEGACY_DEFAULT_DB_FILENAME ++ ""], rfl⟩
    (by simp [legacyDir])
  cases n with
  | dir => exact hn
  | file c' =>
    have hleaf := h.leaf _ hc _ hn rfl ⟨[LEGACY_DEFAULT_DB_FILENAME ++ ""], rfl⟩
    simp [legacyDir, legacyDefaultDb] at hleaf

theorem legacyUnit_legacyDir : legacyUnit legacyDir = none := by decide

theorem wp_promoteTenants (h : LegacyLayout t) (hread : ∀ t p, (env.readDir t p).Perm (t.list p))
    (hs : Stage env t audit₀ gone M s)
    (hlibrary : ∀ suffix ∈ suffixes, moves.Unit t (legacyDefaultDb suffix) →
      M (legacyDefaultDb suffix) = true)
      (hnested : ∀ u, moves.Unit t u → nestedDefault <+: u → M u = true)
    (hcleared : ∀ n, (nestedDefault, n) ∈ t.rows → gone nestedDefault = true) :
    (promoteDirectoryContents env legacyDir).wp Event.NoError
      (Prog.Replies fun _ s' => ∃ M', Grows M M' ∧ Stage env t audit₀ gone M' s' ∧
        ∀ u, moves.Unit t u → isLegacy u = true → M' u = true) (Underway env t audit₀) s := by
  refine Prog.wp_get_bind.2 ?_
  split
  · have hp : Pending t M legacyDir (env.readDir s.tree legacyDir) := by
      refine ⟨nodup_readDir h hread hs _, fun n hn hlib => ?_⟩
      obtain ⟨node, hr⟩ := (mem_readDir hread).1 hn
      obtain ⟨hr₀, hg, hM⟩ := (hs.row h (home_tenants _)).1 hr
      have hname : n ≠ "default" := by
        rintro rfl
        cases (hcleared node hr₀).symm.trans hg
      refine ⟨⟨_, hr₀, legacyUnit_entry hname []⟩, isLegacy_tenants _,
        hM _ (legacyUnit_entry hname []), ?_⟩
      show [rootName n] = [n]
      rw [rootName_of_other hlib]
    refine Prog.wp_replies_mono (wp_promoteEntries h hs hp) ?_
    rintro - s' ⟨M', hgrows, hs', hmoved⟩
    refine ⟨M', hgrows, hs', fun u hu hl => ?_⟩
    rcases unit_cases hu with ⟨name, hname, rfl⟩ | ⟨name, hname, rfl⟩ | ⟨entry, rfl⟩
    · rw [not_isLegacy_index hname] at hl
      cases hl
    · cases hlib : isLibraryName name with
      | true =>
        obtain ⟨suffix, hsuffix, heq⟩ := List.any_eq_true.1 hlib
        obtain rfl := of_decide_eq_true heq
        exact hgrows _ (hlibrary suffix hsuffix hu)
      | false =>
        cases hM : M [LEGACY_LIBRARY_SUBDIR, name] with
        | true => exact hgrows _ hM
        | false =>
          obtain ⟨n, hr⟩ := row_of_unit h hu
          have hkept := LegacyLayout.kept_of_legacy hs.spent hu hl
          exact hmoved name ((mem_readDir hread).2 ⟨n, (hs.unit_row h hu).2 ⟨hr, hkept, hM⟩⟩) hlib
    · exact hgrows _ (hnested _ hu (List.prefix_append _ _))
  · next hdir =>
    refine ⟨(), rfl, M, .refl M, hs, hs.tenants ?_⟩
    by_contra hg
    refine hdir
      (FileTree.isDir_iff.2
        ((hs.row h (home_tenants _)).2 ⟨isDir_tenants h, Bool.eq_false_iff.2 hg, ?_⟩))
    intro u hu
    cases legacyUnit_legacyDir.symm.trans hu

/-! ### Directories that are empty -/

/-- An emptied directory is removed. -/
theorem Stage.emptied (hs : Stage env t audit₀ gone M s) {dir : FilePath}
    (hdir : dir = nestedDefault ∨ dir = legacyDir)
    (hnested : ∀ u, moves.Unit t u → nestedDefault <+: u → M u = true)
    (htenants : dir = legacyDir → ∀ u, moves.Unit t u → isLegacy u = true → M u = true) :
    Stage env t audit₀ (FileTree.add gone dir)
    M { s with tree := treeAt t (FileTree.add gone dir) M } := by
  have hquarantine : quarantineDir ≠ dir := by rcases hdir with rfl | rfl <;> decide
  have hmain : legacyIndex "" ≠ dir := by rcases hdir with rfl | rfl <;> decide
  refine ⟨rfl, fun p hp => ?_, fun _ => hnested, fun hg => ?_, ?_⟩
  · by_cases hpd : p = dir
    · rcases hdir with rfl | rfl
      · exact .inl hpd
      · exact .inr (.inl hpd)
    · exact hs.spent p ((add_of_ne hpd).symm.trans hp)
  · by_cases hd : legacyDir = dir
    · exact htenants hd.symm
    · exact hs.tenants ((add_of_ne hd).symm.trans hg)
  · refine hs.index.imp (fun ⟨rows, hrows, hi⟩ => ⟨rows, hrows, ?_⟩) fun ⟨hrows, hi⟩ => ⟨hrows, ?_⟩
    · obtain ⟨k, haudit, hk⟩ := hi.audit
      exact ⟨hi.unmoved, grows_add gone dir _ hi.unquarantined, k, haudit,
        fun hg => hk ((add_of_ne hmain).symm.trans hg)⟩
    · exact ⟨hi.audit, (add_of_ne hmain).trans hi.main, fun suffix hsuffix hM =>
        (add_of_ne hquarantine).trans (hi.retired suffix hsuffix hM)⟩

theorem wp_removeEmptied (h : LegacyLayout t) (hs : Stage env t audit₀ gone M s) {dir : FilePath}
    (hdir : dir = nestedDefault ∨ dir = legacyDir)
    (hnested : ∀ u, moves.Unit t u → nestedDefault <+: u → M u = true)
    (htenants : dir = legacyDir → ∀ u, moves.Unit t u → isLegacy u = true → M u = true)
    (hempty : ∀ r ∈ s.tree.rows, dir <+: r.1 → r.1 = dir) :
    (tryRemoveDir env dir).wp Event.NoError (Prog.Replies fun _ s' => ∃ gone', Grows gone gone' ∧
      Stage env t audit₀ gone' M s' ∧ (∀ n, (dir, n) ∈ t.rows → gone' dir = true) ∧
        s'.audit = s.audit)
      (Underway env t audit₀) s := by
  have hhome : LegacyLayout.Home dir := by rcases hdir with rfl | rfl <;> exact home_tenants _
  have hunit : legacyUnit dir = none := by rcases hdir with rfl | rfl <;> decide
  have hnode {n : FileNode β} (hr : (dir, n) ∈ t.rows) : n = .dir := by
    rcases hdir with rfl | rfl
    · exact isDir_nested h hr
    · exact congrArg Prod.snd (List.inj_on_of_nodup_map h.nodup hr (isDir_tenants h) rfl)
  have hany : (s.tree.rows.any fun r => dir.isPrefixOf r.1 && r.1 ≠ dir) = false := by
    rw [List.any_eq_false]
    intro r hr hp
    rw [Bool.and_eq_true, List.isPrefixOf_iff_prefix, decide_eq_true_eq] at hp
    exact hp.2 (hempty r hr hp.1)
  have hs' := hs.emptied hdir hnested htenants
  refine wp_tryRemoveDir env ⟨gone, M, hs⟩ (fun t' ht' => ?_) (fun hnone => ?_)
  · obtain ⟨-, hsome⟩ := Option.ite_none_right_eq_some.1 ht'
    obtain rfl : treeAt t (FileTree.add gone dir) M = t' := by
      rw [← Option.some.inj hsome, hs.tree,
        h.without_treeAt hhome fun u hu => by rw [hunit] at hu; cases hu]
    exact ⟨⟨_, M, hs'⟩, (), rfl, _, grows_add gone dir, hs', fun _ _ => add_self _ _, rfl⟩
  · refine ⟨(), rfl, gone, .refl gone, hs, fun n hr => ?_, rfl⟩
    by_contra hg
    obtain rfl := hnode hr
    have hin : s.tree.isDir dir = true := FileTree.isDir_iff.2 ((hs.row h hhome).2
      ⟨hr, Bool.eq_false_iff.2 hg, fun u hu => by rw [hunit] at hu; cases hu⟩)
    rw [FileTree.removeDir?, hin, hany] at hnone
    cases hnone

end Runs

end Promote

end Solo
