import Solo.Store.PromoteStages

/-!
# The promotion through crashes

The registry is retired, and from every `Stage` an attempt that is not cut ends in `Promoted`; so
any number of attempts can be cut short before it (`promotion_completes`).
-/

namespace Solo

open Crash Result

namespace Promote

variable {β : Type}

section Runs

variable {env : PromoteEnv β} {t : FileTree β} {audit₀ : Table AdminAuditRow}
  {gone M : FilePath → Bool} {s : DataDir β}
variable {u p : FilePath}

/-! ### The registry -/

theorem legacyUnit_legacyIndex {suffix : String} (h : suffix ∈ suffixes) :
    legacyUnit (legacyIndex suffix) = some (legacyIndex suffix) :=
    legacyUnit_index (legacyIndex_name h)

theorem home_legacyIndex {suffix : String} (h : suffix ∈ suffixes) :
    LegacyLayout.Home (legacyIndex suffix) :=
  ⟨_, [], rfl, .inl (legacyIndex_name h)⟩

theorem file_of_legacyIndex (h : LegacyLayout t) {suffix : String} (hsuffix : suffix ∈ suffixes)
    {n : FileNode β} (hr : (legacyIndex suffix, n) ∈ t.rows) : ∃ c, n = .file c :=
  FileNode.isDir_eq_false.1 (h.index _ hr _ rfl (legacyIndex_name hsuffix))

theorem Stage.mem_index (h : LegacyLayout t) (hs : Stage env t audit₀ gone M s) {suffix : String}
    (hsuffix : suffix ∈ suffixes) {n : FileNode β} : (legacyIndex suffix, n) ∈ s.tree.rows ↔
      (legacyIndex suffix, n) ∈ t.rows ∧ gone (legacyIndex suffix) = false ∧
      M (legacyIndex suffix) = false := by
  rw [hs.row h (home_legacyIndex hsuffix), legacyUnit_legacyIndex hsuffix]
  simp

theorem Stage.not_isFile_index (h : LegacyLayout t) (hs : Stage env t audit₀ gone M s)
    {suffix : String}
    (hsuffix : suffix ∈ suffixes) (hfile : ¬ s.tree.isFile (legacyIndex suffix) = true)
    {n : FileNode β}
    (hr : (legacyIndex suffix, n) ∈ t.rows) : gone (legacyIndex suffix) = true ∨
    M (legacyIndex suffix) = true := by
  by_contra hno
  rw [not_or, Bool.not_eq_true, Bool.not_eq_true] at hno
  obtain ⟨c, rfl⟩ := file_of_legacyIndex h hsuffix hr
  exact hfile (FileTree.isFile_iff.2 ⟨c, (hs.mem_index h hsuffix).2 ⟨hr, hno⟩⟩)

/-- The registry reads as it did, until its file is removed or moved. -/
theorem Stage.indexRows_eq (h : LegacyLayout t) (hs : Stage env t audit₀ gone M s) :
    indexRows env s.tree =
    if gone (legacyIndex "") || M (legacyIndex "") then some [] else indexRows env t := by
  have hnodup : (s.tree.rows.map Prod.fst).Nodup := by
    rw [hs.tree]
    exact h.nodup_treeAt hs.spent
  have hcontent : s.tree.content? (legacyIndex "") =
      if gone (legacyIndex "") ||
        M (legacyIndex "") then none else t.content? (legacyIndex "") := by
    refine Option.ext fun c => ?_
    rw [FileTree.content?_eq_some hnodup, hs.mem_index h empty_mem_suffixes]
    split
    · next hor =>
      refine ⟨fun hc => ?_, fun hc => by cases hc⟩
      rw [hc.2.1, hc.2.2] at hor
      cases hor
    · next hor =>
      rw [Bool.not_eq_true, Bool.or_eq_false_iff] at hor
      rw [FileTree.content?_eq_some h.nodup]
      exact ⟨fun hc => hc.1, fun hc => ⟨hc, hor⟩⟩
  rw [indexRows, hcontent]
  split
  · rfl
  · rfl

theorem insertOrIgnore_again {audit : Table AdminAuditRow} {rows : List AdminAuditRow}
    {row : AdminAuditRow}
    (h : row ∈ rows) : (insertAll audit rows).insertOrIgnore row = insertAll audit rows := by
  have hclash : ∃ a ∈ insertAll audit rows, Keyed.clash a row = true := by
    rcases Table.exists_mem_foldl_insertOrIgnore (t := audit) h with hr | hr
    · exact ⟨row, hr, decide_eq_true rfl⟩
    · exact hr
  rw [Table.insertOrIgnore, Table.insert?_eq_none.2 hclash]
  rfl

/-- Rows that an earlier attempt has inserted are ignored. -/
theorem insertOrIgnore_take {audit : Table AdminAuditRow} {before after : List AdminAuditRow}
    {row : AdminAuditRow} {k : ℕ}
    (hk : before.length ≤ k) :
    (insertAll audit ((before ++ row :: after).take k)).insertOrIgnore row =
      insertAll audit ((before ++ row :: after).take (max k (before.length + 1))) := by
  rcases Nat.eq_or_lt_of_le hk with rfl | hlt
  · have hnext : (before ++ row :: after).take (before.length + 1) = before ++ [row] := by
      rw [List.take_append, List.take_of_length_le (Nat.le_succ _)]
      simp
    rw [Nat.max_eq_right (Nat.le_succ _), hnext, List.take_left]
    simp [insertAll]
  · rw [Nat.max_eq_left hlt]
    refine insertOrIgnore_again ?_
    rw [List.take_append, List.mem_append]
    obtain ⟨j, hj⟩ : ∃ j, k - before.length = j + 1 := ⟨k - before.length - 1, by omega⟩
    rw [hj]
    exact .inr (by simp)

/-- The rows are inserted while the registry is there. -/
theorem wp_insertRows {rows : List AdminAuditRow} (before after : List AdminAuditRow) {k : ℕ}
    (hs : Stage env t audit₀ gone M s)
    (hrows : indexRows env t = some rows) (heq : rows = before ++ after)
    (hg : gone (legacyIndex "") = false)
    (hk : before.length ≤ k) (haudit : s.audit = insertAll audit₀ (rows.take k)) :
    (insertRows env after).wp Event.NoError (Prog.Replies fun _ s' => Stage env t audit₀ gone M s' ∧
      s'.audit = insertAll audit₀ rows) (Underway env t audit₀) s := by
  induction after generalizing before s k with
  | nil =>
    refine ⟨(), rfl, hs, ?_⟩
    rw [haudit, List.take_of_length_le]
    rw [heq]
    simpa using hk
  | cons row after ih =>
    have hpreserving : Preserving rows audit₀ gone M s.audit := by
      rcases hs.index with ⟨rows', hrows', hi⟩ | ⟨hnone, -⟩
      · rwa [Option.some.inj (hrows.symm.trans hrows')]
      · cases hrows.symm.trans hnone
    have hinsert :
        s.audit.insertOrIgnore row = insertAll audit₀ (rows.take (max k (before.length + 1))) := by
      rw [haudit, heq]
      exact insertOrIgnore_take hk
    have hs' : Stage env t audit₀ gone M { s with audit := s.audit.insertOrIgnore row } :=
      ⟨hs.tree, hs.spent, hs.nested, hs.tenants,
        .inl ⟨rows, hrows, hpreserving.unmoved, hpreserving.unquarantined,
        _, hinsert, fun hgone => by rw [hg] at hgone; cases hgone⟩⟩
    refine Prog.wp_bind_of_replies (wp_atomic rfl ⟨gone, M, hs⟩ ⟨gone, M, hs'⟩ ⟨(), rfl, ?_⟩)
    exact ih (before ++ [row]) hs' (by rw [heq]; simp) (by simp) hinsert

theorem ne_legacyIndex_of_name {n : String} (hn : isIndexName n = false) {suffix : String}
    (hsuffix : suffix ∈ suffixes) : [n] ≠ legacyIndex suffix := by
  intro heq
  rw [(List.cons.inj heq).1, legacyIndex_name hsuffix] at hn
  cases hn

theorem nestedDefault_ne (suffix : String) : nestedDefault ≠ legacyIndex suffix := by
  simp [nestedDefault, legacyIndex]

/-- A file of the registry is removed, once its rows are in the library or it is quarantined. -/
theorem Stage.removed (hs : Stage env t audit₀ gone M s) {suffix : String}
    (hsuffix : suffix ∈ suffixes) (hM : M (legacyIndex suffix) = false)
    (hfull : ∀ rows, indexRows env t = some rows → s.audit = insertAll audit₀ rows)
    (hmain : indexRows env t = none → M (legacyIndex "") = true) :
    Stage env t audit₀ (FileTree.add gone (legacyIndex suffix)) M
      { s with tree := treeAt t (FileTree.add gone (legacyIndex suffix)) M } := by
  have hdir : legacyDir ≠ legacyIndex suffix := ne_legacyIndex_of_name isIndexName_tenants hsuffix
  have hquarantine : quarantineDir ≠ legacyIndex suffix :=
    ne_legacyIndex_of_name isIndexName_retired hsuffix
  refine ⟨rfl, fun p hp => ?_,
    fun hg => hs.nested ((add_of_ne (nestedDefault_ne suffix)).symm.trans hg),
    fun hg => hs.tenants ((add_of_ne hdir).symm.trans hg), ?_⟩
  · by_cases hpi : p = legacyIndex suffix
    · exact .inr (.inr (.inr ⟨_, legacyIndex_name hsuffix, hpi⟩))
    · exact hs.spent p ((add_of_ne hpi).symm.trans hp)
  · refine hs.index.imp (fun ⟨rows, hrows, hi⟩ => ⟨rows, hrows, ?_⟩) fun ⟨hrows, hi⟩ => ⟨hrows, ?_⟩
    · refine ⟨hi.unmoved, grows_add gone _ _ hi.unquarantined, rows.length, ?_,
        fun _ => Nat.le_refl _⟩
      rw [List.take_length]
      exact hfull rows hrows
    · have hne : legacyIndex "" ≠ legacyIndex suffix := by
        intro heq
        rw [← heq, hmain hrows] at hM
        cases hM
      exact ⟨hi.audit, (add_of_ne hne).trans hi.main, fun suffix' hsuffix' hM' =>
        (add_of_ne hquarantine).trans (hi.retired suffix' hsuffix' hM')⟩

theorem wp_removeIndexFile (h : LegacyLayout t) (hs : Stage env t audit₀ gone M s) {suffix : String}
    (hsuffix : suffix ∈ suffixes)
    (hfull : ∀ rows, indexRows env t = some rows → s.audit = insertAll audit₀ rows)
    (hmain : indexRows env t = none → M (legacyIndex "") = true) :
    (removeIndexFile env suffix).wp Event.NoError
    (Prog.Replies fun _ s' => ∃ gone', Grows gone gone' ∧
      Stage env t audit₀ gone' M s' ∧ s'.audit = s.audit ∧
      ∀ n, (legacyIndex suffix, n) ∈ t.rows → gone' (legacyIndex suffix) = true ∨
        M (legacyIndex suffix) = true)
      (Underway env t audit₀) s := by
  refine Prog.wp_get_bind.2 ?_
  split
  · next hfile =>
    obtain ⟨c, hc⟩ := FileTree.isFile_iff.1 hfile
    obtain ⟨-, -, hM⟩ := (hs.mem_index h hsuffix).1 hc
    have hact : s.tree.removeFile? (legacyIndex suffix) =
        some (treeAt t (FileTree.add gone (legacyIndex suffix)) M) := by
      rw [FileTree.removeFile?, if_pos hfile, hs.tree, h.without_treeAt (home_legacyIndex hsuffix)]
      intro u hu
      rwa [← Option.some.inj ((legacyUnit_legacyIndex hsuffix).symm.trans hu)]
    have hs' := hs.removed hsuffix hM hfull hmain
    exact wp_onTree hact ⟨gone, M, hs⟩ ⟨_, M, hs'⟩
      ⟨(), rfl, _, grows_add _ _, hs', rfl, fun _ _ => .inl (add_self _ _)⟩
  · next hfile =>
      exact ⟨(), rfl, gone, .refl gone, hs, rfl, fun n hr => hs.not_isFile_index h hsuffix hfile hr⟩

/-! ### Quarantine -/

/-- The quarantine directory is there. -/
def opened (gone : FilePath → Bool) : FilePath → Bool :=
  fun p => gone p && decide (p ≠ quarantineDir)

theorem opened_of_ne {gone : FilePath → Bool} {p : FilePath} (h : p ≠ quarantineDir) :
    opened gone p = gone p := by
  simp [opened, h]

@[simp] theorem opened_self (gone : FilePath → Bool) : opened gone quarantineDir = false := by
  simp [opened]

theorem place_retired (M : FilePath → Bool) : moves.place M quarantineDir = quarantineDir :=
  FileTree.place_none rfl

theorem mem_retired (hg : gone quarantineDir = false) :
    (quarantineDir, .dir) ∈ (treeAt t gone M).rows :=
  FileTree.mem_moved.2 ⟨(quarantineDir, .dir),
    FileTree.mem_without.2 ⟨LegacyLayout.mem_withRetired.2 (.inr rfl), hg⟩,
      Prod.ext (place_retired M) rfl⟩

theorem retired_of_mem (h : LegacyLayout t) {n : FileNode β}
    (hr : (quarantineDir, n) ∈ (treeAt t gone M).rows) : gone quarantineDir = false ∧ n = .dir := by
  have haway : moves.Away ((withRetired t).without gone) quarantineDir := by
    intro u hu q heq
    have hunit := LegacyLayout.unit_of_without hu
    have heq' : legacyTarget u ++ q = quarantineDir := heq
    rcases target_cases hunit with ⟨hl, name, ht⟩ | ⟨name, -, -, ht⟩
    · rw [ht] at heq'
      exact (h.clear_of_unit hunit hl ht).2.1 (List.cons.inj heq').1
    · rw [ht] at heq'
      simp [quarantineDir] at heq'
  rw [treeAt, FileTree.mem_moved_away haway, FileTree.mem_without, LegacyLayout.mem_withRetired]
    at hr
  obtain ⟨⟨hr | hr, hg⟩, -⟩ := hr
  · exact absurd rfl (h.retired _ hr)
  · exact ⟨hg, (Prod.mk.inj hr).2⟩

theorem createDir_treeAt (h : LegacyLayout t) :
    (treeAt t gone M).createDir quarantineDir = treeAt t (opened gone) M := by
  cases hg : gone quarantineDir with
  | false =>
    have hhas : (treeAt t gone M).has quarantineDir = true :=
      FileTree.has_iff.2 ⟨_, mem_retired hg, rfl⟩
    have hsame : opened gone = gone := by
      funext p
      by_cases hp : p = quarantineDir
      · rw [hp, opened_self, hg]
      · exact opened_of_ne hp
    rw [FileTree.createDir, if_pos hhas, hsame]
  | true =>
    have hhas : ¬ (treeAt t gone M).has quarantineDir = true := by
      intro hhas
      obtain ⟨⟨p, n⟩, hr, rfl⟩ := FileTree.has_iff.1 hhas
      rw [(retired_of_mem h hr).1] at hg
      cases hg
    have hrows : t.rows.filter (fun r => !opened gone r.1) =
        t.rows.filter (fun r => !gone r.1) := by
      refine List.filter_congr fun r hr => ?_
      rw [opened_of_ne]
      intro hp
      exact h.retired r hr (by rw [hp]; rfl)
    rw [FileTree.createDir, if_neg hhas]
    simp only [treeAt, withRetired, FileTree.without, FileTree.moved, List.filter_append,
      List.map_append, hrows, FileTree.mk.injEq]
    rw [List.filter_singleton, List.filter_singleton]
    simp [hg, place_retired]

theorem Stage.openQuarantine (hs : Stage env t audit₀ gone M s) (hnone : indexRows env t = none) :
    Stage env t audit₀ (opened gone) M { s with tree := treeAt t (opened gone) M } := by
  have hle {p : FilePath} (hp : opened gone p = true) : gone p = true :=
    (Bool.and_eq_true_iff.1 hp).1
  refine ⟨rfl, fun p hp => hs.spent p (hle hp), fun hg => hs.nested (hle hg),
    fun hg => hs.tenants (hle hg), .inr ⟨hnone, ?_⟩⟩
  rcases hs.index with ⟨rows, hrows, -⟩ | ⟨-, hi⟩
  · cases hnone.symm.trans hrows
  · exact ⟨hi.audit, by rw [opened, hi.main]; rfl, fun _ _ _ => opened_self gone⟩

theorem Stage.quarantined (hs : Stage env t audit₀ gone M s) (hnone : indexRows env t = none)
    (hq : gone quarantineDir = false) (u : FilePath) :
    Stage env t audit₀ gone (FileTree.add M u)
    { s with tree := treeAt t gone (FileTree.add M u) } := by
  refine ⟨rfl, hs.spent, fun hg v hv hp => grows_add M u v (hs.nested hg v hv hp),
    fun hg v hv hl => grows_add M u v (hs.tenants hg v hv hl), .inr ⟨hnone, ?_⟩⟩
  rcases hs.index with ⟨rows, hrows, -⟩ | ⟨-, hi⟩
  · cases hnone.symm.trans hrows
  · exact ⟨hi.audit, hi.main, fun _ _ _ => hq⟩

theorem wp_quarantineIndexFile (h : LegacyLayout t) (hs : Stage env t audit₀ gone M s)
    {suffix : String} (hsuffix : suffix ∈ suffixes) (hnone : indexRows env t = none) :
    (quarantineIndexFile env suffix).wp Event.NoError (Prog.Replies fun _ s' => ∃ gone' M',
      (∀ p, p ≠ quarantineDir → gone' p = gone p) ∧ Grows M M' ∧ Stage env t audit₀ gone' M' s' ∧
      ∀ n, (legacyIndex suffix, n) ∈ t.rows → gone' (legacyIndex suffix) = true ∨
        M' (legacyIndex suffix) = true)
      (Underway env t audit₀) s := by
  refine Prog.wp_get_bind.2 ?_
  split
  · next hfile =>
    obtain ⟨c, hc⟩ := FileTree.isFile_iff.1 hfile
    obtain ⟨hr, hg, hM⟩ := (hs.mem_index h hsuffix).1 hc
    have hu : moves.Unit t (legacyIndex suffix) := ⟨_, hr, legacyUnit_legacyIndex hsuffix⟩
    have hnot : ¬ s.tree.isFile quarantineDir = true := by
      intro hf
      obtain ⟨c', hc'⟩ := FileTree.isFile_iff.1 hf
      rw [hs.tree] at hc'
      cases (retired_of_mem h hc').2
    have hs₁ := hs.openQuarantine hnone
    have hg₁ : opened gone (legacyIndex suffix) = false := by rw [opened, hg]; rfl
    have hs₂ := hs₁.quarantined hnone (opened_self gone) (legacyIndex suffix)
    have hparent : (treeAt t (opened gone) M).hasParent (legacyTarget (legacyIndex suffix)) =
        true := by
      have hdir : (treeAt t (opened gone) M).isDir quarantineDir = true :=
        FileTree.isDir_iff.2 (mem_retired (opened_self gone))
      exact Bool.or_eq_true_iff.2 (.inr hdir)
    have hcreate :
        (if s.tree.isFile quarantineDir then none else some (s.tree.createDir quarantineDir)) =
        some (treeAt t (opened gone) M) := by
      rw [if_neg hnot, hs.tree, createDir_treeAt h]
    refine Prog.wp_bind_of_replies (wp_onTree hcreate ⟨gone, M, hs⟩ ⟨_, M, hs₁⟩ ⟨(), rfl, ?_⟩)
    · refine Prog.wp_get_bind.2
        (wp_rejectIf (Bool.eq_false_iff.1 (hs₁.not_has_target h hu hg₁ hM)) ?_)
      exact wp_onTree (h.rename_treeAt hs₁.spent hu hg₁ hM hparent) ⟨_, M, hs₁⟩ ⟨_, _, hs₂⟩
        ⟨(), rfl, _, _, fun p hp => opened_of_ne hp, grows_add _ _, hs₂,
          fun _ _ => .inr (add_self _ _)⟩
  · next hfile =>
    exact ⟨(), rfl, gone, M, fun _ _ => rfl, .refl M, hs,
      fun n hr => hs.not_isFile_index h hsuffix hfile hr⟩

/-! ### The whole promotion -/

/-- The registry is retired. -/
structure Retired (env : PromoteEnv β) (t : FileTree β) (audit₀ : Table AdminAuditRow)
    (gone M : FilePath → Bool) (audit : Table AdminAuditRow) : Prop where
  files : ∀ suffix ∈ suffixes, ∀ n, (legacyIndex suffix, n) ∈ t.rows →
    gone (legacyIndex suffix) = true ∨ M (legacyIndex suffix) = true
  rows : ∀ rows, indexRows env t = some rows → audit = insertAll audit₀ rows
  main : indexRows env t = none → M (legacyIndex "") = true

theorem Retired.of_suffixes {audit : Table AdminAuditRow}
    (hmainFile : ∀ n, (legacyIndex "", n) ∈ t.rows → gone (legacyIndex "") = true ∨
      M (legacyIndex "") = true)
    (hwal : ∀ n, (legacyIndex "-wal", n) ∈ t.rows → gone (legacyIndex "-wal") = true ∨
      M (legacyIndex "-wal") = true)
    (hshm : ∀ n, (legacyIndex "-shm", n) ∈ t.rows → gone (legacyIndex "-shm") = true ∨
      M (legacyIndex "-shm") = true)
    (hrows : ∀ rows, indexRows env t = some rows → audit = insertAll audit₀ rows)
    (hmain : indexRows env t = none → M (legacyIndex "") = true) :
    Retired env t audit₀ gone M audit := by
  refine ⟨fun suffix hsuffix => ?_, hrows, hmain⟩
  simp only [suffixes, List.mem_cons, List.not_mem_nil, or_false] at hsuffix
  rcases hsuffix with rfl | rfl | rfl
  · exact hmainFile
  · exact hwal
  · exact hshm

def Retires (env : PromoteEnv β) (t : FileTree β) (audit₀ : Table AdminAuditRow)
    (gone M : FilePath → Bool) (s' : DataDir β) : Prop :=
  ∃ gone' M', (∀ p, p ≠ quarantineDir → gone p = true → gone' p = true) ∧ Grows M M' ∧
    Stage env t audit₀ gone' M' s' ∧ Retired env t audit₀ gone' M' s'.audit

/-- The files of a registry whose rows are in the library. -/
def removeIndexFiles (env : PromoteEnv β) : Promotion β Unit := do
  removeIndexFile env ""
  removeIndexFile env "-wal"
  removeIndexFile env "-shm"

theorem wp_removeIndexFiles (h : LegacyLayout t) (hs : Stage env t audit₀ gone M s)
    (hfull : ∀ rows, indexRows env t = some rows → s.audit = insertAll audit₀ rows)
    (hmain : indexRows env t = none → M (legacyIndex "") = true) :
    (removeIndexFiles env).wp Event.NoError (Prog.Replies fun _ => Retires env t audit₀ gone M)
    (Underway env t audit₀) s := by
  refine Prog.wp_bind_replies (wp_removeIndexFile h hs empty_mem_suffixes hfull hmain) ?_
  rintro - s₁ ⟨gone₁, hg₁, hs₁, haudit₁, hdone₁⟩
  have hfull₁ : ∀ rows, indexRows env t = some rows → s₁.audit = insertAll audit₀ rows := by
    rwa [haudit₁]
  refine Prog.wp_bind_replies (wp_removeIndexFile h hs₁ wal_mem_suffixes hfull₁ hmain) ?_
  rintro - s₂ ⟨gone₂, hg₂, hs₂, haudit₂, hdone₂⟩
  have hfull₂ : ∀ rows, indexRows env t = some rows → s₂.audit = insertAll audit₀ rows := by
    rwa [haudit₂]
  refine Prog.wp_replies_mono (wp_removeIndexFile h hs₂ shm_mem_suffixes hfull₂ hmain) ?_
  rintro - s₃ ⟨gone₃, hg₃, hs₃, haudit₃, hdone₃⟩
  have hfull₃ : ∀ rows, indexRows env t = some rows → s₃.audit = insertAll audit₀ rows := by
    rwa [haudit₃]
  exact ⟨gone₃, M, fun p _ hp => hg₃ p (hg₂ p (hg₁ p hp)), .refl M, hs₃,
    .of_suffixes (fun n hn => (hdone₁ n hn).imp_left fun hg => hg₃ _ (hg₂ _ hg))
      (fun n hn => (hdone₂ n hn).imp_left fun hg => hg₃ _ hg) hdone₃ hfull₃ hmain⟩

theorem wp_quarantineIndexFiles (h : LegacyLayout t) (hs : Stage env t audit₀ gone M s)
    (hnone : indexRows env t = none) :
    (do quarantineIndexFile env ""; quarantineIndexFile env "-wal"; quarantineIndexFile env "-shm" :
      Promotion β Unit).wp
      Event.NoError (Prog.Replies fun _ => Retires env t audit₀ gone M) (Underway env t audit₀)
      s := by
  have hne {suffix : String} (hsuffix : suffix ∈ suffixes) : legacyIndex suffix ≠ quarantineDir :=
    (ne_legacyIndex_of_name isIndexName_retired hsuffix).symm
  refine Prog.wp_bind_replies (wp_quarantineIndexFile h hs empty_mem_suffixes hnone) ?_
  rintro - s₁ ⟨gone₁, M₁, hg₁, hM₁, hs₁, hdone₁⟩
  refine Prog.wp_bind_replies (wp_quarantineIndexFile h hs₁ wal_mem_suffixes hnone) ?_
  rintro - s₂ ⟨gone₂, M₂, hg₂, hM₂, hs₂, hdone₂⟩
  refine Prog.wp_replies_mono (wp_quarantineIndexFile h hs₂ shm_mem_suffixes hnone) ?_
  rintro - s₃ ⟨gone₃, M₃, hg₃, hM₃, hs₃, hdone₃⟩
  have hmainGone : gone₁ (legacyIndex "") = false := by
    rcases hs₁.index with ⟨rows, hrows, -⟩ | ⟨-, hi⟩
    · cases hnone.symm.trans hrows
    · exact hi.main
  -- a registry that cannot be read is a file
  obtain ⟨c, hc⟩ : ∃ c, (legacyIndex "", .file c) ∈ t.rows := by
    cases hcontent : t.content? (legacyIndex "") with
    | none =>
      rw [indexRows, hcontent] at hnone
      cases hnone
    | some c => exact ⟨c, (FileTree.content?_eq_some h.nodup).1 hcontent⟩
  have hmain : M₃ (legacyIndex "") = true := by
    rcases hdone₁ _ hc with hg | hM
    · cases hmainGone.symm.trans hg
    · exact hM₃ _ (hM₂ _ hM)
  refine ⟨gone₃, M₃, fun p hp hg => ?_, (hM₁.trans hM₂).trans hM₃, hs₃,
    .of_suffixes (fun _ _ => .inr hmain)
    (fun n hn => (hdone₂ n hn).imp (fun hg => (hg₃ _ (hne wal_mem_suffixes)).trans hg) (hM₃ _))
    hdone₃ (fun rows hrows => ?_) fun _ => hmain⟩
  · rw [hg₃ p hp, hg₂ p hp, hg₁ p hp]
    exact hg
  · cases hnone.symm.trans hrows

theorem retireWith_nil : retireWith env (some []) = removeIndexFiles env := by
  unfold retireWith
  exact if_pos rfl

theorem retireWith_rows {rows : List AdminAuditRow} (hne : rows ≠ []) : retireWith env (some rows) =
    (preserveLegacyAdminAuditRows env rows >>= fun _ => removeIndexFiles env) := by
  unfold retireWith
  exact if_neg hne

theorem wp_retireLegacyIndex (h : LegacyLayout t) (hs : Stage env t audit₀ gone M s)
    (hopen : openAt env s.tree (rootDb "") = .ok ()) : (retireLegacyIndex env).wp Event.NoError
      (Prog.Replies fun _ => Retires env t audit₀ gone M) (Underway env t audit₀) s := by
  refine Prog.wp_get_bind.2 ?_
  rw [hs.indexRows_eq h]
  split
  · next hor =>
    -- the file is not there any more
    rw [retireWith_nil]
    refine wp_removeIndexFiles h hs (fun rows hrows => ?_) fun hnone => ?_
    · rcases hs.index with ⟨rows', hrows', hi⟩ | ⟨hnone, -⟩
      · obtain rfl := Option.some.inj (hrows.symm.trans hrows')
        obtain ⟨k, haudit, hk⟩ := hi.audit
        rw [hi.unmoved "" empty_mem_suffixes, Bool.or_false] at hor
        rw [haudit, List.take_of_length_le (hk hor)]
      · cases hrows.symm.trans hnone
    · rcases hs.index with ⟨rows', hrows', -⟩ | ⟨-, hi⟩
      · cases hnone.symm.trans hrows'
      · rw [hi.main, Bool.false_or] at hor
        exact hor
  · next hor =>
    rw [Bool.not_eq_true, Bool.or_eq_false_iff] at hor
    rcases hs.index with ⟨rows, hrows, hi⟩ | ⟨hnone, hi⟩
    · rw [hrows]
      obtain ⟨k, haudit, -⟩ := hi.audit
      have hremove {s' : DataDir β} (hs' : Stage env t audit₀ gone M s')
          (haudit' : s'.audit = insertAll audit₀ rows) :=
        wp_removeIndexFiles h hs'
          (fun rows' hrows' => by rw [haudit', Option.some.inj (hrows.symm.trans hrows')])
          fun hnone => by cases hnone.symm.trans hrows
      by_cases hnil : rows = []
      · rw [hnil, retireWith_nil]
        refine hremove hs ?_
        rw [haudit, hnil, List.take_nil]
      · rw [retireWith_rows hnil]
        refine Prog.wp_bind_of_replies (Prog.wp_get_bind.2 (Prog.wp_ofExcept_bind hopen ?_))
        refine Prog.wp_replies_mono
          (wp_insertRows [] rows hs hrows rfl hor.1 (Nat.zero_le k) haudit) ?_
        rintro - s' ⟨hs', haudit'⟩
        exact hremove hs' haudit'
    · rw [hnone]
      exact wp_quarantineIndexFiles h hs hnone

theorem promoteLibrary_moved : promoteLibrary env false = (do
    let wal ← promoteSidecar env "-wal"
    let shm ← promoteSidecar env "-shm"
    let t ← Prog.get (·.tree)
    promoteDirectoryContents env nestedDefault
    tryRemoveDir env nestedDefault
    promoteDirectoryContents env legacyDir
    return wal || shm || t.isDir nestedDefault || t.isDir legacyDir) := rfl

theorem promoteLibrary_exists : promoteLibrary env true =
    (moveFile env (legacyDefaultDb "") (rootDb "") >>= fun _ => promoteLibrary env false) := rfl

/-- Below an emptied directory there is nothing. -/
theorem Stage.nested_empty (h : LegacyLayout t) (hs : Stage env t audit₀ gone M s)
    (hnested : ∀ u, moves.Unit t u → nestedDefault <+: u → M u = true) :
    ∀ r ∈ s.tree.rows, nestedDefault <+: r.1 → r.1 = nestedDefault := by
  rintro ⟨p, n⟩ hr ⟨rest, rfl⟩
  obtain ⟨hr₀, -, hM⟩ := (hs.row h (home_tenants _)).1 hr
  rcases rest with _ | ⟨entry, rest⟩
  · exact List.append_nil _
  · have hunit := legacyUnit_nested entry rest
    cases (hnested _ ⟨_, hr₀, hunit⟩ (List.prefix_append _ _)).symm.trans (hM _ hunit)

theorem Stage.tenants_empty (h : LegacyLayout t) (hs : Stage env t audit₀ gone M s)
    (hall : ∀ u, moves.Unit t u → isLegacy u = true → M u = true)
    (hcleared : ∀ n, (nestedDefault, n) ∈ t.rows → gone nestedDefault = true) :
    ∀ r ∈ s.tree.rows, legacyDir <+: r.1 → r.1 = legacyDir := by
  rintro ⟨p, n⟩ hr ⟨rest, rfl⟩
  obtain ⟨hr₀, hg, hM⟩ := (hs.row h (home_tenants _)).1 hr
  have hmoved {u : FilePath} (hu : legacyUnit (legacyDir ++ rest) = some u)
      (hl : isLegacy u = true) : False := by
    cases (hall u ⟨_, hr₀, hu⟩ hl).symm.trans (hM u hu)
  rcases rest with _ | ⟨name, rest⟩
  · rfl
  · by_cases hname : name = "default"
    · subst hname
      rcases rest with _ | ⟨entry, rest⟩
      · cases (hcleared n hr₀).symm.trans hg
      · exact (hmoved (legacyUnit_nested entry rest) (isLegacy_tenants _)).elim
    · exact (hmoved (legacyUnit_entry hname rest) (isLegacy_tenants _)).elim

/-- What `promoteLibrary` has moved. -/
def LibraryPromoted (env : PromoteEnv β) (t : FileTree β) (audit₀ : Table AdminAuditRow)
    (s' : DataDir β) : Prop :=
  ∃ gone M, Stage env t audit₀ gone M s' ∧ (∀ u, moves.Unit t u → isLegacy u = true → M u = true) ∧
    ∀ n, (nestedDefault, n) ∈ t.rows → gone nestedDefault = true

theorem wp_promoteLibrary_moved (h : LegacyLayout t)
    (hread : ∀ t p, (env.readDir t p).Perm (t.list p))
    (hs : Stage env t audit₀ gone M s) (hdefault : M (legacyDefaultDb "") = true) :
    (promoteLibrary env false).wp Event.NoError (Prog.Replies fun _ => LibraryPromoted env t audit₀)
      (Underway env t audit₀) s := by
  rw [promoteLibrary_moved]
  refine Prog.wp_bind_replies (wp_promoteSidecar h hs wal_mem_suffixes) ?_
  rintro wal s₁ ⟨M₁, hM₁, hs₁, hwal₁⟩
  refine Prog.wp_bind_replies (wp_promoteSidecar h hs₁ shm_mem_suffixes) ?_
  rintro shm s₂ ⟨M₂, hM₂, hs₂, hshm₂⟩
  have hlibrary : ∀ suffix ∈ suffixes, moves.Unit t (legacyDefaultDb suffix) →
      M₂ (legacyDefaultDb suffix) = true := by
    intro suffix hsuffix hu
    simp only [suffixes, List.mem_cons, List.not_mem_nil, or_false] at hsuffix
    rcases hsuffix with rfl | rfl | rfl
    · exact hM₂ _ (hM₁ _ hdefault)
    · exact hM₂ _ (hwal₁ hu)
    · exact hshm₂ hu
  refine Prog.wp_get_bind.2 ?_
  refine Prog.wp_bind_replies (wp_promoteNested h hread hs₂) ?_
  rintro - s₃ ⟨M₃, hM₃, hs₃, hnested⟩
  refine Prog.wp_bind_replies (wp_removeEmptied h hs₃ (.inl rfl) hnested (fun heq => by cases heq)
    (hs₃.nested_empty h hnested)) ?_
  rintro - s₄ ⟨gone₄, -, hs₄, hcleared, -⟩
  refine Prog.wp_bind_replies (wp_promoteTenants h hread hs₄
    (fun suffix hsuffix hu => hM₃ _ (hlibrary suffix hsuffix hu)) hnested hcleared) ?_
  rintro - s₅ ⟨M₅, -, hs₅, hall⟩
  exact ⟨_, rfl, gone₄, M₅, hs₅, hall, hcleared⟩

theorem unit_library (h : LegacyLayout t) : moves.Unit t (legacyDefaultDb "") := by
  obtain ⟨c, hc⟩ := FileTree.isFile_iff.1 h.library
  exact ⟨_, hc, (legacyDefaultDb_unit empty_mem_suffixes).1⟩

theorem Stage.isFile_default (h : LegacyLayout t) (hs : Stage env t audit₀ gone M s) :
    s.tree.isFile (legacyDefaultDb "") = !M (legacyDefaultDb "") := by
  rw [Bool.eq_iff_iff, hs.isFile_library h empty_mem_suffixes]
  simp [unit_library h]

/-- The library is in the data directory once it was moved. -/
theorem Stage.isFile_root (h : LegacyLayout t) (hs : Stage env t audit₀ gone M s) :
    s.tree.isFile (rootDb "") = M (legacyDefaultDb "") := by
  have hu := unit_library h
  have hkept := LegacyLayout.kept_of_legacy hs.spent hu (isLegacy_tenants _)
  rw [← (legacyDefaultDb_unit empty_mem_suffixes).2]
  cases hM : M (legacyDefaultDb "") with
  | true =>
    obtain ⟨c, hc⟩ := FileTree.isFile_iff.1 h.library
    rw [hs.tree]
    exact FileTree.isFile_iff.2 ⟨c, LegacyLayout.mem_target hc hu hkept hM⟩
  | false =>
    refine Bool.eq_false_iff.2 fun hf => ?_
    obtain ⟨c, hc⟩ := FileTree.isFile_iff.1 hf
    have hhas := FileTree.has_iff.2 ⟨_, hc, rfl⟩
    rw [hs.not_has_target h hu hkept hM] at hhas
    cases hhas

theorem openAt_of_mem (h : LegacyLayout t) (hs : Stage env t audit₀ gone M s) {c : β}
    (hc : (p, .file c) ∈ s.tree.rows)
    (hopen : env.openLibrary c = .ok ()) : openAt env s.tree p = .ok () := by
  have hnodup : (s.tree.rows.map Prod.fst).Nodup := by
    rw [hs.tree]
    exact h.nodup_treeAt hs.spent
  rw [openAt, (FileTree.content?_eq_some hnodup).2 hc]
  exact hopen

theorem wp_promoteLibrary (h : LegacyLayout t) (hread : ∀ t p, (env.readDir t p).Perm (t.list p))
    (hs : Stage env t audit₀ gone M s) :
    (promoteLibrary env (s.tree.isFile (legacyDefaultDb ""))).wp Event.NoError
      (Prog.Replies fun _ => LibraryPromoted env t audit₀) (Underway env t audit₀) s := by
  cases hfile : s.tree.isFile (legacyDefaultDb "") with
  | false =>
    refine wp_promoteLibrary_moved h hread hs ?_
    rw [hs.isFile_default h, Bool.not_eq_false'] at hfile
    exact hfile
  | true =>
    rw [promoteLibrary_exists]
    refine Prog.wp_bind_replies (wp_moveLibrary h hs empty_mem_suffixes hfile) ?_
    rintro - s' hs'
    exact wp_promoteLibrary_moved h hread hs' (add_self _ _)

theorem Stage.extraDatabases (h : LegacyLayout t) (hs : Stage env t audit₀ gone M s) :
    extraDatabases env s.tree = [] := by
  unfold Promote.extraDatabases
  split
  · rw [List.map_eq_nil_iff, List.filter_eq_nil_iff]
    intro name _ hname
    simp only [Bool.and_eq_true, decide_eq_true_eq] at hname
    obtain ⟨⟨hfile, hext⟩, hne⟩ := hname
    obtain ⟨c, hc⟩ := FileTree.isFile_iff.1 hfile
    obtain ⟨hr, -, -⟩ := (hs.row h (home_tenants _)).1 hc
    exact hne (h.extra _ hr rfl ⟨[name], rfl⟩ rfl name rfl hext)
  · rfl

/-! ### What is promoted -/

theorem promotedPath_unit (hp : legacyUnit p = some u) :
    promotedPath p = if isLegacy u then some (legacyTarget u ++ p.drop u.length) else none := by
  rw [promotedPath, hp]
  rfl

theorem promotedPath_other (hp : legacyUnit p = none) :
    promotedPath p = if p = legacyDir ∨ p = nestedDefault then none else some p := by
  rw [promotedPath, hp]
  rfl

theorem not_gone (h : LegacyLayout t) (hs : LegacyLayout.Spent gone) {n : FileNode β}
    (hr : (p, n) ∈ t.rows)
    (hp : legacyUnit p = none) (hdir : p ≠ legacyDir) (hnested : p ≠ nestedDefault) :
    gone p = false := by
  refine Bool.eq_false_iff.2 fun hg => ?_
  rcases hs p hg with rfl | rfl | rfl | ⟨name, hname, rfl⟩
  · exact hnested rfl
  · exact hdir rfl
  · exact h.retired _ hr rfl
  · cases (legacyUnit_index hname).symm.trans hp

theorem not_gone_of_legacy (hs : LegacyLayout.Spent gone) (hp : legacyUnit p = some u)
    (hl : isLegacy u = true) : gone p = false := by
  refine Bool.eq_false_iff.2 fun hg => ?_
  rcases hs p hg with rfl | rfl | rfl | ⟨name, hname, rfl⟩
  · cases hp
  · cases legacyUnit_legacyDir.symm.trans hp
  · cases hp
  · obtain rfl := Option.some.inj ((legacyUnit_index hname).symm.trans hp)
    rw [not_isLegacy_index hname] at hl
    cases hl

/-- A unit of the registry is a file of it. -/
theorem index_unit {n : FileNode β} (hr : (p, n) ∈ t.rows) (hp : legacyUnit p = some u)
    (hl : isLegacy u = false) :
    ∃ suffix ∈ suffixes, p = legacyIndex suffix ∧ u = legacyIndex suffix := by
  rcases legacyUnit_eq_some hp with ⟨name, hname, rfl, rfl⟩ | ⟨name, rest, -, -, rfl⟩ | ⟨entry,
    rest, -, rfl⟩
  · obtain ⟨suffix, hsuffix, heq⟩ := List.any_eq_true.1 hname
    obtain rfl := of_decide_eq_true heq
    exact ⟨suffix, hsuffix, rfl, rfl⟩
  · cases (isLegacy_tenants _).symm.trans hl
  · cases (isLegacy_tenants _).symm.trans hl

theorem Stage.promoted (h : LegacyLayout t) (hs : Stage env t audit₀ gone M s)
    (hall : ∀ u, moves.Unit t u → isLegacy u = true → M u = true)
    (hcleared : ∀ n, (nestedDefault, n) ∈ t.rows → gone nestedDefault = true)
    (htenants : gone legacyDir = true) (hret : Retired env t audit₀ gone M s.audit) :
    Promoted env t audit₀ s := by
  -- where a row of the tree comes from
  have hfrom {q : FilePath} {n : FileNode β} (hr : (q, n) ∈ t.rows) (hg : gone q = false)
      (hout : ¬ quarantineDir <+: moves.place M q) : promotedPath q = some (moves.place M q) := by
    cases hunit : legacyUnit q with
    | none =>
      have hdir : ¬ (q = legacyDir ∨ q = nestedDefault) := by
        rintro (rfl | rfl)
        · cases htenants.symm.trans hg
        · cases (hcleared n hr).symm.trans hg
      rw [promotedPath_other hunit, if_neg hdir, FileTree.place_none hunit]
    | some u =>
      have hu : moves.Unit t u := ⟨_, hr, hunit⟩
      cases hl : isLegacy u with
      | true =>
        rw [promotedPath_unit hunit, if_pos hl, FileTree.place_moved hunit (hall u hu hl)]
        rfl
      | false =>
        obtain ⟨suffix, hsuffix, rfl, rfl⟩ := index_unit hr hunit hl
        rcases hret.files suffix hsuffix n hr with hgone | hM
        · cases hgone.symm.trans hg
        · refine absurd ?_ hout
          rw [FileTree.place_moved hunit hM]
          exact ⟨_, rfl⟩
  refine ⟨fun p n hp => ?_, fun rows hrows => ⟨hret.rows rows hrows, ?_⟩, fun hnone => ?_⟩
  · rw [hs.tree, treeAt, FileTree.mem_moved]
    constructor
    · rintro ⟨r, hr, heq⟩
      obtain ⟨rfl, rfl⟩ := Prod.mk.inj heq
      obtain ⟨hr, hg⟩ := FileTree.mem_without.1 hr
      rcases LegacyLayout.mem_withRetired.1 hr with hr | rfl
      · exact ⟨r, hr, hfrom hr hg hp, rfl⟩
      · exact absurd (by rw [place_retired]) hp
    · rintro ⟨⟨q, n⟩, hr, hq, rfl⟩
      refine ⟨(q, n), FileTree.mem_without.2 ⟨LegacyLayout.mem_withRetired.2 (.inl hr), ?_⟩,
        Prod.ext ?_ rfl⟩
      · cases hunit : legacyUnit q with
        | none =>
          rw [promotedPath_other hunit] at hq
          obtain ⟨hdir, -⟩ := Option.ite_none_left_eq_some.1 hq
          exact not_gone h hs.spent hr hunit (fun heq => hdir (.inl heq)) fun heq => hdir (.inr heq)
        | some u =>
          rw [promotedPath_unit hunit] at hq
          exact not_gone_of_legacy hs.spent hunit (Option.ite_none_right_eq_some.1 hq).1
      · cases hunit : legacyUnit q with
        | none =>
          rw [promotedPath_other hunit] at hq
          rw [FileTree.place_none hunit]
          exact Option.some.inj (Option.ite_none_left_eq_some.1 hq).2
        | some u =>
          rw [promotedPath_unit hunit] at hq
          obtain ⟨hl, hq⟩ := Option.ite_none_right_eq_some.1 hq
          rw [FileTree.place_moved hunit (hall u ⟨_, hr, hunit⟩ hl)]
          exact Option.some.inj hq
  · -- nothing was quarantined
    rcases hs.index with ⟨rows', -, hi⟩ | ⟨hnone, -⟩
    · intro r hr hp
      rw [hs.tree, treeAt, FileTree.mem_moved] at hr
      obtain ⟨⟨q, n⟩, hr, rfl⟩ := hr
      obtain ⟨hr, hg⟩ := FileTree.mem_without.1 hr
      rcases LegacyLayout.mem_withRetired.1 hr with hr | heq
      · rcases FileTree.place_cases moves M q with hsame | ⟨u, hunit, hM, hmoved⟩
        · have hp' : quarantineDir <+: q := by rwa [← hsame]
          obtain ⟨rest, rfl⟩ := hp'
          exact h.retired _ hr rfl
        · have hu : moves.Unit t u := ⟨_, hr, hunit⟩
          rcases target_cases hu with ⟨hl, name, ht⟩ | ⟨name, hname, rfl, -⟩
          · have hp' : quarantineDir <+: legacyTarget u ++ q.drop u.length := hmoved ▸ hp
            rw [ht] at hp'
            exact (h.clear_of_unit hu hl ht).2.1 (List.cons_prefix_cons.1 hp').1.symm
          · obtain ⟨suffix, hsuffix, heq⟩ := List.any_eq_true.1 hname
            obtain rfl := of_decide_eq_true heq
            cases (hi.unmoved suffix hsuffix).symm.trans hM
      · obtain ⟨rfl, -⟩ := Prod.mk.inj heq
        cases hi.unquarantined.symm.trans hg
    · cases hnone.symm.trans hrows
  · rcases hs.index with ⟨rows', hrows', -⟩ | ⟨-, hi⟩
    · cases hnone.symm.trans hrows'
    · refine ⟨hi.audit, fun c hc => ?_⟩
      have hu : moves.Unit t (legacyIndex "") := ⟨_, hc, legacyUnit_legacyIndex empty_mem_suffixes⟩
      rw [hs.tree]
      exact LegacyLayout.mem_target hc hu hi.main (hret.main hnone)

/-- From every stage an attempt that is not cut ends with everything promoted. -/
theorem wp_migrate (h : LegacyLayout t) (hread : ∀ t p, (env.readDir t p).Perm (t.list p))
    (hopen : ∀ c, (legacyDefaultDb "", .file c) ∈ t.rows → env.openLibrary c = .ok ())
    (hs : Stage env t audit₀ gone M s) : (migrateLegacyDefaultLibrary env).wp Event.NoError
      (Prog.Replies fun _ s' => Promoted env t audit₀ s' ∧ Underway env t audit₀ s')
      (Underway env t audit₀) s := by
  have hroot := hs.isFile_root h
  have hdefault := hs.isFile_default h
  refine Prog.wp_get_bind.2 (wp_rejectIf ?_ ?_)
  · rw [hroot, hdefault]
    simp
  · rw [if_neg (by rw [hroot, hdefault]; simp)]
    refine wp_rejectIf (by rw [hs.extraDatabases h]; simp) (Prog.wp_ofExcept_bind (b := ()) ?_ ?_)
    · split
      · next hfile =>
        obtain ⟨c, hc⟩ := FileTree.isFile_iff.1 hfile
        exact openAt_of_mem h hs hc (hopen c ((hs.row h (home_tenants _)).1 hc).1)
      · rfl
    · refine Prog.wp_bind_replies (wp_promoteLibrary h hread hs) ?_
      rintro promoted s₁ ⟨gone₁, M₁, hs₁, hall, hcleared⟩
      obtain ⟨c, hc⟩ := FileTree.isFile_iff.1 h.library
      have hu := unit_library h
      have hlibrary : (rootDb "", .file c) ∈ s₁.tree.rows := by
        rw [hs₁.tree, ← (legacyDefaultDb_unit empty_mem_suffixes).2]
        exact LegacyLayout.mem_target hc hu
          (LegacyLayout.kept_of_legacy hs₁.spent hu (isLegacy_tenants _))
          (hall _ hu (isLegacy_tenants _))
      refine Prog.wp_get_bind.2 ?_
      refine Prog.wp_bind_replies
        (wp_retireLegacyIndex h hs₁ (openAt_of_mem h hs₁ hlibrary (hopen c hc))) ?_
      rintro - s₂ ⟨gone₂, M₂, hg₂, hM₂, hs₂, hret⟩
      have hall₂ : ∀ u, moves.Unit t u → isLegacy u = true → M₂ u = true :=
        fun u hu hl => hM₂ u (hall u hu hl)
      have hcleared₂ : ∀ n, (nestedDefault, n) ∈ t.rows → gone₂ nestedDefault = true := fun n hn =>
        hg₂ _ (by simp [nestedDefault, quarantineDir]) (hcleared n hn)
      have hnested : ∀ u, moves.Unit t u → nestedDefault <+: u → M₂ u = true := by
        intro u hu hp
        obtain ⟨entry, rfl⟩ := nested_unit hu hp
        exact hall₂ _ hu (isLegacy_tenants _)
      refine Prog.wp_bind_replies (wp_removeEmptied h hs₂ (.inr rfl)
        hnested (fun _ => hall₂) (hs₂.tenants_empty h hall₂ hcleared₂)) ?_
      rintro - s₃ ⟨gone₃, hg₃, hs₃, hdir, haudit⟩
      have hret₃ : Retired env t audit₀ gone₃ M₂ s₃.audit := by
        rw [haudit]
        exact ⟨fun suffix hsuffix n hn => (hret.files suffix hsuffix n hn).imp_left (hg₃ _),
          hret.rows, hret.main⟩
      exact ⟨_, rfl, hs₃.promoted h hall₂ (fun n hn => hg₃ _ (hcleared₂ n hn))
        (hdir _ (isDir_tenants h)) hret₃, gone₃, M₂, hs₃⟩

/-- Before the first attempt. -/
theorem stage_start (env : PromoteEnv β) (h : LegacyLayout t) (audit₀ : Table AdminAuditRow) :
    Stage env t audit₀ (fun p => p = quarantineDir) (fun _ => false) ⟨t, audit₀⟩ := by
  refine ⟨?_, fun p hp => .inr (.inr (.inl (of_decide_eq_true hp))), fun hg => ?_, fun hg => ?_, ?_⟩
  · have hrows : t.rows.filter (fun r => !decide (r.1 = quarantineDir)) = t.rows := by
      refine List.filter_eq_self.2 fun r hr => ?_
      rw [decide_eq_false]
      · rfl
      · rintro hp
        exact h.retired r hr (by rw [hp]; rfl)
    rw [treeAt, FileTree.moved_none]
    simp [withRetired, FileTree.without, List.filter_append, hrows]
  · exact absurd (of_decide_eq_true hg) (by simp [nestedDefault, quarantineDir])
  · exact absurd (of_decide_eq_true hg) (by decide)
  · have hmain : decide (legacyIndex "" = quarantineDir) = false := by decide
    cases hrows : indexRows env t with
    | some rows =>
      refine .inl ⟨rows, rfl, fun _ _ => rfl, decide_eq_true rfl, 0, rfl, fun hg => ?_⟩
      cases hmain.symm.trans hg
    | none =>
      refine .inr ⟨rfl, rfl, hmain, fun _ _ hM => ?_⟩
      cases hM

/-- Any number of attempts, each cut short at some operation or not, and then one that is not:
everything is promoted. -/
theorem promotion_completes (env : PromoteEnv β) (t : FileTree β) (audit₀ : Table AdminAuditRow)
    (attempts : List (List Crash.Event)) (h : LegacyLayout t)
    (hread : ∀ t p, (env.readDir t p).Perm (t.list p))
    (hopen : ∀ c, (legacyDefaultDb "", .file c) ∈ t.rows → env.openLibrary c = .ok ())
    (hcuts : ∀ es ∈ attempts, ∀ e ∈ es, e.NoError) :
    ∃ changed s, (migrateLegacyDefaultLibrary env).run []
      (attempts.foldl (fun s es => ((migrateLegacyDefaultLibrary env).run es s).2) ⟨t, audit₀⟩) =
      (some (.ok changed), s) ∧ Promoted env t audit₀ s := by
  have hattempt {es : List Crash.Event} (hes : ∀ e ∈ es, e.NoError) {s : DataDir β}
      (hs : Underway env t audit₀ s) :
      Underway env t audit₀ ((migrateLegacyDefaultLibrary env).run es s).2 := by
    obtain ⟨gone, M, hs⟩ := hs
    have hrun := Prog.wp_run (wp_migrate h hread hopen hs) hes
    split at hrun
    · next r s' heq =>
      obtain ⟨-, -, -, hs'⟩ := hrun
      rwa [heq]
    · next s' heq => rwa [heq]
  have hstart : Underway env t audit₀ ⟨t, audit₀⟩ := ⟨_, _, stage_start env h audit₀⟩
  obtain ⟨gone, M, hs⟩ := List.foldlRecOn (motive := Underway env t audit₀) attempts _ hstart
    fun s hs es hes => hattempt (hcuts es hes) hs
  obtain ⟨r, s', hrun⟩ := Prog.run_nil (migrateLegacyDefaultLibrary env)
    (attempts.foldl (fun s es => ((migrateLegacyDefaultLibrary env).run es s).2) ⟨t, audit₀⟩)
  obtain ⟨changed, rfl, hpromoted, -⟩ := Prog.wp_reply (wp_migrate h hread hopen hs) (by simp) hrun
  exact ⟨changed, s', hrun, hpromoted⟩

end Runs

/-- A library with a `-wal` and an index beside it, and a registry. -/
def smallTree : FileTree ℕ :=
  ⟨[(["config.toml"], .file 0), (["tenants"], .dir), (["tenants", "default.db"], .file 1),
  (["tenants", "default.db-wal"], .file 2), (["tenants", "default"], .dir),
  (["tenants", "default", "hnsw_episodes.hnsw.data"], .file 3), (["tenants_index.db"], .file 4)]⟩

def smallEnv : PromoteEnv ℕ where
  display p := "/".intercalate p
  osError := "interrupted"
  readDir t p := t.list p
  openLibrary _ := .ok ()
  readLegacyAdminAuditRows _ := .ok [⟨1, 7, none, "create", some "default", "ok", none⟩]

theorem smallTree_layout : LegacyLayout smallTree where
  nodup := by decide
  closed := by decide
  leaf := by decide
  library := by decide
  sidecars := by decide
  index := by decide
  nested := by decide
  nestedLibrary := by decide
  extra := by decide
  clear := by decide
  distinct := by decide
  retired := by decide

/-- The process dies after the library is moved, and then after the `-wal` is. -/
theorem smallTree_promoted : ∃ changed s, (migrateLegacyDefaultLibrary smallEnv).run []
    ([[.cut 1], [.ok, .cut 0]].foldl
      (fun s es => ((migrateLegacyDefaultLibrary smallEnv).run es s).2)
      ⟨smallTree, .empty⟩) = (some (.ok changed), s) ∧ Promoted smallEnv smallTree .empty s :=
  promotion_completes smallEnv smallTree .empty [[.cut 1], [.ok, .cut 0]]
    smallTree_layout (fun _ _ => .refl _) (fun _ _ => rfl) (by simp [Event.NoError])

end Promote

end Solo
