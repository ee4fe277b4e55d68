import Mathlib.Data.List.ReduceOption
import Solo.Derived.Erasure

/-!
# Retries of an erasure (`gdpr.rs`, `gdpr_assets.rs`)

Files are removed before the commit. A removal that fails rolls the statements back, and leaves the
database halfway: all rows, and some of the files in scope gone. `erase_retry`: whatever attempts
came before, an erasure that nothing disturbs ends as the first one would have.
-/

namespace Solo

namespace Database

section Retry

variable {db : Database} {p : String}

/-- Nothing of the principal is left. -/
structure Clean (p : String) (db : Database) : Prop where
  episodes : ∀ e ∈ db.store.episodes, mine p e = false
  chunks : ∀ c ∈ db.store.documentChunks, mineChunk p c = false
  assets : ∀ a ∈ db.originals.assets, a.createdByPrincipal ≠ some p

theorem clean_eraseRows (hrefs : References db) : Clean p (db.eraseRows p) := by
  have herased := erased_eraseRows (p := p) hrefs
  refine ⟨fun e he => ?_, fun c hc => ?_, fun a ha hp => ?_⟩
  · rw [herased.episodes] at he
    exact (Table.mem_deleteWhere.1 he).2
  · rw [herased.chunks] at hc
    exact (Table.mem_deleteWhere.1 hc).2
  · rw [herased.assets] at ha
    have hkept := (Table.mem_deleteWhere.1 ha).2
    unfold forgetsAsset at hkept
    rw [decide_eq_true hp, Bool.true_or, Bool.true_or] at hkept
    cases hkept

namespace Clean

variable (h : Clean p db)

include h

theorem mineRowid : db.mineRowid p = fun _ => false := by
  funext r
  refine List.any_eq_false.2 fun e he hboth => ?_
  rw [h.episodes e he] at hboth
  cases hboth

theorem mineMemory : db.mineMemory p = fun _ => false := by
  funext m
  refine List.any_eq_false.2 fun e he hboth => ?_
  rw [h.episodes e he] at hboth
  cases hboth

theorem forgetsDocument : db.forgetsDocument p = fun _ => false := by
  funext d
  have hchunk : (db.store.documentChunks.rows.any fun c => c.docId = d.docId && mineChunk p c) =
      false := by
    refine List.any_eq_false.2 fun c hc hboth => ?_
    rw [h.chunks c hc, Bool.and_false] at hboth
    cases hboth
  have hasset :
      (db.documentAssets.rows.any fun da => da.docId = d.docId &&
        db.originals.assets.rows.any fun a =>
      a.assetId = da.assetId && a.createdByPrincipal = some p) = false := by
    refine List.any_eq_false.2 fun da _ hboth => ?_
    obtain ⟨a, ha, hby⟩ := List.any_eq_true.1 (Bool.and_eq_true_iff.1 hboth).2
    exact h.assets a ha (of_decide_eq_true (Bool.and_eq_true_iff.1 hby).2)
  unfold Database.forgetsDocument
  rw [hchunk, hasset]
  rfl

theorem forgetsDocId : db.forgetsDocId p = fun _ => false := by
  funext id
  unfold Database.forgetsDocId
  rw [h.forgetsDocument]
  exact List.any_eq_false.2 fun d _ hboth => by cases hboth

theorem forgetsAsset {a : AssetRow} (ha : a ∈ db.originals.assets) :
    db.forgetsAsset p a = false := by
  unfold Database.forgetsAsset
  rw [h.forgetsDocId, h.mineMemory, decide_eq_false (h.assets a ha)]
  simp

theorem mineChunkId : db.mineChunkId p = fun _ => false := by
  funext id
  refine List.any_eq_false.2 fun c hc hboth => ?_
  rw [h.chunks c hc] at hboth
  cases hboth

theorem forgetsTriple : db.forgetsTriple p = fun _ => false := by
  funext id
  unfold Database.forgetsTriple
  rw [h.mineRowid, h.mineMemory, h.mineChunkId, h.forgetsDocId]
  simp

theorem eraseStore : db.eraseStore p = db.store := by
  unfold Database.eraseStore
  rw [Store.deleteEpisodes_eq_self h.episodes, Store.deleteChunks_eq_self h.chunks,
    Store.deleteDocuments_eq_self]
  rw [h.forgetsDocument]
  exact fun _ _ => rfl

theorem forgetsClaim : db.forgetsClaim p = fun _ => false := by
  funext c
  unfold Database.forgetsClaim
  rw [h.mineRowid, h.mineChunkId, h.forgetsDocId, h.forgetsTriple]
  simp

theorem forgetsReview : db.forgetsReview p = fun _ => false := by
  funext r
  unfold Database.forgetsReview
  rw [h.mineRowid, h.forgetsTriple]
  simp

theorem forgetsEdge : db.forgetsEdge p = fun _ => false := by
  funext id
  unfold Database.forgetsEdge
  rw [h.forgetsTriple]
  exact List.any_eq_false.2 fun v _ hboth => by simp at hboth

theorem deleteDerived : db.deleteDerived p db.derived = db.derived := by
  unfold Database.deleteDerived
  rw [h.forgetsClaim, h.forgetsReview, h.mineMemory, Table.deleteWhere_eq_self fun _ _ => rfl,
    Table.deleteWhere_eq_self fun _ _ => rfl, Table.deleteWhere_eq_self fun _ _ => ?_]
  exact List.any_eq_false.2 fun m _ hboth => by simp at hboth

theorem deleteTriples :
    (db.derived.deleteTriples fun t => db.forgetsTriple p t.tripleId) = db.derived := by
  have hnone : (fun v : EvidenceRow => db.derived.triples.rows.any fun t =>
      db.forgetsTriple p t.tripleId && t.tripleId = v.tripleId) = fun _ => false := by
    funext v
    rw [h.forgetsTriple]
    exact List.any_eq_false.2 fun t _ hboth => by simp at hboth
  have hevidence : db.derived.deleteEvidence (fun _ => false) = db.derived := by
    unfold Derived.deleteEvidence
    dsimp only
    rw [Table.deleteWhere_eq_self fun _ _ => rfl, Table.deleteWhere_eq_self]
    · rw [Table.updateWhere_eq_self]
      simp
    · simp
  unfold Derived.deleteTriples
  rw [hnone, hevidence, h.forgetsTriple, Table.deleteWhere_eq_self fun _ _ => rfl]

theorem dropUnsupported : db.dropUnsupported p db.derived = db.derived := by
  unfold Database.dropUnsupported
  simp only [h.forgetsEdge, Bool.false_and]
  rw [Table.deleteWhere_eq_self fun _ _ => rfl, Table.updateWhere_eq_self]
  simp

theorem eraseDerived : db.eraseDerived p = db.derived := by
  have hnever {α : Type} {o : Option α} : o.any (fun _ => false) = false := by cases o <;> rfl
  have herase :
      db.eraseDerived p = db.cascadeDocuments p (db.cascadeEpisodes p (db.dropUnsupported p
      ((db.deleteDerived p db.derived).deleteTriples fun t => db.forgetsTriple p t.tripleId))) :=
      rfl
  have hdocuments (d : Derived) : db.cascadeDocuments p d = d := by
    unfold cascadeDocuments
    rw [losesChunk_eq, h.mineChunkId, h.forgetsDocId]
    simp only [hnever]
    rw [Table.updateWhere_eq_self, Table.updateWhere_eq_self, Table.updateWhere_eq_self,
      Table.updateWhere_eq_self]
    all_goals simp
  rw [herase, h.deleteDerived, h.deleteTriples, h.dropUnsupported, hdocuments]
  unfold cascadeEpisodes
  rw [h.mineRowid, h.mineMemory]
  simp only [hnever]
  rw [Table.deleteWhere_eq_self fun _ _ => rfl, Table.updateWhere_eq_self,
    Table.updateWhere_eq_self,
    Table.updateWhere_eq_self, Table.updateWhere_eq_self, Table.updateWhere_eq_self]
  all_goals simp

theorem eraseRows_eq_self : db.eraseRows p = db := by
  have hid : db.forgetsAssetId p = fun _ => false := by
    funext id
    refine List.any_eq_false.2 fun a ha hboth => ?_
    rw [h.forgetsAsset ha] at hboth
    cases hboth
  have hlinks :
      (db.documentAssets.deleteWhere fun da => db.forgetsDocId p da.docId ||
        db.forgetsAssetId p da.assetId) =
      db.documentAssets := by
    refine Table.deleteWhere_eq_self fun da _ => ?_
    rw [h.forgetsDocId, hid]
    rfl
  have htarget : db.forgetsTarget p = fun _ => false := by
    funext t
    cases t with
    | document id => exact congrFun h.forgetsDocId id
    | asset id => exact congrFun hid id
  have hattachments : (db.memoryAttachments.deleteWhere fun ma =>
      db.mineMemory p ma.memoryId || db.forgetsTarget p ma.target) = db.memoryAttachments := by
    refine Table.deleteWhere_eq_self fun ma _ => ?_
    rw [h.mineMemory, htarget]
    rfl
  have hreviews : (db.memoryReviews.deleteWhere fun r => db.mineMemory p r.memoryId) =
      db.memoryReviews :=
    Table.deleteWhere_eq_self fun r _ => by rw [h.mineMemory]
  have hextractions : (db.assetExtractions.deleteWhere fun x => db.forgetsAssetId p x.assetId) =
      db.assetExtractions :=
    Table.deleteWhere_eq_self fun x _ => by rw [hid]
  unfold eraseRows
  rw [hreviews, hextractions, h.eraseStore, h.eraseDerived, Table.deleteWhere_eq_self fun a ha =>
    h.forgetsAsset ha, hlinks, hattachments]
  rfl

/-- Another erasure finds nothing to do. -/
theorem erase_eq_self (hblank : Text.isBlank p = false) (fails : BlobPath → Bool) :
    db.erase p fails = (db, .ok (db.eraseOutcome p)) := by
  have hscoped : db.scopedAssets p = [] :=
    List.filter_eq_nil_iff.2 fun a ha => by rw [h.forgetsAsset ha]; decide
  have hshared : db.shared p = false := by
    refine List.any_eq_false.2 fun a ha hboth => ?_
    rw [h.forgetsAsset ha] at hboth
    cases hboth
  have hprepare : db.prepare p = .ok [] := by
    unfold prepare
    rw [hshared, hscoped]
    rfl
  unfold erase
  rw [if_neg (by rw [hblank]; decide), hprepare, h.eraseRows_eq_self]
  rfl

end Clean

/-! #### The files -/

/-- The file names that an original in scope has. -/
def InScope (db : Database) (p : String) (b : BlobPath) : Prop :=
  ∃ a ∈ db.scopedAssets p, b = .final a.storagePath

theorem removeFiles_spec (fails : BlobPath → Bool) (paths : List BlobPath) (o : AssetStore) :
    (removeFiles fails paths o).1.assets = o.assets ∧
    (∀ b, (removeFiles fails paths o).1.files b = o.files b ∨
      b ∈ paths ∧ (removeFiles fails paths o).1.files b = none) ∧
    ((removeFiles fails paths o).2 = .ok () → ∀ b ∈ paths, (removeFiles fails paths o).1.files b =
      none) := by
  induction paths generalizing o with
  | nil => exact ⟨rfl, fun b => .inl rfl, fun _ b hb => absurd hb List.not_mem_nil⟩
  | cons b bs ih =>
    unfold removeFiles
    by_cases hmissing : (o.files b).isNone = true
    · rw [if_pos hmissing]
      obtain ⟨hassets, hfiles, hall⟩ := ih o
      refine ⟨hassets, fun c => (hfiles c).imp_right fun hc => ⟨List.mem_cons_of_mem _ hc.1, hc.2⟩,
        fun hok c hc => ?_⟩
      rcases List.mem_cons.1 hc with rfl | hc
      · rcases hfiles c with hsame | hgone
        · rw [hsame]
          exact Option.isNone_iff_eq_none.1 hmissing
        · exact hgone.2
      · exact hall hok c hc
    · rw [if_neg hmissing]
      by_cases hfails : fails b = true
      · rw [if_pos hfails]
        exact ⟨rfl, fun c => .inl rfl, fun hok => by cases hok⟩
      · rw [if_neg hfails]
        obtain ⟨hassets, hfiles, hall⟩ := ih (o.setFile b none)
        have hgone : (removeFiles fails bs (o.setFile b none)).1.files b = none := by
          rcases hfiles b with hsame | hgone
          · rw [hsame, AssetStore.setFile_files, if_pos rfl]
          · exact hgone.2
        refine ⟨hassets, fun c => ?_, fun hok c hc => ?_⟩
        · by_cases hcb : c = b
          · exact .inr ⟨hcb ▸ List.mem_cons_self, hcb ▸ hgone⟩
          · rcases hfiles c with hsame | hc
            · rw [AssetStore.setFile_files, if_neg hcb] at hsame
              exact .inl hsame
            · exact .inr ⟨List.mem_cons_of_mem _ hc.1, hc.2⟩
        · rcases List.mem_cons.1 hc with rfl | hc
          · exact hgone
          · exact hall hok c hc

theorem removeFiles_never (paths : List BlobPath) (o : AssetStore) :
    (removeFiles (fun _ => false) paths o).2 = .ok () := by
  induction paths generalizing o with
  | nil => rfl
  | cons b bs ih =>
    unfold removeFiles
    split
    · exact ih o
    · exact ih _

/-- The path of an original checks out. -/
def Checked (a : AssetRow) : Prop :=
  safeAssetStoragePath a.storagePath = .ok () ∧ (pathComponents a.storagePath).getLast? =
    some a.sha256

def presentFile (files : BlobPath → Option (List UInt8)) (a : AssetRow) : Option BlobPath :=
  if (files (.final a.storagePath)).isSome then some (.final a.storagePath) else none

theorem checkOriginal_of_checked {files : BlobPath → Option (List UInt8)} {a : AssetRow}
    (h : Checked a) : checkOriginal files a = .ok (presentFile files a) := by
  unfold checkOriginal
  rw [h.1, h.2]
  simp only [ne_eq, not_true_eq_false, if_false]
  rfl

theorem checked_of_ok {files : BlobPath → Option (List UInt8)} {a : AssetRow} {o : Option BlobPath}
    (h : checkOriginal files a = .ok o) : Checked a := by
  unfold checkOriginal at h
  cases hsafe : safeAssetStoragePath a.storagePath with
  | error e =>
    rw [hsafe] at h
    cases h
  | ok u =>
    rw [hsafe] at h
    refine ⟨hsafe, ?_⟩
    by_contra hname
    rw [if_pos hname] at h
    cases h

theorem mapM_checkOriginal {files : BlobPath → Option (List UInt8)} {rows : List AssetRow} :
    (∀ a ∈ rows, Checked a) →
    rows.mapM (checkOriginal files) = .ok (rows.map (presentFile files)) := by
  intro h
  induction rows with
  | nil => rfl
  | cons a rows ih =>
    rw [List.mapM_cons, checkOriginal_of_checked (h a List.mem_cons_self),
      ih fun a ha => h a (List.mem_cons_of_mem _ ha)]
    rfl

theorem checked_of_mapM {files : BlobPath → Option (List UInt8)} {rows : List AssetRow}
    {opts : List (Option BlobPath)}
    (h : rows.mapM (checkOriginal files) = .ok opts) : ∀ a ∈ rows, Checked a := by
  induction rows generalizing opts with
  | nil => exact fun a ha => absurd ha List.not_mem_nil
  | cons a rows ih =>
    rw [List.mapM_cons] at h
    cases hfirst : checkOriginal files a with
    | error e =>
      rw [hfirst] at h
      cases h
    | ok o =>
      rw [hfirst] at h
      cases hrest : rows.mapM (checkOriginal files) with
      | error e =>
        rw [hrest] at h
        cases h
      | ok os =>
        intro b hb
        rcases List.mem_cons.1 hb with rfl | hb
        · exact checked_of_ok hfirst
        · exact ih hrest b hb

theorem prepare_eq_ok {paths : List BlobPath} : db.prepare p = .ok paths ↔
    (db.shared p = false ∧ ∀ a ∈ db.scopedAssets p, Checked a) ∧
      paths = ((db.scopedAssets p).map (presentFile db.originals.files)).reduceOption := by
  unfold prepare
  by_cases hshared : db.shared p = true
  · rw [if_pos hshared]
    simp [hshared]
  · rw [if_neg hshared]
    rw [Bool.not_eq_true] at hshared
    constructor
    · intro h
      cases hrows : (db.scopedAssets p).mapM (checkOriginal db.originals.files) with
      | error e =>
        rw [hrows] at h
        cases h
      | ok opts =>
        have hchecked := checked_of_mapM hrows
        rw [mapM_checkOriginal hchecked] at h
        exact ⟨⟨hshared, hchecked⟩, (Except.ok.inj h).symm⟩
    · rintro ⟨⟨-, hchecked⟩, rfl⟩
      rw [mapM_checkOriginal hchecked]
      rfl

/-! #### Attempts -/

def withFiles (db : Database) (files : BlobPath → Option (List UInt8)) : Database :=
  { db with originals := { db.originals with files := files } }

/-- Some files of originals in scope have been removed. -/
def Halfway (p : String) (db db' : Database) : Prop :=
  ∃ files, db' = db.withFiles files ∧
    ∀ b, files b = db.originals.files b ∨ files b = none ∧ InScope db p b

/-- All of them have been, and the statements are done. -/
def Done (p : String) (db db' : Database) : Prop :=
  ∃ files, db' = (db.eraseRows p).withFiles files ∧
    ∀ b, (InScope db p b → files b = none) ∧ (¬ InScope db p b → files b = db.originals.files b)

theorem Done.unique {db₁ db₂ : Database} (h₁ : Done p db db₁) (h₂ : Done p db db₂) : db₁ = db₂ := by
  obtain ⟨files₁, rfl, hfiles₁⟩ := h₁
  obtain ⟨files₂, rfl, hfiles₂⟩ := h₂
  refine congrArg _ (funext fun b => ?_)
  by_cases hb : InScope db p b
  · rw [(hfiles₁ b).1 hb, (hfiles₂ b).1 hb]
  · rw [(hfiles₁ b).2 hb, (hfiles₂ b).2 hb]

theorem Halfway.refl : Halfway p db db := ⟨db.originals.files, rfl, fun _ => .inl rfl⟩

/-- Nothing but the files tells a database halfway from the first one. -/
theorem Halfway.done {db₁ db₂ : Database} (h : Halfway p db db₁) (hdone : Done p db₁ db₂) :
    Done p db db₂ := by
  obtain ⟨files, rfl, hfiles⟩ := h
  obtain ⟨files', rfl, hfiles'⟩ := hdone
  refine ⟨files', rfl, fun b => ⟨(hfiles' b).1, fun hb => ?_⟩⟩
  rw [(hfiles' b).2 hb]
  exact (hfiles b).resolve_right fun hgone => hb hgone.2

theorem Halfway.trans {db₁ db₂ : Database} (h : Halfway p db db₁) (h' : Halfway p db₁ db₂) :
    Halfway p db db₂ := by
  obtain ⟨files, rfl, hfiles⟩ := h
  obtain ⟨files', rfl, hfiles'⟩ := h'
  refine ⟨files', rfl, fun b => (hfiles' b).elim (fun hsame => ?_) .inr⟩
  rw [hsame]
  exact hfiles b

theorem mem_presentFiles {b : BlobPath} :
    b ∈ ((db.scopedAssets p).map (presentFile db.originals.files)).reduceOption ↔
      InScope db p b ∧ (db.originals.files b).isSome = true := by
  rw [List.reduceOption_mem_iff, List.mem_map]
  constructor
  · rintro ⟨a, ha, hfile⟩
    unfold presentFile at hfile
    rw [Option.ite_none_right_eq_some] at hfile
    obtain ⟨hsome, hb⟩ := hfile
    obtain rfl := Option.some.inj hb
    exact ⟨⟨a, ha, rfl⟩, hsome⟩
  · rintro ⟨⟨a, ha, rfl⟩, hsome⟩
    exact ⟨a, ha, if_pos hsome⟩

/-- An attempt that gets to the files stops halfway at a removal that fails, or is done. -/
theorem erase_of_prepared (hblank : Text.isBlank p = false) (hshared : db.shared p = false)
    (hchecked : ∀ a ∈ db.scopedAssets p, Checked a) (fails : BlobPath → Bool) :
    ((∃ e, (db.erase p fails).2 = .error e) ∧ (∃ b, fails b = true) ∧
      Halfway p db (db.erase p fails).1) ∨
      (db.erase p fails).2 = .ok (db.eraseOutcome p) ∧ Done p db (db.erase p fails).1 := by
  have hprepare := prepare_eq_ok.2 ⟨⟨hshared, hchecked⟩, rfl⟩
  obtain ⟨hassets, hfiles, hall⟩ := removeFiles_spec fails
    ((db.scopedAssets p).map (presentFile db.originals.files)).reduceOption db.originals
  unfold erase
  rw [if_neg (by rw [hblank]; decide), hprepare]
  dsimp only
  cases hrun :
    removeFiles fails ((db.scopedAssets p).map (presentFile db.originals.files)).reduceOption
    db.originals with
  | mk o reply =>
    rw [hrun] at hassets hfiles hall
    cases reply with
    | error e =>
      refine .inl ⟨⟨e, rfl⟩, ?_, o.files, ?_, fun b => (hfiles b).imp_right fun hb =>
        ⟨hb.2, (mem_presentFiles.1 hb.1).1⟩⟩
      · by_contra hnever
        have hfails : fails = fun _ => false :=
          funext fun b => Bool.eq_false_iff.2 fun hb => hnever ⟨b, hb⟩
        have hok :=
          removeFiles_never ((db.scopedAssets p).map (presentFile db.originals.files)).reduceOption
          db.originals
        rw [← hfails, hrun] at hok
        cases hok
      · have ho : o = { db.originals with files := o.files } := by
          cases o
          exact congrArg₂ AssetStore.mk hassets rfl
        unfold withFiles
        rw [← ho]
    | ok u =>
      refine .inr ⟨rfl, o.files, rfl, fun b => ⟨fun hb => ?_, fun hb => ?_⟩⟩
      · by_cases hsome : (db.originals.files b).isSome = true
        · exact hall rfl b (mem_presentFiles.2 ⟨hb, hsome⟩)
        · rw [Bool.not_eq_true, Option.isSome_eq_false_iff, Option.isNone_iff_eq_none] at hsome
          rcases hfiles b with hsame | hgone
          · rw [hsame, hsome]
          · exact hgone.2
      · exact (hfiles b).resolve_right fun hgone => hb (mem_presentFiles.1 hgone.1).1

/-- However many attempts have failed or succeeded before, an undisturbed erasure ends as if it were
the first. -/
theorem erase_retry (hrefs : References db) {db' : Database} {o : DeleteOutcome}
    (h : db.erase p (fun _ => false) = (db', .ok o)) (attempts : List (BlobPath → Bool)) :
    ∃ o', ((attempts.foldl (fun db fails => (db.erase p fails).1) db).erase p fun _ => false) =
    (db', .ok o') := by
  have hblank : Text.isBlank p = false := by
    by_contra hblank
    unfold erase at h
    rw [if_pos (Bool.not_eq_false _ ▸ hblank)] at h
    cases h
  have hready : db.shared p = false ∧ ∀ a ∈ db.scopedAssets p, Checked a := by
    cases hprepare : db.prepare p with
    | error e =>
      unfold erase at h
      rw [if_neg (by rw [hblank]; decide), hprepare] at h
      cases h
    | ok paths => exact (prepare_eq_ok.1 hprepare).1
  have hstep {s : Database} (hs : Halfway p db s) (fails : BlobPath → Bool) :
      ((∃ b, fails b = true) ∧ Halfway p db (s.erase p fails).1) ∨
        (∃ o', (s.erase p fails).2 = .ok o') ∧ Done p db (s.erase p fails).1 := by
    have hready' : s.shared p = false ∧ ∀ a ∈ s.scopedAssets p, Checked a := by
      obtain ⟨files, rfl, -⟩ := hs
      exact hready
    rcases erase_of_prepared hblank hready'.1 hready'.2 fails with ⟨-, hfails, hhalf⟩ | ⟨hok, hdone⟩
    · exact .inl ⟨hfails, hs.trans hhalf⟩
    · exact .inr ⟨⟨_, hok⟩, hs.done hdone⟩
  have hfirst : Done p db db' := by
    rcases hstep .refl (fun _ => false) with ⟨⟨b, hb⟩, -⟩ | ⟨-, hdone⟩
    · cases hb
    · rwa [h] at hdone
  have hclean : Clean p db' := by
    obtain ⟨files, rfl, -⟩ := hfirst
    have hrows := clean_eraseRows (p := p) hrefs
    exact ⟨hrows.episodes, hrows.chunks, hrows.assets⟩
  -- after any attempts the database is halfway or done
  have hattempts : Halfway p db (attempts.foldl (fun db fails => (db.erase p fails).1) db) ∨
      attempts.foldl (fun db fails => (db.erase p fails).1) db = db' := by
    suffices hinv : ∀ s, Halfway p db s ∨ s = db' →
        Halfway p db (attempts.foldl (fun db fails => (db.erase p fails).1) s) ∨
        attempts.foldl (fun db fails => (db.erase p fails).1) s = db' from hinv db (.inl .refl)
    induction attempts with
    | nil => exact fun s hs => hs
    | cons fails attempts ih =>
      intro s hs
      refine ih _ ?_
      rcases hs with hs | rfl
      · rcases hstep hs fails with ⟨-, hhalf⟩ | ⟨-, hdone⟩
        · exact .inl hhalf
        · exact .inr (hdone.unique hfirst)
      · exact .inr (congrArg Prod.fst (hclean.erase_eq_self hblank fails))
  rcases hattempts with hhalf | hdone
  · rcases hstep hhalf (fun _ => false) with ⟨⟨b, hb⟩, -⟩ | ⟨⟨o', hok⟩, hdone⟩
    · cases hb
    · exact ⟨o', Prod.ext (hdone.unique hfirst) hok⟩
  · rw [hdone]
    exact ⟨_, hclean.erase_eq_self hblank _⟩

theorem checked_aliceOriginal {id hash : String}
    (h : (safeAssetStoragePath (aliceOriginal id hash).storagePath).toOption.isSome = true)
    (hname : (pathComponents (aliceOriginal id hash).storagePath).getLast? = some hash) :
    Checked (aliceOriginal id hash) := by
  refine ⟨?_, hname⟩
  cases hsafe : safeAssetStoragePath (aliceOriginal id hash).storagePath with
  | error e =>
    rw [hsafe] at h
    cases h
  | ok u => rfl

theorem erase_aliceDatabase :
    (aliceDatabase.erase "alice" fun _ => false).2 = .ok (aliceDatabase.eraseOutcome "alice") := by
  have hchecked : ∀ a ∈ aliceDatabase.scopedAssets "alice", Checked a := by
    have hrows :
        aliceDatabase.originals.assets.rows =
        [aliceOriginal "o" zeros, aliceOriginal "q" zerosAndOne] := by
      decide +kernel
    intro a ha
    have hmem := List.mem_of_mem_filter ha
    rw [hrows] at hmem
    rcases List.mem_cons.1 hmem with rfl | hmem
    · exact checked_aliceOriginal (by decide +kernel) (by decide +kernel)
    · obtain rfl := List.mem_singleton.1 hmem
      exact checked_aliceOriginal (by decide +kernel) (by decide +kernel)
  have hblank : Text.isBlank "alice" = false := by decide +kernel
  have hshared : aliceDatabase.shared "alice" = false := by decide +kernel
  rcases erase_of_prepared hblank hshared hchecked (fun _ => false) with ⟨-, ⟨b, hb⟩, -⟩ | ⟨hok, -⟩
  · cases hb
  · exact hok

/-- The second removal fails, so the first file is gone, and then it fails again. -/
theorem erase_retry_aliceDatabase :
    ([fun b => decide (b = .final (aliceOriginal "q" zerosAndOne).storagePath)].foldl
        (fun db fails => (erase db "alice" fails).1) aliceDatabase).originals.files
      (.final (aliceOriginal "o" zeros).storagePath) = none ∧
    ∃ o', (([fun b => decide (b = .final (aliceOriginal "q" zerosAndOne).storagePath),
      fun _ => true].foldl
        (fun db fails => (erase db "alice" fails).1) aliceDatabase).erase "alice" fun _ => false) =
      ((aliceDatabase.erase "alice" fun _ => false).1, .ok o') := by
  have hfirst : aliceDatabase.erase "alice" (fun _ => false) =
      ((aliceDatabase.erase "alice" fun _ => false).1,
        .ok (aliceDatabase.eraseOutcome "alice")) := by
    rw [← erase_aliceDatabase]
  exact ⟨by decide +kernel, erase_retry references_aliceDatabase hfirst _⟩

end Retry

end Database

end Solo
